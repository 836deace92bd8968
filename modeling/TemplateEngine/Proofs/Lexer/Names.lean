import Mathlib.Data.List.TakeWhile
import TemplateEngine.Proofs.Lexer.Reaches

/-!
The names that a lexer reads. Main statement: every token that is a name is made of the characters
of names, whatever the settings of the lexer and its treatment of comments.
-/

namespace TemplateEngine

def WellNamed (tokens : List Token) : Prop :=
  ∀ t ∈ tokens, t.kind = .name → ∀ c ∈ t.value.toList, Lexer.isNameChar c = true

namespace WellNamed

variable {t : Token} {tokens more : List Token}

theorem nil : WellNamed [] := by
  intro t ht
  simp at ht

theorem append (h : WellNamed tokens) (hmore : WellNamed more) : WellNamed (tokens ++ more) :=
  List.forall_mem_append.2 ⟨h, hmore⟩

theorem of_kind_ne (h : t.kind ≠ .name) : WellNamed [t] := by
  intro u hu hname
  rw [List.mem_singleton.1 hu] at hname
  exact absurd hname h

end WellNamed

namespace Lexer

variable {r : Rules} {comments : Comments} {s t : State} {tokens : List Token}

/-- A name goes on as far as its characters do. -/
theorem isNameChar_of_mem_take_nameLength {cs : List Char} :
    ∀ c ∈ cs.take (nameLength cs), isNameChar c = true := by
  cases cs with
  | nil => simp
  | cons c cs =>
    rw [nameLength]
    split
    · next hstart =>
      have hprefix : cs.takeWhile isNameChar = cs.take (cs.takeWhile isNameChar).length :=
        List.prefix_iff_eq_take.1 (List.takeWhile_prefix isNameChar)
      rw [Nat.add_comm, List.take_succ_cons, ← hprefix]
      intro d hd
      rcases List.mem_cons.1 hd with rfl | hd
      · simp [isNameChar, hstart]
      · exact List.mem_takeWhile_imp hd
    · simp

abbrev NamesWell {ε : Type} : Except ε Piece → Prop :=
  ComesTo (fun _ => True) fun piece => WellNamed piece.1

/-- A piece of one token that is no name. -/
theorem namesWell_token {ε : Type} {kind : TokenKind} (hkind : kind ≠ .name) (value : List Char)
    (t : State) : NamesWell (.ok ([s.token kind value], t) : Except ε Piece) :=
  .ok (.of_kind_ne hkind)

theorem namesWell_silent {ε : Type} (t : State) : NamesWell (.ok ([], t) : Except ε Piece) :=
  .ok .nil

theorem wellNamed_textTokens (s : State) (text : List Char) : WellNamed (s.textTokens text) := by
  unfold State.textTokens
  split
  · exact .nil
  · exact .of_kind_ne (by simp [State.token])

theorem tagStep_namesWell (search : EndSearch) (kind : TagKind) (s : State) :
    ComesTo (fun _ => True) (fun d => WellNamed d.piece.1) (tagStep r search kind s) := by
  have henter : ∀ nesting kind opening, kind ≠ .name →
      WellNamed (enterTag nesting kind opening s).1 :=
    fun _ _ _ hkind => .of_kind_ne hkind
  unfold tagStep
  split
  · split
    · exact .ok .nil
    · exact .ok .nil
  · exact .ok (henter _ _ _ (by simp))
  · split
    · apply ComesTo.map (P := fun piece => WellNamed piece.1)
      · unfold verbatimStep
        split
        · exact .error trivial
        · exact .ok (wellNamed_textTokens _ _)
      · exact fun _ hpiece => hpiece
    · exact .ok (henter _ _ _ (by simp))

theorem dataStep_namesWell (search : EndSearch) (s : State) :
    ComesTo (fun _ => True) (fun d => WellNamed d.piece.1) (dataStep r search s) := by
  unfold dataStep
  split
  · exact .ok (wellNamed_textTokens s _)
  · next start later _ =>
    apply (tagStep_namesWell search start.kind _).map
    intro d hd
    rw [DataPiece.piece_after]
    exact (wellNamed_textTokens s _).append hd

/-- The name of the tag that stands for a kept comment is `comment`. -/
theorem commentStep_namesWell (s : State) : NamesWell (commentStep r s) := by
  unfold commentStep
  split
  · exact .error trivial
  · refine .ok ?_
    intro t ht hname
    simp only [List.mem_cons, List.not_mem_nil, or_false] at ht
    rcases ht with rfl | rfl | rfl | rfl
    · simp [State.token] at hname
    · have hname : "comment".toList.all isNameChar = true := by decide
      simp only [State.token, String.toList_ofList]
      exact List.all_eq_true.1 hname
    · simp [State.token] at hname
    · simp [State.token] at hname

theorem punctuationStep_namesWell (c : Char) (s : State) : NamesWell (punctuationStep c s) := by
  unfold punctuationStep
  split
  · split
    · exact .error trivial
    split
    · exact namesWell_token (by simp) _ _
    · exact .error trivial
  · split
    · exact namesWell_token (by simp) _ _
    · exact namesWell_token (by simp) _ _

theorem wordStep_namesWell (c : Char) (s : State) : NamesWell (wordStep r c s) := by
  unfold wordStep
  split
  · exact namesWell_token (by simp) _ _
  simp only
  split
  · refine .ok ?_
    intro t ht _
    rw [List.mem_singleton.1 ht, State.token, String.toList_ofList]
    exact isNameChar_of_mem_take_nameLength
  split
  · exact namesWell_token (by simp) _ _
  split
  · exact punctuationStep_namesWell c s
  split
  · exact namesWell_token (by simp) _ _
  split
  · exact namesWell_silent _
  · exact .error trivial

theorem expressionStep_namesWell (s : State) : NamesWell (expressionStep r s) := by
  unfold expressionStep
  simp only
  split
  · split
    · exact namesWell_silent _
    · exact .error trivial
  · exact wordStep_namesWell _ _

theorem closeOrExpression_namesWell (close : Pattern) {kind : TokenKind} (hkind : kind ≠ .name)
    (closing : List Char) (s : State) : NamesWell (closeOrExpression r close kind closing s) := by
  unfold closeOrExpression
  split
  · exact namesWell_token hkind _ _
  · exact expressionStep_namesWell s

theorem interpolationStep_namesWell (s : State) : NamesWell (interpolationStep r s) := by
  unfold interpolationStep
  split
  · exact expressionStep_namesWell s
  split
  · exact namesWell_token (by simp) _ _
  · exact expressionStep_namesWell s

theorem stringStep_namesWell (s : State) : NamesWell (stringStep r s) := by
  unfold stringStep
  split
  · exact namesWell_token (by simp) _ _
  simp only
  split
  · exact namesWell_token (by simp) _ _
  split
  · split
    · exact namesWell_silent _
    split
    · exact namesWell_silent _
    · exact .error trivial
  · exact .error trivial
  · exact .error trivial

theorem namesWell_rejected {x : Except Located Piece} (h : NamesWell x) :
    NamesWell (x.mapError Failure.rejected) :=
  h.mapError fun _ _ => trivial

theorem partStep_namesWell (s : State) : NamesWell (partStep r s) := by
  unfold partStep
  split
  · exact .error trivial
  · apply namesWell_rejected
    exact closeOrExpression_namesWell _ TokenKind.noConfusion _ s
  · apply namesWell_rejected
    exact closeOrExpression_namesWell _ TokenKind.noConfusion _ s
  · exact namesWell_rejected (stringStep_namesWell s)
  · exact namesWell_rejected (interpolationStep_namesWell s)
  · exact .error trivial

theorem step_namesWell (comments : Comments) (s : State) : NamesWell (step r comments s) := by
  cases comments with
  | drop =>
    simp only [step]
    unfold dropStep
    split
    · have hdata := dataStep_namesWell (r := r) (realSearch r) s
      split
      · exact .error trivial
      · exact .error trivial
      · next hlexed => exact .ok (hdata.of_ok hlexed)
    · exact .error trivial
    · exact partStep_namesWell s
  | keep =>
    simp only [step]
    unfold keepStep
    split
    · have hdata := dataStep_namesWell (r := r) armedSearch s
      split
      · exact .error trivial
      · next hopen => exact .ok (hdata.of_ok hopen)
      · next hlexed => exact .ok (hdata.of_ok hlexed)
    · exact namesWell_rejected (commentStep_namesWell s)
    · exact partStep_namesWell s

theorem Reaches.wellNamed (h : Reaches r comments s tokens t) : WellNamed tokens := by
  induction h with
  | refl => exact .nil
  | step _ hstep _ ih => exact WellNamed.append ((step_namesWell _ _).of_ok hstep) ih

end Lexer

/-- The names in a template are made of the characters of names. -/
theorem Lexer.wellNamed_of_tokenize {lexer : Lexer} {source : Source} {stream : TokenStream}
    (h : lexer.tokenize source = .ok stream) : WellNamed stream.tokens := by
  rw [tokenize_eq_bind] at h
  obtain ⟨tokens, htokens, rfl⟩ := map_eq_ok.1 h
  obtain ⟨ts, t, eof, hreaches, -, hfinish, rfl⟩ := tokens_eq_ok.1 (mapError_eq_ok.1 htokens)
  have heof : eof.kind = .eof := (finish_ok hfinish).2
  rw [TokenStream.tokens_ofTokens, TokenStream.closeList_append_eof ts heof]
  exact hreaches.wellNamed.append (.of_kind_ne (by simp [heof]))

end TemplateEngine
