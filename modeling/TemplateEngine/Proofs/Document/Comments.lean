import TemplateEngine.Document.Parser
import TemplateEngine.Proofs.Document.Visible
import TemplateEngine.Proofs.Expr.Locality
import TemplateEngine.Proofs.Lexer.Comments

/-!
Documents with and without comments. Main statement: from token lists that differ by kept comments,
a parser that knows their tag fails alike, or reads documents that differ by the comments which are
not exposed.
-/

namespace TemplateEngine

namespace Document

open Lexer TokenReader

variable {delimiters : String × String} {N N' : Nat} {s t : ParserState} {α : Type}

structure Outside (delimiters : String × String) (N N' : Nat) (s t : ParserState) : Prop where
  blocks : s.blocks = t.blocks
  source : s.stream.source = t.stream.source
  omits : OmitsComments delimiters t.stream.ahead s.stream.ahead
  length : s.stream.ahead.length ≤ N
  length' : t.stream.ahead.length ≤ N'

def Behind (delimiters : String × String) (M M' : Nat) (left right : List Token) : Prop :=
  OmitsComments delimiters right left ∧ left.length ≤ M ∧ right.length ≤ M'

structure Inside (delimiters : String × String) (N N' : Nat) (s t : ParserState) : Prop where
  blocks : s.blocks = t.blocks
  linked : ∃ n M M', Linked (Behind delimiters M M') n s.stream t.stream ∧ n + 1 + M ≤ N ∧
    n + 1 + M' ≤ N'

@[simp] theorem outcome_lift (reader : TokenReader α) (s : ParserState) :
    outcome (lift reader) s =
      (outcome reader s.stream).map fun result => (result.1, { s with stream := result.2 }) := by
  unfold outcome lift
  cases reader s.stream <;> rfl

theorem gives_lift {E : SyntaxError → Prop} {reader : TokenReader α} {P : α → TokenStream → Prop}
    (h : Gives E reader s.stream P) : Gives E (lift reader) s fun a t => P a t.stream :=
  .of_outcome (outcome_lift reader s) (ComesTo.map h fun _ hresult => hresult)

theorem gives_lift_current {β : Type} {E : SyntaxError → Prop} {f : Token → Reader β}
    {P : β → ParserState → Prop} (hf : Gives E (f s.stream.current) s P) :
    Gives E (lift current >>= f) s P :=
  hf

theorem Inside.mono {M M' : Nat} (h : Inside delimiters N N' s t) (hM : N ≤ M) (hM' : N' ≤ M') :
    Inside delimiters M M' s t := by
  obtain ⟨hblocks, n, K, K', hlinked, hN, hN'⟩ := h
  exact ⟨hblocks, n, K, K', hlinked, by omega, by omega⟩

theorem agree_lift_current {β : Type} {Q : α × ParserState → β × ParserState → Prop}
    {F : Token → Reader α} {G : Token → Reader β} (h : t.stream.current = s.stream.current)
    (hrest : Agree Q (outcome (F s.stream.current) s) (outcome (G s.stream.current) t)) :
    Agree Q (outcome (lift current >>= F) s) (outcome (lift current >>= G) t) := by
  simp only [outcome_bind, outcome_lift, outcome_current, Except.map, ok_bind, h]
  exact hrest

theorem Outside.mono {M M' : Nat} (h : Outside delimiters N N' s t) (hM : N ≤ M) (hM' : N' ≤ M') :
    Outside delimiters M M' s t :=
  { h with
    length := Nat.le_trans h.length hM
    length' := Nat.le_trans h.length' hM' }

theorem Inside.pos (h : Inside delimiters N N' s t) : 0 < N ∧ 0 < N' := by
  obtain ⟨-, n, M, M', -, hN, hN'⟩ := h
  omega

theorem Inside.current_eq (h : Inside delimiters N N' s t) :
    t.stream.current = s.stream.current := by
  obtain ⟨-, n, M, M', hlinked, -, -⟩ := h
  exact hlinked.current_eq

theorem Outside.agree_fail {β : Type} {Q : α × ParserState → β × ParserState → Prop}
    (h : Outside delimiters N N' s t) (fault : SyntaxFault) (line : Nat) :
    Agree Q (outcome (lift (fail fault line)) s) (outcome (lift (fail fault line)) t) := by
  simp only [outcome_lift, outcome_fail, TokenStream.error, h.source]
  exact .error _

/-- A read inside the tag leaves both parsers there. -/
theorem Inside.agree_lift (h : Inside delimiters N N' s t) {f g : TokenReader α}
    (hread : ∀ (R : List Token → List Token → Prop) n,
      Linked R n s.stream t.stream →
        Agree (Same (Linked R n)) (outcome f s.stream) (outcome g t.stream)) :
    Agree (Same (Inside delimiters N N')) (outcome (lift f) s) (outcome (lift g) t) := by
  obtain ⟨hblocks, n, M, M', hlinked, hN, hN'⟩ := h
  rw [outcome_lift, outcome_lift]
  refine (hread _ n hlinked).map fun a b hab => ⟨hab.1, hblocks, n, M, M', hab.2, hN, hN'⟩

/-- A token inside the tag is taken by both parsers. -/
theorem Inside.agree_next (h : Inside delimiters N N' s t)
    (hin : s.stream.current.kind.isInner = true) :
    Agree (Same (Inside delimiters (N - 1) (N' - 1))) (outcome (lift next) s)
      (outcome (lift next) t) := by
  obtain ⟨hblocks, n, M, M', hlinked, hN, hN'⟩ := h
  have hn := (hlinked.move hin).1
  rw [outcome_lift, outcome_lift]
  refine (hlinked.agree_next hin).map fun a b hab =>
    ⟨hab.1, hblocks, n - 1, M, M', hab.2, by omega, by omega⟩

/-- The closing delimiter of a tag leads outside of it. -/
theorem Inside.agree_expect (h : Inside delimiters N N' s t) {kind : TokenKind}
    (hkind : kind.EndsTag) :
    Agree (Same (Outside delimiters (N - 1) (N' - 1))) (outcome (lift (expect kind none)) s)
      (outcome (lift (expect kind none)) t) := by
  obtain ⟨hblocks, n, M, M', hlinked, hN, hN'⟩ := h
  rw [outcome_lift, outcome_lift]
  by_cases htest : s.stream.current.test kind none = true
  · have hin : s.stream.current.kind.isInner = false := by
      rw [Token.test_none, beq_iff_eq] at htest
      rw [htest]
      exact hkind.isInner_eq_false
    obtain ⟨-, homits, hlength, hlength'⟩ := hlinked.ending hin
    obtain ⟨⟨token', rest', hafter'⟩, token, rest, hafter⟩ := homits.exists_cons
    rw [outcome_expect hafter, outcome_expect hafter', hlinked.current_eq, htest]
    rw [hafter, hafter'] at homits
    rw [hafter] at hlength
    rw [hafter'] at hlength'
    refine .ok ⟨rfl, hblocks, hlinked.source, homits, ?_, ?_⟩
    · show (token :: rest).length ≤ N - 1
      omega
    · show (token' :: rest').length ≤ N' - 1
      omega
  · rw [Bool.not_eq_true] at htest
    rw [outcome_expect_of_test htest, outcome_expect_of_test (by rw [hlinked.current_eq, htest]),
      hlinked.current_eq]
    simp only [TokenStream.error, hlinked.source]
    exact .error _

theorem Inside.agree_blockEnd (h : Inside delimiters N N' s t) :
    Agree (Same (Outside delimiters (N - 1) (N' - 1))) (outcome blockEnd s)
      (outcome blockEnd t) := by
  unfold blockEnd
  exact agree_bind (h.agree_expect (.inl rfl)) fun _ s t hst => agree_pure _ hst

theorem Inside.agree_expectName (h : Inside delimiters N N' s t) :
    Agree (Same (Inside delimiters N N')) (outcome (lift (expect .name none)) s)
      (outcome (lift (expect .name none)) t) := by
  apply h.agree_lift
  intro R n hst
  exact (hst.agree_expect rfl none).mono fun a b hab => ⟨hab.1, hab.2.2.mono (by omega)⟩

theorem Inside.agree_lastExpression (h : Inside delimiters N N' s t) :
    Agree (Same (Outside delimiters (N - 1) (N' - 1))) (outcome lastExpression s)
      (outcome lastExpression t) := by
  unfold lastExpression
  apply agree_bind (h.agree_lift fun _ _ hst => Expr.read_agree hst)
  intro expr s t hst
  apply agree_bind hst.agree_blockEnd
  intro _ s t hst
  exact agree_pure expr hst

theorem readLoopNames_agree {R : List Token → List Token → Prop} {n : Nat} {s t : TokenStream}
    (h : Linked R n s t) :
    Agree (Same (Linked R n)) (outcome readLoopNames s) (outcome readLoopNames t) := by
  have hin : ∀ (names : Option String × String) m u v, m ≤ n → Linked R m u v →
      Agree (Same (Linked R n))
        (outcome (do let _ ← expect .operator (some "in"); return names) u)
        (outcome (do let _ ← expect .operator (some "in"); return names) v) := by
    intro names m u v hm huv
    apply agree_bind (huv.agree_expect rfl _)
    intro _ u v huv
    exact agree_pure _ (huv.2.mono (by omega))
  unfold readLoopNames
  apply agree_bind (h.agree_expect rfl _)
  intro first s t hst
  refine hst.2.agree_nextIf rfl (fun u v _ huv => ?_) ?_
  · apply agree_bind (huv.agree_expect rfl _)
    intro target u v huv
    exact hin _ _ u v (by omega) huv.2
  · exact hin _ _ s t (by omega) hst.2

theorem readEndName_agree {R : List Token → List Token → Prop} {n : Nat} {s t : TokenStream}
    (name : String) (h : Linked R n s t) :
    Agree (Same (Linked R n)) (outcome (readEndName name) s) (outcome (readEndName name) t) := by
  unfold readEndName
  refine h.agree_nextIf rfl (fun u v _ huv => ?_) (agree_pure _ h)
  simp only
  split
  · exact agree_pure _ (huv.mono (by omega))
  · exact huv.agree_fail _ _

theorem Inside.agree_fail {β : Type} {Q : α × ParserState → β × ParserState → Prop}
    (h : Inside delimiters N N' s t) (fault : SyntaxFault) (line : Nat) :
    Agree Q (outcome (lift (fail fault line)) s) (outcome (lift (fail fault line)) t) := by
  obtain ⟨-, n, M, M', hlinked, -, -⟩ := h
  simp only [outcome_lift, outcome_fail, TokenStream.error, hlinked.source]
  exact .error _

theorem Inside.agree_defineBlock (h : Inside delimiters N N' s t) (name : String) (line : Nat) :
    Agree (Same (Inside delimiters N N')) (outcome (defineBlock name line) s)
      (outcome (defineBlock name line) t) := by
  unfold defineBlock
  simp only [outcome_bind, outcome_get, ok_bind, ← h.blocks]
  cases s.blocks.lookup name with
  | some defined => exact h.agree_fail _ _
  | none => exact .ok ⟨rfl, rfl, h.linked⟩

/-- The stream behind the string of an exposed comment and the text that stands for it. -/
def pastExposed (s : TokenStream) (token : Token) (rest : List Token) : TokenStream :=
  (s.moved ⟨.text, s.current.value, s.current.line⟩ s.after).moved token rest

theorem outcome_readComment_of_string {s : TokenStream} {token : Token} {rest : List Token}
    (hkind : s.current.kind = .string) (hafter : s.after = token :: rest) :
    outcome readComment s = outcome (do
      let _ ← expect .blockEnd none
      return .comment s.current.line s.current.value true) (pastExposed s token rest) := by
  have hinjected : (s.inject [⟨.text, s.current.value, s.current.line⟩]).after =
      ⟨.text, s.current.value, s.current.line⟩ :: s.after := rfl
  unfold readComment
  simp only [outcome_bind, outcome_current, ok_bind, hkind, beq_self_eq_true, if_true,
    outcome_modify]
  rw [outcome_next hinjected]
  simp only [ok_bind]
  rw [outcome_expect (show (TokenStream.moved _ _ s.after).after = token :: rest from hafter)]
  rfl

theorem outcome_lift_readComment {token : Token} {rest : List Token}
    (hkind : s.stream.current.kind = .string) (hafter : s.stream.after = token :: rest) :
    outcome (lift readComment) s = outcome (do
      blockEnd
      return .comment s.stream.current.line s.stream.current.value true)
        { s with stream := pastExposed s.stream token rest } := by
  rw [outcome_lift, outcome_readComment_of_string hkind hafter]
  simp only [outcome_bind, blockEnd, outcome_lift]
  cases outcome (expect .blockEnd none) (pastExposed s.stream token rest) <;> rfl

theorem outcome_readComment_of_ne_text {s : TokenStream} (hkind : s.current.kind ≠ .string)
    (htext : s.current.kind ≠ .text) :
    outcome readComment s =
      .error (s.error (.mismatch s.current.kind s.current.value .text none) s.current.line) := by
  have hexposed : (s.current.kind == TokenKind.string) = false := beq_eq_false_iff_ne.2 hkind
  have htest : s.current.test .text none = false := by
    rw [Token.test_none, beq_eq_false_iff_ne]
    exact htext
  unfold readComment
  simp only [outcome_bind, outcome_current, ok_bind, hexposed, Bool.false_eq_true, if_false,
    outcome_expect_of_test htest]
  rfl

/-- A comment that is written as a tag is exposed. -/
theorem Inside.agree_readComment (h : Inside delimiters N N' s t) :
    Agree (fun a b => (∃ line text, a.1 = .comment line text true ∧ b.1 = .comment line text true) ∧
      Outside delimiters (N - 1) (N' - 1) a.2 b.2) (outcome (lift readComment) s)
      (outcome (lift readComment) t) := by
  obtain ⟨hblocks, n, M, M', hlinked, hN, hN'⟩ := h
  have hcurrent := hlinked.current_eq
  by_cases hkind : s.stream.current.kind = .string
  · obtain ⟨hn, token, left, right, hafter, hafter', hmoved⟩ := hlinked.move (by rw [hkind]; rfl)
    have hpast : Inside delimiters N N'
        { s with stream := pastExposed s.stream token left }
        { t with stream := pastExposed t.stream token right } :=
      ⟨hblocks, n - 1, M, M', hmoved.congr rfl rfl rfl rfl, by omega, by omega⟩
    rw [outcome_lift_readComment hkind hafter,
      outcome_lift_readComment (by rw [hcurrent, hkind]) hafter', hcurrent]
    apply agree_bind hpast.agree_blockEnd
    intro _ u v huv
    exact .ok ⟨⟨_, _, rfl, rfl⟩, huv⟩
  · have htext : s.stream.current.kind ≠ .text := by
      intro hkind
      cases hin : s.stream.current.kind.isInner with
      | true => simp [hkind, TokenKind.isInner] at hin
      | false => rcases (hlinked.ending hin).1 with h | h <;> simp [hkind] at h
    rw [outcome_lift, outcome_lift, outcome_readComment_of_ne_text hkind htext,
      outcome_readComment_of_ne_text (by rw [hcurrent]; exact hkind)
        (by rw [hcurrent]; exact htext), hcurrent]
    simp only [TokenStream.error, hlinked.source]
    exact .error _

inductive Front (delimiters : String × String) (N N' : Nat) (s t : ParserState) : Prop
  | eof (hkind : s.stream.current.kind = .eof) (hcurrent : t.stream.current = s.stream.current)
  | text (hkind : s.stream.current.kind = .text) (hcurrent : t.stream.current = s.stream.current)
      (hnext : Agree (Same (Outside delimiters (N - 1) (N' - 1))) (outcome (lift next) s)
        (outcome (lift next) t))
  | opening (hkind : s.stream.current.kind = .blockStart ∨ s.stream.current.kind = .varStart)
      (hcurrent : t.stream.current = s.stream.current)
      (hnext : Agree (Same (Inside delimiters (N - 1) (N' - 1))) (outcome (lift next) s)
        (outcome (lift next) t))
  | comment (line : Nat) (body : String) (token : Token) (rest : List Token)
      (hahead : t.stream.ahead = commentTokens delimiters line body ++ token :: rest)
      (hpast : ∀ before, Outside delimiters N (N' - 4) s
        { t with stream := ⟨before, token, rest, t.stream.source⟩ })

theorem Outside.front (h : Outside delimiters N N' s t) : Front delimiters N N' s t := by
  obtain ⟨hblocks, hsource, ⟨ks, ds, eof, hks, hds, heof, homits⟩, hN, hN'⟩ := h
  rw [hds, List.length_append] at hN
  rw [hks, List.length_append] at hN'
  cases homits with
  | nil =>
    obtain ⟨hs, -⟩ := List.cons.inj hds
    obtain ⟨ht, -⟩ := List.cons.inj hks
    exact .eof (by rw [hs, heof]) (by rw [hs, ht])
  | @text token kept dropped hkind homits =>
    obtain ⟨hs, hsafter⟩ := List.cons.inj hds
    obtain ⟨ht, htafter⟩ := List.cons.inj hks
    have hbehind : OmitsComments delimiters t.stream.after s.stream.after :=
      ⟨kept, dropped, eof, htafter, hsafter, heof, homits⟩
    obtain ⟨⟨right, more', hright⟩, left, more, hleft⟩ := hbehind.exists_cons
    refine .text (by rw [hs, hkind]) (by rw [hs, ht]) ?_
    rw [outcome_lift, outcome_lift, outcome_next hleft, outcome_next hright]
    have hsahead : (s.stream.moved left more).ahead = dropped ++ [eof] := hleft.symm.trans hsafter
    have htahead : (t.stream.moved right more').ahead = kept ++ [eof] := hright.symm.trans htafter
    refine .ok ⟨by rw [hs, ht], hblocks, hsource,
      ⟨kept, dropped, eof, htahead, hsahead, heof, homits⟩, ?_, ?_⟩
    · rw [hsahead, List.length_append]
      rw [List.length_cons] at hN
      omega
    · rw [htahead, List.length_append]
      rw [List.length_cons] at hN'
      omega
  | @opening token kept dropped hkind homits =>
    obtain ⟨hs, hsafter⟩ := List.cons.inj hds
    obtain ⟨ht, htafter⟩ := List.cons.inj hks
    obtain ⟨inside, ending, ks, ds, hinside, hending, hbeyond, rfl, rfl⟩ := homits.split_inside
    obtain ⟨left, more, hleft⟩ : ∃ left more, s.stream.after = left :: more := by
      rw [hsafter]
      cases inside <;> simp
    obtain ⟨right, more', hright⟩ : ∃ right more', t.stream.after = right :: more' := by
      rw [htafter]
      cases inside <;> simp
    refine .opening (by rw [hs]; exact hkind) (by rw [hs, ht]) ?_
    rw [outcome_lift, outcome_lift, outcome_next hleft, outcome_next hright]
    have hsahead : (s.stream.moved left more).ahead = inside ++ ending :: (ds ++ [eof]) := by
      simpa using hleft.symm.trans hsafter
    have htahead : (t.stream.moved right more').ahead = inside ++ ending :: (ks ++ [eof]) := by
      simpa using hright.symm.trans htafter
    have hbehind : Behind delimiters (ds.length + 1) (ks.length + 1) (ds ++ [eof]) (ks ++ [eof]) :=
      ⟨⟨ks, ds, eof, rfl, rfl, heof, hbeyond⟩, by simp, by simp⟩
    simp only [List.length_cons, List.length_append, List.length_nil] at hN hN'
    exact .ok ⟨by rw [hs, ht], hblocks, inside.length, _, _, ⟨hsource, inside, ending, _, _,
      Nat.le_refl _, hinside, hending, hbehind, hsahead, htahead⟩, by omega, by omega⟩
  | @comment line body kept dropped homits =>
    obtain ⟨token, rest, hrest⟩ : ∃ token rest, kept ++ [eof] = token :: rest := by
      cases kept <;> simp
    apply Front.comment line body token rest (by rw [hks, List.append_assoc, hrest])
    intro before
    refine ⟨hblocks, hsource, ⟨kept, ds, eof, hrest.symm, hds, heof, homits⟩, ?_, ?_⟩
    · rw [hds, List.length_append]
      exact hN
    · show (token :: rest).length ≤ N' - 4
      rw [← hrest, List.length_append]
      simp only [commentTokens, List.length_append, List.length_cons, List.length_nil] at hN'
      simp only [List.length_cons, List.length_nil]
      omega

/-- A parser that knows the tag of comments takes a lexed one as a node and reads on. -/
theorem readNodes_comment {tags : TagSet} (htag : tags.find? "comment" = some .comment) {k : Nat}
    (hk : 0 < k) {ends : List String} (hends : "comment" ∉ ends) (enclosing : Option String)
    {line : Nat} {body : String} {token : Token} {rest : List Token}
    (hahead : t.stream.ahead = commentTokens delimiters line body ++ token :: rest) :
    ∃ before, outcome (readNodes tags (k + 1) ends enclosing) t =
      (outcome (readNodes tags k ends enclosing)
        { t with stream := ⟨before, token, rest, t.stream.source⟩ }).map fun result =>
          (.comment line body false :: result.1, result.2) := by
  obtain ⟨k, rfl⟩ : ∃ j, k = j + 1 := ⟨k - 1, by omega⟩
  obtain ⟨⟨before, current, after, source⟩, blocks⟩ := t
  obtain ⟨rfl, hafter⟩ := List.cons.inj hahead
  have hafter : after = ⟨.name, "comment", line⟩ :: ⟨.text, body, line⟩ ::
      ⟨.blockEnd, delimiters.2, line⟩ :: token :: rest := hafter
  subst hafter
  refine ⟨⟨.blockEnd, delimiters.2, line⟩ :: ⟨.text, body, line⟩ :: ⟨.name, "comment", line⟩ ::
    ⟨.blockStart, delimiters.1, line⟩ :: before, ?_⟩
  have hnext : ∀ before current token rest, outcome next ⟨before, current, token :: rest, source⟩ =
      .ok (current, ⟨current :: before, token, rest, source⟩) := fun _ _ _ _ => outcome_next rfl
  have hcomment : ∀ before, outcome readComment ⟨before, ⟨.text, body, line⟩,
      ⟨.blockEnd, delimiters.2, line⟩ :: token :: rest, source⟩ =
      .ok (.comment line body false,
        ⟨⟨.blockEnd, delimiters.2, line⟩ :: ⟨.text, body, line⟩ :: before, token, rest,
          source⟩) := by
    intro before
    unfold readComment
    simp only [outcome_bind, outcome_current, ok_bind]
    rfl
  rw [readNodes, Grammar.nodes]
  simp only [outcome_bind, outcome_lift, outcome_current, ok_bind, Except.map, hnext, ne_eq,
    not_true_eq_false, if_false, hends, htag, readTag, Grammar.tag, hcomment]
  cases outcome (readNodes tags (k + 1) ends enclosing) _ <;> rfl

structure NodesRead (delimiters : String × String) (ends : List String) (N N' : Nat)
    (a b : List Node × ParserState) : Prop where
  nodes : a.1 = visibleNodes b.1
  inside : ends ≠ [] → Inside delimiters (N - 1) (N' - 1) a.2 b.2
  name : ends ≠ [] → a.2.stream.current.kind = .name

structure TagRead (delimiters : String × String) (N N' : Nat) (a b : Node × ParserState) :
    Prop where
  node : a.1 = b.1.visible
  shown : b.1.isHidden = false
  outside : Outside delimiters (N - 1) (N' - 1) a.2 b.2

structure BranchesRead (delimiters : String × String) (N N' : Nat)
    (a b : (List Branch × Option (List Node)) × ParserState) : Prop where
  branches : a.1.1 = visibleBranches b.1.1
  otherwise : a.1.2 = visibleBody b.1.2
  inside : Inside delimiters (N - 1) (N' - 1) a.2 b.2

theorem NodesRead.mono {ends : List String} {M M' : Nat} {a b : List Node × ParserState}
    (h : NodesRead delimiters ends N N' a b) (hM : N ≤ M) (hM' : N' ≤ M') :
    NodesRead delimiters ends M M' a b :=
  ⟨h.nodes, fun hends => (h.inside hends).mono (by omega) (by omega), h.name⟩

structure Settled (tags : TagSet) (delimiters : String × String) (k k' : Nat) : Prop where
  readNodes : ∀ ends enclosing N N' s t, "comment" ∉ ends → Outside delimiters N N' s t →
    N ≤ k → N' ≤ k' →
      Agree (NodesRead delimiters ends N N') (outcome (readNodes tags k ends enclosing) s)
        (outcome (readNodes tags k' ends enclosing) t)
  readTag : ∀ tag line enclosing N N' s t, Inside delimiters N N' s t → N + 1 ≤ k → N' + 1 ≤ k' →
    Agree (TagRead delimiters N N') (outcome (readTag tags k tag line enclosing) s)
      (outcome (readTag tags k' tag line enclosing) t)
  readBranches : ∀ line otherwise enclosing N N' s t, Inside delimiters N N' s t →
    s.stream.current.kind = .name → N ≤ k → N' ≤ k' →
      Agree (BranchesRead delimiters N N')
        (outcome (readBranches tags k line (visibleBody otherwise) enclosing) s)
        (outcome (readBranches tags k' line otherwise enclosing) t)

variable {tags : TagSet} {k k' : Nat}

theorem readNodes_settled (htag : tags.find? "comment" = some .comment)
    (hprevious : ∀ k, Settled tags delimiters k k') (ends : List String) (enclosing : Option String)
    (N N' : Nat) (s t : ParserState) (hends : "comment" ∉ ends) (hst : Outside delimiters N N' s t)
    (hN : N ≤ k + 1) (hN' : N' ≤ k' + 1) :
    Agree (NodesRead delimiters ends N N') (outcome (readNodes tags (k + 1) ends enclosing) s)
      (outcome (readNodes tags (k' + 1) ends enclosing) t) := by
  have h := hprevious k
  have hcons : ∀ (node node' : Node) M M' u v, node = node'.visible → node'.isHidden = false →
      Outside delimiters M M' u v → M ≤ k → M' ≤ k' → M ≤ N → M' ≤ N' →
      Agree (NodesRead delimiters ends N N')
        (outcome (do let nodes ← readNodes tags k ends enclosing; return node :: nodes) u)
        (outcome (do let nodes ← readNodes tags k' ends enclosing; return node' :: nodes) v) := by
    intro node node' M M' u v hnode hshown huv hM hM' hMN hMN'
    apply agree_bind_of (h.readNodes ends enclosing M M' u v hends huv hM hM')
    intro nodes nodes' u v huv
    have huv := huv.mono hMN hMN'
    refine .ok ⟨?_, huv.inside, huv.name⟩
    rw [visibleNodes_cons hshown, hnode]
    exact congrArg _ huv.nodes
  cases hst.front with
  | comment line body token rest hahead hpast =>
    have hlength := hst.length'
    rw [hahead] at hlength
    simp only [commentTokens, List.length_append, List.length_cons, List.length_nil] at hlength
    obtain ⟨before, hkept⟩ := readNodes_comment htag (k := k') (by omega) hends enclosing hahead
    rw [hkept]
    have hrest :=
      (hprevious (k + 1)).readNodes ends enclosing N (N' - 4) _ _ hends (hpast before) hN (by omega)
    apply hrest.map_right
    intro result result' hread
    have hread := hread.mono (Nat.le_refl N) (Nat.sub_le N' 4)
    constructor
    · rw [visibleNodes]
      exact hread.nodes
    · exact hread.inside
    · exact hread.name
  | eof hkind hcurrent =>
    rw [readNodes, readNodes, Grammar.nodes, Grammar.nodes]
    refine agree_lift_current hcurrent ?_
    simp only [hkind]
    split
    · next hempty =>
      have hempty : ends = [] := List.isEmpty_iff.1 hempty
      exact .ok ⟨rfl, fun hends => absurd hempty hends, fun hends => absurd hempty hends⟩
    · exact hst.agree_fail _ _
  | text hkind hcurrent hnext =>
    have hlength := hst.length
    rw [readNodes, readNodes, Grammar.nodes, Grammar.nodes]
    refine agree_lift_current hcurrent ?_
    simp only [hkind]
    apply agree_bind hnext
    intro _ u v huv
    exact hcons _ _ _ _ u v rfl rfl huv (by omega) (by omega) (by omega) (by omega)
  | opening hkind hcurrent hnext =>
    rw [readNodes, readNodes, Grammar.nodes, Grammar.nodes]
    refine agree_lift_current hcurrent ?_
    rcases hkind with hkind | hkind
    · simp only [hkind]
      apply agree_bind hnext
      intro _ u v huv
      refine agree_lift_current huv.current_eq ?_
      split
      · exact huv.agree_fail _ _
      · next hname =>
        have hname : u.stream.current.kind = .name := Decidable.of_not_not hname
        split
        · exact .ok ⟨rfl, fun _ => huv, fun _ => hname⟩
        · cases tags.find? u.stream.current.value with
          | none => exact huv.agree_fail _ _
          | some tag =>
            have hpos := huv.pos
            simp only
            apply agree_bind (huv.agree_next (by rw [hname]; rfl))
            intro _ u v huv
            apply agree_bind_of (h.readTag tag _ enclosing _ _ u v huv (by omega) (by omega))
            intro node node' u v hread
            exact hcons _ _ _ _ u v hread.node hread.shown hread.outside (by omega) (by omega)
              (by omega) (by omega)
    · simp only [hkind]
      apply agree_bind hnext
      intro _ u v huv
      apply agree_bind (huv.agree_lift fun _ _ hst => Expr.read_agree hst)
      intro expr u v huv
      apply agree_bind (huv.agree_expect (.inr rfl))
      intro _ u v huv
      exact hcons _ _ _ _ u v rfl rfl huv (by omega) (by omega) (by omega) (by omega)

/-- A body up to a tag with one of the given names, which is taken by `hrest`. -/
theorem agree_body {α β : Type} {Q : α × ParserState → β × ParserState → Prop}
    (h : Settled tags delimiters k k') {ends : List String} (hends : "comment" ∉ ends)
    (hne : ends ≠ []) {enclosing : Option String} (hst : Outside delimiters N N' s t) (hN : N ≤ k)
    (hN' : N' ≤ k') {F : List Node → Reader α} {G : List Node → Reader β}
    (hrest : ∀ body u v, Inside delimiters (N - 1) (N' - 1) u v → u.stream.current.kind = .name →
      Agree Q (outcome (F (visibleNodes body)) u) (outcome (G body) v)) :
    Agree Q (outcome (readNodes tags k ends enclosing >>= F) s)
      (outcome (readNodes tags k' ends enclosing >>= G) t) := by
  apply agree_bind_of (h.readNodes ends enclosing N N' s t hends hst hN hN')
  intro body body' u v hread
  obtain rfl : body = visibleNodes body' := hread.nodes
  exact hrest body' u v (hread.inside hne) (hread.name hne)

theorem readTag_settled (h : Settled tags delimiters k k') (tag : Tag) (line : Nat)
    (enclosing : Option String) (N N' : Nat) (s t : ParserState)
    (hst : Inside delimiters N N' s t) (hN : N + 1 ≤ k + 1) (hN' : N' + 1 ≤ k' + 1) :
    Agree (TagRead delimiters N N') (outcome (readTag tags (k + 1) tag line enclosing) s)
      (outcome (readTag tags (k' + 1) tag line enclosing) t) := by
  cases tag with
  | here =>
    rw [readTag, readTag, Grammar.tag, Grammar.tag]
    apply agree_bind hst.agree_blockEnd
    intro _ s t hst
    exact .ok ⟨rfl, rfl, hst⟩
  | comment =>
    rw [readTag, readTag, Grammar.tag, Grammar.tag]
    apply hst.agree_readComment.mono
    intro a b hab
    obtain ⟨⟨line, text, ha, hb⟩, houtside⟩ := hab
    exact ⟨by rw [ha, hb, Node.visible], by rw [hb]; rfl, houtside⟩
  | choice =>
    rw [readTag, readTag, Grammar.tag, Grammar.tag]
    apply agree_bind hst.agree_lastExpression
    intro condition s t hst
    apply agree_body h (by simp) (by simp) hst (by omega) (by omega)
    intro body s t hst hname
    apply agree_bind_of (h.readBranches line none enclosing _ _ s t hst hname (by omega) (by omega))
    intro result result' s t hread
    obtain ⟨branches, otherwise⟩ := result
    obtain ⟨branches', otherwise'⟩ := result'
    obtain ⟨rfl, rfl, hst⟩ := hread
    apply agree_bind hst.agree_blockEnd
    intro _ s t hst
    exact .ok ⟨rfl, rfl, hst.mono (by omega) (by omega)⟩
  | loop =>
    rw [readTag, readTag, Grammar.tag, Grammar.tag]
    apply agree_bind (hst.agree_lift fun _ _ hst => readLoopNames_agree hst)
    intro names s t hst
    apply agree_bind hst.agree_lastExpression
    intro iterable s t hst
    apply agree_body h (by simp) (by simp) hst (by omega) (by omega)
    intro body s t hst hname
    apply agree_bind (hst.agree_next (by rw [hname]; rfl))
    intro ending s t hst
    have hend : ∀ (otherwise : Option (List Node)) M M' u v, Inside delimiters M M' u v → M ≤ N →
        M' ≤ N' →
        Agree (TagRead delimiters N N')
          (outcome (do
            blockEnd
            return .loop line names.1 names.2 iterable (visibleNodes body)
              (visibleBody otherwise)) u)
          (outcome (do
            blockEnd
            return .loop line names.1 names.2 iterable body otherwise) v) := by
      intro otherwise M M' u v huv hM hM'
      apply agree_bind huv.agree_blockEnd
      intro _ u v huv
      exact .ok ⟨rfl, rfl, huv.mono (by omega) (by omega)⟩
    split
    · apply agree_bind hst.agree_blockEnd
      intro _ s t hst
      apply agree_body h (by simp) (by simp) hst (by omega) (by omega)
      intro otherwise s t hst hname
      apply agree_bind (hst.agree_next (by rw [hname]; rfl))
      intro _ s t hst
      exact hend (some otherwise) _ _ s t hst (by omega) (by omega)
    · exact hend none _ _ s t hst (by omega) (by omega)
  | block =>
    rw [readTag, readTag, Grammar.tag, Grammar.tag]
    apply agree_bind (hst.agree_expectName)
    intro name s t hst
    apply agree_bind (hst.agree_defineBlock name.value line)
    intro _ s t hst
    have hend : ∀ (body : List Node) M M' u v, Inside delimiters M M' u v → M ≤ N → M' ≤ N' →
        Agree (TagRead delimiters N N')
          (outcome (do
            blockEnd
            return .block line name.value (visibleNodes body)) u)
          (outcome (do
            blockEnd
            return .block line name.value body) v) := by
      intro body M M' u v huv hM hM'
      apply agree_bind huv.agree_blockEnd
      intro _ u v huv
      exact .ok ⟨rfl, rfl, huv.mono (by omega) (by omega)⟩
    simp only [outcome_bind, outcome_lift, outcome_test, Except.map, ok_bind, hst.current_eq]
    split
    · apply agree_bind hst.agree_blockEnd
      intro _ s t hst
      apply agree_body h (by simp) (by simp) hst (by omega) (by omega)
      intro body s t hst hname
      apply agree_bind (hst.agree_next (by rw [hname]; rfl))
      intro _ s t hst
      apply agree_bind (hst.agree_lift fun _ _ hst => readEndName_agree name.value hst)
      intro _ s t hst
      exact hend body _ _ s t hst (by omega) (by omega)
    · apply agree_bind (hst.agree_lift fun _ _ hst => Expr.read_agree hst)
      intro expr s t hst
      exact hend [.print expr.line expr] _ _ s t hst (by omega) (by omega)

theorem readBranches_settled (h : Settled tags delimiters k k') (line : Nat)
    (otherwise : Option (List Node)) (enclosing : Option String) (N N' : Nat) (s t : ParserState)
    (hst : Inside delimiters N N' s t) (hname : s.stream.current.kind = .name) (hN : N ≤ k + 1)
    (hN' : N' ≤ k' + 1) :
    Agree (BranchesRead delimiters N N')
      (outcome (readBranches tags (k + 1) line (visibleBody otherwise) enclosing) s)
      (outcome (readBranches tags (k' + 1) line otherwise enclosing) t) := by
  rw [readBranches, readBranches, Grammar.branches, Grammar.branches]
  apply agree_bind (hst.agree_next (by rw [hname]; rfl))
  intro ending s t hst
  split
  · apply agree_bind hst.agree_blockEnd
    intro _ s t hst
    apply agree_body h (by simp) (by simp) hst (by omega) (by omega)
    intro body s t hst hname
    apply (h.readBranches line (some body) enclosing _ _ s t hst hname (by omega) (by omega)).mono
    intro a b hread
    exact ⟨hread.branches, hread.otherwise, hread.inside.mono (by omega) (by omega)⟩
  · split
    · apply agree_bind hst.agree_lastExpression
      intro condition s t hst
      apply agree_body h (by simp) (by simp) hst (by omega) (by omega)
      intro body s t hst hname
      apply agree_bind_of
        (h.readBranches line otherwise enclosing _ _ s t hst hname (by omega) (by omega))
      intro result result' s t hread
      obtain ⟨branches, last⟩ := result
      obtain ⟨branches', last'⟩ := result'
      obtain ⟨rfl, rfl, hst⟩ := hread
      exact .ok ⟨rfl, rfl, hst.mono (by omega) (by omega)⟩
    · split
      · exact .ok ⟨rfl, rfl, hst⟩
      · exact hst.agree_fail _ _

theorem Outside.pos (h : Outside delimiters N N' s t) : 0 < N ∧ 0 < N' := by
  have hN := h.length
  have hN' := h.length'
  simp only [TokenStream.ahead, List.length_cons] at hN hN'
  omega

theorem settled_of_zero (hsteps : k = 0 ∨ k' = 0) : Settled tags delimiters k k' where
  readNodes _ _ N N' s t _ hst hN hN' := by
    have hpos := hst.pos
    omega
  readTag _ _ _ N N' s t hst hN hN' := by omega
  readBranches _ _ _ N N' s t hst _ hN hN' := by
    have hpos := hst.pos
    omega

theorem settled (htag : tags.find? "comment" = some .comment) (k k' : Nat) :
    Settled tags delimiters k k' := by
  induction k' generalizing k with
  | zero => exact settled_of_zero (.inr rfl)
  | succ k' ih =>
    cases k with
    | zero => exact settled_of_zero (.inl rfl)
    | succ k =>
      exact
        { readNodes := readNodes_settled htag ih
          readTag := readTag_settled (ih k)
          readBranches := readBranches_settled (ih k) }

theorem read_eq_map (tags : TagSet) (stream : TokenStream) :
    read tags stream =
      (outcome (readNodes tags (stepLimit stream.after.length) [] none) ⟨stream, []⟩).map
        fun result => ⟨stream.source, result.1⟩ := by
  unfold read outcome
  cases readNodes tags (stepLimit stream.after.length) [] none ⟨stream, []⟩ <;> rfl

/-- From the streams of both treatments of comments a parser that knows their tag fails alike, or
reads documents that differ by hidden comments. -/
theorem read_agree (htag : tags.find? "comment" = some .comment) {dropped kept : TokenStream}
    (h : SameStart delimiters dropped kept) :
    Agree (fun a b => a = b.visible) (read tags dropped) (read tags kept) := by
  have homits := h.omits
  rw [TokenStream.tokens_eq_ahead h.kept_before, TokenStream.tokens_eq_ahead h.dropped_before]
    at homits
  have hstart :
      Outside delimiters dropped.ahead.length kept.ahead.length ⟨dropped, []⟩ ⟨kept, []⟩ :=
    ⟨rfl, h.source, homits, Nat.le_refl _, Nat.le_refl _⟩
  have hsteps : ∀ stream : TokenStream, stream.ahead.length ≤ stepLimit stream.after.length := by
    intro stream
    simp only [stepLimit, TokenStream.ahead, List.length_cons]
    omega
  rw [read_eq_map, read_eq_map]
  apply ((settled htag _ _).readNodes [] none _ _ _ _ (by simp) hstart (hsteps _) (hsteps _)).map
  intro a b hread
  rw [visible, hread.nodes, h.source]

end Document

end TemplateEngine
