import TemplateEngine.Proofs.Tokens

/-!
The lines of a template: the faults that are found on them, the tokens that stand on them, and
reading from such tokens.
-/

namespace TemplateEngine

def IsLine (last line : Nat) : Prop :=
  1 ≤ line ∧ line ≤ last

structure FaultAt (last : Nat) (fault : SyntaxFault) (line : Nat) : Prop where
  line : IsLine last line
  fault : fault ≠ .outOfSteps

def SyntaxError.IsIn (last : Nat) (e : SyntaxError) : Prop :=
  FaultAt last e.fault e.line

/-- Every one of these tokens stands on one of the lines of a template that has `last` lines. -/
def OnLines (last : Nat) (tokens : List Token) : Prop :=
  ∀ t ∈ tokens, IsLine last t.line

namespace OnLines

variable {last : Nat} {t : Token} {tokens more : List Token}

theorem nil : OnLines last [] := by
  intro t ht
  simp at ht

theorem singleton (h : IsLine last t.line) : OnLines last [t] := by
  intro u hu
  rw [List.mem_singleton.1 hu]
  exact h

theorem append (h : OnLines last tokens) (hmore : OnLines last more) :
    OnLines last (tokens ++ more) := by
  intro t ht
  rcases List.mem_append.1 ht with ht | ht
  · exact h t ht
  · exact hmore t ht

end OnLines

abbrev GivesIn {σ α : Type} (last : Nat) (reader : EStateM SyntaxError σ α) (s : σ)
    (P : α → σ → Prop) : Prop :=
  Gives (SyntaxError.IsIn last) reader s P

structure TokenStream.InLines (last n : Nat) (s : TokenStream) : Prop where
  ahead : OnLines last s.ahead
  length : s.after.length ≤ n

namespace TokenStream.InLines

open TokenReader

variable {last m n : Nat} {s : TokenStream} {α : Type} {Q : α → TokenStream → Prop}

theorem current (h : s.InLines last n) : IsLine last s.current.line :=
  h.ahead s.current List.mem_cons_self

theorem mono (h : s.InLines last m) (hmn : m ≤ n) : s.InLines last n :=
  ⟨h.ahead, Nat.le_trans h.length hmn⟩

/-- A token at a line of the template has been taken, and at most `n` others were ahead. -/
def Taken (last n : Nat) (token : Token) (s : TokenStream) : Prop :=
  IsLine last token.line ∧ 0 < n ∧ s.InLines last (n - 1)

/-- What holds of a stream is known where its current token is taken. -/
theorem past (h : s.InLines last n) {token : Token} {t : TokenStream} (ht : s.Past token t) :
    Taken last n token t := by
  obtain ⟨rfl, hahead⟩ := ht
  have hafter : s.after = t.ahead := (List.cons.inj hahead).2
  have hlength := h.length
  rw [hafter, TokenStream.ahead, List.length_cons] at hlength
  refine ⟨h.current, by omega, fun u hu => h.ahead u ?_, by omega⟩
  rw [hahead]
  exact List.mem_cons_of_mem _ hu

theorem gives_fail (s : TokenStream) {fault : SyntaxFault} {line : Nat}
    (h : FaultAt last fault line) : GivesIn last (fail fault line) s Q :=
  .error h

theorem gives_test {kind : TokenKind} {value? : Option String} {f : Bool → TokenReader α}
    (hf : ∀ found, GivesIn last (f found) s Q) :
    GivesIn last (TokenReader.test kind value? >>= f) s Q :=
  hf _

theorem gives_next (h : s.InLines last n) : GivesIn last next s (Taken last n) :=
  (TokenReader.gives_next ⟨h.current, by simp [error]⟩).mono fun _ _ ht => h.past ht

theorem gives_expect (h : s.InLines last n) (kind : TokenKind) (value? : Option String) :
    GivesIn last (expect kind value?) s (Taken last n) :=
  (TokenReader.gives_expect ⟨h.current, by simp [error]⟩ ⟨h.current, by simp [error]⟩).mono
    fun _ _ ht => h.past ht.1

/-- The token that is looked for is taken, or nothing is. -/
theorem gives_nextIf (h : s.InLines last n) (kind : TokenKind) (value? : Option String) :
    GivesIn last (nextIf kind value?) s fun token? t =>
      match token? with
      | some token => Taken last n token t
      | none => t.InLines last n := by
  apply (TokenReader.gives_nextIf s kind value?).mono
  rintro (_ | token) t ht
  · rw [ht.1]
    exact h
  · exact h.past ht.1

end TokenStream.InLines

end TemplateEngine
