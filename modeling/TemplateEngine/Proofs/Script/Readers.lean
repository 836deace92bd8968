import TemplateEngine.Json.Reader
import TemplateEngine.Proofs.Decimal.Natural
import TemplateEngine.Script.Literal

/-!
Readers of scripts, put together from readers of fixed texts, string literals and natural numbers.
Main statements: a choice between openings of which none is the beginning of another takes the form
that is in front, and a string literal is read as the text that it stands for.
-/

namespace TemplateEngine.Script

abbrev Reader (α : Type) :=
  StateT (List Char) Option α

section

variable {α β : Type} {front more : String} {a : α} {b : β}

/-- The reader takes exactly this text off the front, and gives the value. -/
def Takes (reader : Reader α) (front : String) (a : α) : Prop :=
  ∀ behind, reader.run (front.toList ++ behind) = some (a, behind)

def Refuses (reader : Reader α) (front : String) : Prop :=
  ∀ behind, reader.run (front.toList ++ behind) = none

theorem takes_pure (a : α) : Takes (pure a) "" a :=
  fun _ => rfl

theorem Takes.bind {reader : Reader α} {f : α → Reader β} (h : Takes reader front a)
    (hf : Takes (f a) more b) : Takes (reader >>= f) (front ++ more) b := by
  intro behind
  rw [StateT.run_bind, String.toList_append, List.append_assoc, h, Option.bind_eq_bind,
    Option.bind_some]
  exact hf behind

theorem Takes.map {reader : Reader α} (h : Takes reader front a) (f : α → β) :
    Takes (do return f (← reader)) front (f a) := by
  have := h.bind (f := fun a => pure (f a)) (takes_pure (f a))
  rwa [String.append_empty] at this

theorem Refuses.bind {reader : Reader α} (h : Refuses reader front) (f : α → Reader β) :
    Refuses (reader >>= f) front := by
  intro behind
  rw [StateT.run_bind, h]
  rfl

theorem Takes.bind_refuses {reader : Reader α} {f : α → Reader β} (h : Takes reader front a)
    (hf : Refuses (f a) more) : Refuses (reader >>= f) (front ++ more) := by
  intro behind
  rw [StateT.run_bind, String.toList_append, List.append_assoc, h, Option.bind_eq_bind,
    Option.bind_some]
  exact hf behind

theorem Refuses.append {reader : Reader α} (h : Refuses reader front) (more : String) :
    Refuses reader (front ++ more) := by
  intro behind
  rw [String.toList_append, List.append_assoc]
  exact h _

theorem Takes.orElse {reader : Reader α} (h : Takes reader front a) (other : Reader α) :
    Takes (reader <|> other) front a := by
  intro behind
  show (reader.run _ <|> other.run _) = _
  rw [h]
  rfl

theorem Refuses.orElse {reader other : Reader α} (h : Refuses reader front)
    (hother : Takes other front a) : Takes (reader <|> other) front a := by
  intro behind
  show (reader.run _ <|> other.run _) = _
  rw [h, hother]
  rfl

theorem Refuses.orElse_refuses {reader other : Reader α} (h : Refuses reader front)
    (hother : Refuses other front) : Refuses (reader <|> other) front := by
  intro behind
  show (reader.run _ <|> other.run _) = _
  rw [h, hother]
  rfl

def EndsNumber (text : String) : Bool :=
  text.toList.head?.any fun c => !c.isDigit

theorem endsNumber_iff {text : String} :
    EndsNumber text = true ↔ ∃ c cs, text.toList = c :: cs ∧ ¬ c.isDigit = true := by
  unfold EndsNumber
  cases text.toList <;> simp

theorem EndsNumber.append {text : String} (h : EndsNumber text = true) (more : String) :
    EndsNumber (text ++ more) = true := by
  obtain ⟨c, cs, hchars, hc⟩ := endsNumber_iff.1 h
  exact endsNumber_iff.2 ⟨c, cs ++ more.toList, by rw [String.toList_append, hchars]; rfl, hc⟩

/-- The reader takes exactly this text off the front where no digit is behind it. -/
def TakesOperand (reader : Reader α) (front : String) (a : α) : Prop :=
  ∀ behind, (behind.head?.all fun c => !c.isDigit) = true →
    reader.run (front.toList ++ behind) = some (a, behind)

theorem Takes.toOperand {reader : Reader α} (h : Takes reader front a) :
    TakesOperand reader front a :=
  fun behind _ => h behind

theorem TakesOperand.bind {reader : Reader α} {f : α → Reader β} (h : TakesOperand reader front a)
    (hf : Takes (f a) more b) (hmore : EndsNumber more = true) :
    Takes (reader >>= f) (front ++ more) b := by
  intro behind
  obtain ⟨c, cs, hchars, hc⟩ := endsNumber_iff.1 hmore
  have hstop : ((more.toList ++ behind).head?.all fun c => !c.isDigit) = true := by
    simpa [hchars] using hc
  rw [StateT.run_bind, String.toList_append, List.append_assoc, h _ hstop, Option.bind_eq_bind,
    Option.bind_some]
  exact hf behind

end

def Apart (text other : String) : Bool :=
  !text.toList.isPrefixOf other.toList && !other.toList.isPrefixOf text.toList

def skip (text : String) : Reader Unit := fun cs =>
  if text.toList.isPrefixOf cs then some ((), cs.drop text.toList.length) else none

theorem takes_skip (text : String) : Takes (skip text) text () := by
  intro behind
  show (if _ then _ else _) = _
  rw [if_pos (List.isPrefixOf_iff_prefix.2 (List.prefix_append _ _)), List.drop_left]

theorem refuses_skip {text front : String} (h : Apart text front = true) :
    Refuses (skip text) front := by
  intro behind
  simp only [Apart, Bool.and_eq_true, Bool.not_eq_true', ← Bool.not_eq_true,
    List.isPrefixOf_iff_prefix] at h
  show (if _ then _ else _) = _
  rw [if_neg]
  intro hprefix
  rw [List.isPrefixOf_iff_prefix] at hprefix
  rcases List.prefix_or_prefix_of_prefix hprefix (List.prefix_append front.toList behind) with
    hle | hle
  · exact h.1 hle
  · exact h.2 hle

section

variable {α : Type} {front : String} {a : α}

def firstOf : List (String × Reader α) → Reader α
  | [] => failure
  | (opening, reader) :: forms => (do skip opening; reader) <|> firstOf forms

theorem refuses_firstOf {forms : List (String × Reader α)}
    (h : ∀ opening ∈ forms.map Prod.fst, Apart opening front = true) :
    Refuses (firstOf forms) front := by
  induction forms with
  | nil => exact fun _ => rfl
  | cons form forms ih =>
    obtain ⟨hform, hforms⟩ := List.forall_mem_cons.1 h
    exact ((refuses_skip hform).bind _).orElse_refuses (ih hforms)

/-- The opening in front chooses the reader, as no opening begins with another. -/
theorem takes_firstOf {forms : List (String × Reader α)} {opening : String} {reader : Reader α}
    (hforms : (forms.map Prod.fst).Pairwise fun text other => Apart text other = true)
    (hmem : (opening, reader) ∈ forms) (h : Takes reader front a) :
    Takes (firstOf forms) (opening ++ front) a := by
  induction forms with
  | nil => cases hmem
  | cons form forms ih =>
    rw [List.map_cons, List.pairwise_cons] at hforms
    rcases List.mem_cons.1 hmem with rfl | hmem
    · exact ((takes_skip opening).bind h).orElse _
    · have hapart := hforms.1 opening (List.mem_map_of_mem hmem)
      exact (((refuses_skip hapart).append _).bind _).orElse (ih hforms.2 hmem)

end

def escape? : Char → Option Char
  | '\\' => some '\\'
  | '\'' => some '\''
  | 'n' => some '\n'
  | 'r' => some '\r'
  | 't' => some '\t'
  | _ => none

/-- Reads the inside of a string literal up to its closing quote. A line end cannot stand in it as
it is. -/
def literalRest : List Char → Option (List Char × List Char)
  | [] => none
  | '\'' :: cs => some ([], cs)
  | '\\' :: 'u' :: a :: b :: c :: d :: cs =>
    (Json.hexValue? a b c d).bind fun value => Json.consChar (Char.ofNat value) (literalRest cs)
  | '\\' :: c :: cs => (escape? c).bind fun c => Json.consChar c (literalRest cs)
  | c :: cs => if isLineEnd c then none else Json.consChar c (literalRest cs)

theorem literalRest_literalChar (c : Char) (cs : List Char) :
    literalRest (literalChar c ++ cs) = Json.consChar c (literalRest cs) := by
  unfold literalChar
  split <;> try rfl
  next hslash hquote hnewline hreturn _ hline hparagraph =>
    have hend : isLineEnd c = false := by
      simp only [isLineEnd, Bool.or_eq_false_iff, beq_eq_false_iff_ne]
      exact ⟨⟨⟨hnewline, hreturn⟩, hline⟩, hparagraph⟩
    rw [List.singleton_append, literalRest, if_neg (by simp [hend])]
    · exact hquote
    · intro _ _ _ _ _ h
      exact absurd h hslash
    · intro _ _ h
      exact absurd h hslash

theorem literalRest_flatMap (text behind : List Char) :
    literalRest (text.flatMap literalChar ++ '\'' :: behind) = some (text, behind) := by
  induction text with
  | nil => rfl
  | cons c text ih =>
    rw [List.flatMap_cons, List.append_assoc, literalRest_literalChar, ih]
    rfl

def literalTail (text : String) : String :=
  String.ofList (text.toList.flatMap literalChar ++ ['\''])

theorem literal_eq (text : String) : literal text = "'" ++ literalTail text := by
  rw [← String.toList_inj, String.toList_append, literalTail, literal, String.toList_ofList,
    String.toList_ofList, String.toList_ofList]
  rfl

def literalText : Reader String := fun cs =>
  (literalRest cs).map fun (text, behind) => (String.ofList text, behind)

theorem takes_literalText (text : String) : Takes literalText (literalTail text) text := by
  intro behind
  show (literalRest _).map _ = _
  rw [literalTail, String.toList_ofList, List.append_assoc]
  show (literalRest (_ ++ '\'' :: behind)).map _ = _
  rw [literalRest_flatMap, Option.map_some]
  show some (String.ofList text.toList, _) = _
  rw [String.ofList_toList]

def natural : Reader Nat := fun cs =>
  match cs.takeWhile Char.isDigit with
  | [] => none
  | digits => some (Nat.ofDigitChars 10 digits 0, cs.dropWhile Char.isDigit)

theorem takesOperand_natural (n : Nat) :
    TakesOperand natural (String.ofList (Nat.toDigits 10 n)) n := by
  intro behind hbehind
  rw [String.toList_ofList]
  obtain ⟨c, cs, hdigits, hall⟩ := Decimal.toDigits_eq_cons n
  have hstop : behind.takeWhile Char.isDigit = [] ∧ behind.dropWhile Char.isDigit = behind := by
    cases behind with
    | nil => exact ⟨rfl, rfl⟩
    | cons d _ =>
      have hd : ¬ d.isDigit = true := by simpa using hbehind
      exact ⟨List.takeWhile_cons_of_neg hd, List.dropWhile_cons_of_neg hd⟩
  have htake : (Nat.toDigits 10 n ++ behind).takeWhile Char.isDigit = c :: cs := by
    rw [hdigits, List.takeWhile_append_of_pos hall, hstop.1, List.append_nil]
  have hdrop : (Nat.toDigits 10 n ++ behind).dropWhile Char.isDigit = behind := by
    rw [hdigits, List.dropWhile_append_of_pos hall, hstop.2]
  show (match (Nat.toDigits 10 n ++ behind).takeWhile Char.isDigit with | [] => _ | _ => _) = _
  rw [htake, hdrop]
  show some (Nat.ofDigitChars 10 (c :: cs) 0, behind) = _
  rw [← hdigits, Nat.ofDigitChars_ten_toDigits]

theorem refuses_natural {front : String} (h : EndsNumber front = true) : Refuses natural front := by
  intro behind
  obtain ⟨c, cs, hchars, hc⟩ := endsNumber_iff.1 h
  show (match (front.toList ++ behind).takeWhile Char.isDigit with | [] => _ | _ => _) = _
  rw [hchars, List.cons_append, List.takeWhile_cons_of_neg hc]

end TemplateEngine.Script
