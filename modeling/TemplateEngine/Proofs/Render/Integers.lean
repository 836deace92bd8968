import TemplateEngine.Proofs.Decimal.Integers
import TemplateEngine.Proofs.Render.Printing

/-!
How integers are printed. Main statement: a page shows an integer with its own digits exactly if no
rounder one shares its double, while an array shows all of them.
-/

namespace TemplateEngine.Render

open Decimal

variable {options : Options}

theorem isPlainChar_of_isDigit {c : Char} (h : c.isDigit = true) : IsPlainChar c := by
  refine ⟨?_, ?_, ?_, ?_, ?_⟩ <;> rintro rfl <;> exact absurd h (by decide)

theorem noMarkup_withSign {negative : Bool} {cs : List Char} (h : ∀ c ∈ cs, c.isDigit = true) :
    NoMarkup (withSign negative cs) := by
  have hplain : ∀ c ∈ cs, IsPlainChar c := fun c hc => isPlainChar_of_isDigit (h c hc)
  unfold withSign NoMarkup
  rw [String.toList_ofList]
  split
  · rw [List.forall_mem_cons]
    exact ⟨by simp [IsPlainChar], hplain⟩
  · exact hplain

theorem noMarkup_integerText (n : Int) : NoMarkup (integerText n) := by
  rw [integerText_eq_withSign]
  exact noMarkup_withSign fun _ => isDigit_of_mem_digitChars

/-- The value of a name of the context. -/
theorem eval_name_root {context value : Json} {name : String}
    (h : (rootScope context).lookup name = some value) (line : Nat) :
    eval options [rootScope context] (.name line name) = .ok (plain value) := by
  simp [eval, find?, h]

theorem noMarkup_bracketed {text : String} (h : NoMarkup text) :
    NoMarkup ("[" ++ text ++ "]") := by
  rw [noMarkup_append, noMarkup_append]
  exact ⟨⟨by simp [NoMarkup, IsPlainChar], h⟩, by simp [NoMarkup, IsPlainChar]⟩

/-- An integer of 64 bits, with or without a sign, is printed with its own digits exactly if it is
the roundest of those that share its double, as it is below `2 ^ 53`. In an array it always is. -/
theorem ofDocument_print_integer_iff (options : Options) (template : String)
    (line line' line'' : Nat) {name : String} {context : Json} {n : Int} (hlow : -2 ^ 63 ≤ n)
    (hhigh : n < 2 ^ 64) (hname : (rootScope context).lookup name = some (.int n)) :
    (ofDocument options ⟨template, [.print line (.name line' name)]⟩ context =
        .ok (integerText n) ↔ IsRoundest n.natAbs) ∧
      (n.natAbs < 2 ^ 53 → IsRoundest n.natAbs) ∧
      ofDocument options ⟨template, [.print line (.array line' [.name line'' name])]⟩ context =
        .ok ("[" ++ integerText n ++ "]") := by
  have hn : n.natAbs < 2 ^ 64 := by omega
  have hvalue : eval options [rootScope context] (.name line' name) = .ok (plain (.int n)) :=
    eval_name_root hname line'
  refine ⟨?_, isRoundest_of_lt, ?_⟩
  · have hplain : NoMarkup (toText (.int n)) := by
      obtain ⟨k, -, -, htext⟩ := exists_plainText_ofInteger hn
      show NoMarkup (plainText (ofInteger n))
      rw [htext]
      exact noMarkup_withSign fun _ => isDigit_of_mem_digitChars
    rw [ofDocument_print hvalue, printText_plain hplain, Except.ok.injEq]
    exact plainText_ofInteger_iff hn
  · have harray : eval options [rootScope context] (.array line' [.name line'' name]) =
        .ok (plain (.array [.int n])) := by
      simp [eval, evalAll, find?, hname, bind, Except.bind, pure, Except.pure, plain]
    have htext : toText (.array [.int n]) = "[" ++ integerText n ++ "]" := by
      simp [toText, Json.toText, Json.itemTexts]
    have hplain : NoMarkup (toText (.array [.int n])) := by
      rw [htext]
      exact noMarkup_bracketed (noMarkup_integerText n)
    rw [ofDocument_print harray, printText_plain hplain]
    exact congrArg Except.ok htext

/-- The largest integer of 64 bits that ends on five zeros, and the context it stands in. -/
theorem ofDocument_print_integer_iff_largest :
    ∃ (context : Json) (n : Int), -2 ^ 63 ≤ n ∧ n < 2 ^ 64 ∧
      (rootScope context).lookup "n" = some (.int n) ∧
      (ofDocument {} ⟨"page", [.print 1 (.name 1 "n")]⟩ context =
          .ok (integerText n) ↔ IsRoundest n.natAbs) ∧
      (n.natAbs < 2 ^ 53 → IsRoundest n.natAbs) ∧
      ofDocument {} ⟨"page", [.print 1 (.array 1 [.name 1 "n"])]⟩ context =
        .ok ("[" ++ integerText n ++ "]") := by
  refine ⟨.object [("n", .int 18446744073709500000)], 18446744073709500000, by decide, by decide,
    rfl, ?_⟩
  exact ofDocument_print_integer_iff {} "page" 1 1 1 (by decide) (by decide) rfl

/-- The least positive integer that no double is equal to is printed as the one below it, and with
its own digits in an array. -/
theorem ofDocument_print_integer_lost :
    ofDocument {} ⟨"page", [.print 1 (.name 1 "n")]⟩ (.object [("n", .int 9007199254740993)]) =
        .ok "9007199254740992" ∧
      ofDocument {} ⟨"page", [.print 1 (.array 1 [.name 1 "n"])]⟩
        (.object [("n", .int 9007199254740993)]) = .ok "[9007199254740993]" := by
  constructor
  · rfl
  · rfl

end TemplateEngine.Render
