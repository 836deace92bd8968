import TemplateEngine.Proofs.Json.Equality
import TemplateEngine.Proofs.Render.Keys

/-!
Values that count as equal. Main statement: on JSON values, of which all doubles are finite, the
equality of templates is an equivalence relation.
-/

namespace TemplateEngine.Render

open Decimal

variable {a b c : Json}

/-- Numbers and texts are equal if their texts are. -/
theorem looseEq_iff_of_isKey (ha : IsKey a) (hb : IsKey b) (hafinite : a.Finite)
    (hbfinite : b.Finite) : looseEq a b = true ↔ toText a = toText b := by
  have hnumber {x : Float} (h : (Json.float x).Finite) : x.isNaN = false := by
    rw [Json.Finite] at h
    exact (not_isNaN_of_isFinite h).1
  cases ha with
  | int m =>
    cases hb with
    | int n => exact (plainText_eq_iff (isNaN_ofInteger m) (isNaN_ofInteger n)).symm
    | float y => exact (plainText_eq_iff (isNaN_ofInteger m) (hnumber hbfinite)).symm
    | string t => exact beq_iff_eq
  | float x =>
    cases hb with
    | int n => exact (plainText_eq_iff (hnumber hafinite) (isNaN_ofInteger n)).symm
    | float y => exact (plainText_eq_iff (hnumber hafinite) (hnumber hbfinite)).symm
    | string t => exact beq_iff_eq
  | string s => cases hb <;> exact beq_iff_eq

/-- Values that are neither numbers nor texts are compared by structure. -/
theorem looseEq_of_not_isKey (h : ¬ IsKey a) : looseEq a b = a.same b := by
  cases a with
  | int n => exact absurd (.int n) h
  | float x => exact absurd (.float x) h
  | string s => exact absurd (.string s) h
  | null | bool | array | object => cases b <;> simp only [looseEq, double?, Json.same]

theorem not_looseEq_of_isKey (ha : IsKey a) (hb : ¬ IsKey b) :
    looseEq a b = false ∧ looseEq b a = false := by
  rw [looseEq_of_not_isKey hb]
  cases b with
  | int n => exact absurd (.int n) hb
  | float x => exact absurd (.float x) hb
  | string s => exact absurd (.string s) hb
  | null | bool | array | object =>
    cases ha <;> simp only [looseEq, double?, Json.same, and_self]

/-- Numbers and texts are compared by their texts, other values by structure, and none of the ones
with any of the others. -/
theorem looseEq_iff (ha : a.Finite) (hb : b.Finite) :
    looseEq a b = true ↔
      IsKey a ∧ IsKey b ∧ toText a = toText b ∨ ¬ IsKey a ∧ ¬ IsKey b ∧ a.same b = true := by
  by_cases hka : IsKey a <;> by_cases hkb : IsKey b
  · rw [looseEq_iff_of_isKey hka hkb ha hb]
    tauto
  · rw [(not_looseEq_of_isKey hka hkb).1]
    tauto
  · rw [(not_looseEq_of_isKey hkb hka).2]
    tauto
  · rw [looseEq_of_not_isKey hka]
    tauto

/-- On JSON values the equality of templates is an equivalence relation. -/
theorem looseEq_equivalence :
    Equivalence fun a b : { value : Json // value.Finite } => looseEq a.1 b.1 = true where
  refl a := by
    rw [looseEq_iff a.2 a.2]
    by_cases hkey : IsKey a.1
    · exact .inl ⟨hkey, hkey, rfl⟩
    · exact .inr ⟨hkey, hkey, Json.same_refl a.1 a.2⟩
  symm := by
    intro a b h
    rw [looseEq_iff b.2 a.2]
    rcases (looseEq_iff a.2 b.2).1 h with ⟨ha, hb, htext⟩ | ⟨ha, hb, hsame⟩
    · exact .inl ⟨hb, ha, htext.symm⟩
    · exact .inr ⟨hb, ha, Json.same_comm a.1 b.1 ▸ hsame⟩
  trans := by
    intro a b c hab hbc
    rw [looseEq_iff a.2 c.2]
    rcases (looseEq_iff a.2 b.2).1 hab with ⟨ha, hb, htext⟩ | ⟨ha, hb, hsame⟩ <;>
      rcases (looseEq_iff b.2 c.2).1 hbc with ⟨hb', hc, htext'⟩ | ⟨hb', hc, hsame'⟩
    · exact .inl ⟨ha, hc, htext.trans htext'⟩
    · exact absurd hb hb'
    · exact absurd hb' hb
    · exact .inr ⟨ha, hc, Json.same_trans a.1 hsame hsame'⟩

/-- A text, an integer and a double. -/
example :
    looseEq (.string "1") (.int 1) && looseEq (.int 1) (.float 1.0) &&
      looseEq (.string "1") (.float 1.0) = true := by rfl

end TemplateEngine.Render
