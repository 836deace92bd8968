import TemplateEngine.Json.Value
import TemplateEngine.Proofs.Decimal.Bits

/-!
Equality of JSON values by structure. Main statements: it is symmetric and transitive, and every
value of which all doubles are finite is equal to itself.
-/

namespace TemplateEngine.Json

mutual

/-- A value in which all doubles are finite, as they are in JSON. -/
def Finite : Json → Prop
  | float x => x.isFinite = true
  | array items => FiniteItems items
  | object fields => FiniteFields fields
  | _ => True

def FiniteItems : List Json → Prop
  | [] => True
  | item :: items => Finite item ∧ FiniteItems items

def FiniteFields : List (String × Json) → Prop
  | [] => True
  | (_, value) :: fields => Finite value ∧ FiniteFields fields

end

mutual

theorem same_refl : (a : Json) → a.Finite → a.same a = true
  | null, _ => by simp only [same]
  | bool b, _ => by simp only [same, beq_self_eq_true]
  | int n, _ => by simp only [same, beq_self_eq_true]
  | float x, h => by
    rw [Finite] at h
    rw [same, Float.beq_self_iff]
    rintro rfl
    cases h
  | string s, _ => by simp only [same, beq_self_eq_true]
  | array items, h => by
    rw [Finite] at h
    rw [same, sameItems_refl items h]
  | object fields, h => by
    rw [Finite] at h
    rw [same, sameFields_refl fields h]

theorem sameItems_refl : (as : List Json) → FiniteItems as → sameItems as as = true
  | [], _ => by simp only [sameItems]
  | a :: as, h => by
    rw [FiniteItems] at h
    rw [sameItems, same_refl a h.1, sameItems_refl as h.2, Bool.and_self]

theorem sameFields_refl : (fs : List (String × Json)) → FiniteFields fs → sameFields fs fs = true
  | [], _ => by simp only [sameFields]
  | (name, value) :: fs, h => by
    rw [FiniteFields] at h
    rw [sameFields, beq_self_eq_true, same_refl value h.1, sameFields_refl fs h.2, Bool.and_self,
      Bool.and_self]

end

mutual

theorem same_comm : (a b : Json) → a.same b = b.same a
  | null, b => by cases b <;> simp only [same]
  | bool _, b | int _, b | float _, b | string _, b => by
    cases b <;> simp only [same]
    exact BEq.comm
  | array as, b => by
    cases b <;> simp only [same]
    exact sameItems_comm as _
  | object as, b => by
    cases b <;> simp only [same]
    exact sameFields_comm as _

theorem sameItems_comm : (as bs : List Json) → sameItems as bs = sameItems bs as
  | [], bs => by cases bs <;> simp only [sameItems]
  | a :: as, [] => by simp only [sameItems]
  | a :: as, b :: bs => by simp only [sameItems, same_comm a b, sameItems_comm as bs]

theorem sameFields_comm : (as bs : List (String × Json)) → sameFields as bs = sameFields bs as
  | [], bs => by cases bs <;> simp only [sameFields]
  | _ :: _, [] => by simp only [sameFields]
  | (m, a) :: as, (n, b) :: bs => by
    have hname : (m == n) = (n == m) := BEq.comm
    simp only [sameFields, same_comm a b, sameFields_comm as bs, hname]

end

mutual

theorem same_trans : (a : Json) → {b c : Json} → a.same b = true → b.same c = true →
    a.same c = true
  | null, b, c, hab, hbc => by
    cases b <;> simp only [same, reduceCtorEq] at hab
    exact hbc
  | bool _, b, c, hab, hbc | int _, b, c, hab, hbc | float _, b, c, hab, hbc
  | string _, b, c, hab, hbc => by
    cases b <;> simp only [same, reduceCtorEq] at hab
    cases c <;> simp only [same, reduceCtorEq] at hbc
    rw [same]
    exact BEq.trans hab hbc
  | array as, b, c, hab, hbc => by
    cases b <;> simp only [same, reduceCtorEq] at hab
    cases c <;> simp only [same, reduceCtorEq] at hbc
    rw [same]
    exact sameItems_trans as hab hbc
  | object as, b, c, hab, hbc => by
    cases b <;> simp only [same, reduceCtorEq] at hab
    cases c <;> simp only [same, reduceCtorEq] at hbc
    rw [same]
    exact sameFields_trans as hab hbc

theorem sameItems_trans : (as : List Json) → {bs cs : List Json} → sameItems as bs = true →
    sameItems bs cs = true → sameItems as cs = true
  | [], bs, cs, hab, hbc => by
    cases bs with
    | nil => exact hbc
    | cons b bs => simp only [sameItems, reduceCtorEq] at hab
  | a :: as, bs, cs, hab, hbc => by
    cases bs with
    | nil => simp only [sameItems, reduceCtorEq] at hab
    | cons b bs =>
      cases cs with
      | nil => simp only [sameItems, reduceCtorEq] at hbc
      | cons c cs =>
        rw [sameItems, Bool.and_eq_true] at hab hbc ⊢
        exact ⟨same_trans a hab.1 hbc.1, sameItems_trans as hab.2 hbc.2⟩

theorem sameFields_trans : (as : List (String × Json)) → {bs cs : List (String × Json)} →
    sameFields as bs = true → sameFields bs cs = true → sameFields as cs = true
  | [], bs, cs, hab, hbc => by
    cases bs with
    | nil => exact hbc
    | cons b bs => simp only [sameFields, reduceCtorEq] at hab
  | (l, a) :: as, bs, cs, hab, hbc => by
    cases bs with
    | nil => simp only [sameFields, reduceCtorEq] at hab
    | cons b bs =>
      cases cs with
      | nil => simp only [sameFields, reduceCtorEq] at hbc
      | cons c cs =>
        rw [sameFields, Bool.and_eq_true, Bool.and_eq_true] at hab hbc ⊢
        exact ⟨⟨BEq.trans hab.1.1 hbc.1.1, same_trans a hab.1.2 hbc.1.2⟩,
          sameFields_trans as hab.2 hbc.2⟩

end

end TemplateEngine.Json
