import TemplateEngine.Proofs.Decimal.Integers
import TemplateEngine.Render

/-!
Keys that count as equal. Main statement: an object gives the same part for them, and an array does
so unless just one of the two is written as a double and the other one finds an item.
-/

namespace TemplateEngine.Render

open Decimal

def place? (digits : List Char) : Option Nat :=
  if digits.isEmpty || !digits.all Char.isDigit then none
  else if digitsValue 0 digits < 2 ^ 64 then some (digitsValue 0 digits) else none

theorem place?_eq_some_iff {digits : List Char} {i : Nat} :
    place? digits = some i ↔
      digits ≠ [] ∧ (∀ c ∈ digits, c.isDigit = true) ∧ digitsValue 0 digits = i ∧ i < 2 ^ 64 := by
  have hdigits : (digits.isEmpty || !digits.all Char.isDigit) = true ↔
      ¬ (digits ≠ [] ∧ ∀ c ∈ digits, c.isDigit = true) := by
    rw [Bool.or_eq_true, List.isEmpty_iff, Bool.not_eq_true', ← Bool.not_eq_true, List.all_eq_true]
    tauto
  unfold place?
  split_ifs with h hsize
  · rw [hdigits] at h
    simp only [false_iff]
    tauto
  · rw [hdigits, not_not] at h
    rw [Option.some.injEq]
    constructor
    · rintro rfl
      exact ⟨h.1, h.2, rfl, hsize⟩
    · exact fun h => h.2.2.1
  · simp only [false_iff]
    rintro ⟨-, -, rfl, hlt⟩
    exact hsize hlt

/-- Digits may stand behind a plus. -/
theorem index?_eq_place? (text : String) :
    ∃ digits, index? text = place? digits ∧
      (text.toList = digits ∨ text.toList = '+' :: digits) := by
  unfold index?
  cases text.toList with
  | nil => exact ⟨[], rfl, .inl rfl⟩
  | cons c cs =>
    by_cases hc : c = '+'
    · subst hc
      exact ⟨cs, rfl, .inr rfl⟩
    · exact ⟨c :: cs, by simp [place?, power_eq, hc], .inl rfl⟩

theorem index?_digitChars {i : Nat} (hi : i < 2 ^ 64) :
    index? (String.ofList (digitChars i)) = some i := by
  obtain ⟨c, more, hcs, hc⟩ := exists_cons_digitChars i
  obtain ⟨digits, hindex, htext | htext⟩ := index?_eq_place? (String.ofList (digitChars i)) <;>
    rw [String.toList_ofList] at htext
  · rw [hindex, ← htext, place?_eq_some_iff]
    refine ⟨by simp [hcs], fun _ => isDigit_of_mem_digitChars, digitsValue_digitChars i, hi⟩
  · rw [hcs] at htext
    obtain ⟨rfl, -⟩ := List.cons.inj htext
    exact absurd hc (by decide)

theorem plainText_of_isNaN {x : Float} (h : x.isNaN = true) : plainText x = "NaN" := by
  rw [Float.isNaN_eq_decide_eq_nan, decide_eq_true_iff] at h
  subst h
  rfl

theorem not_ofInteger_lt_zero {i : Nat} (hi : i < 2 ^ 53) : ¬ ofInteger i < 0 := by
  have hsmall : (i : Int).natAbs < 2 ^ 100 := by omega
  rcases sign_of_isFinite (isFinite_ofInteger_of_lt hsmall) with ⟨-, -, hsign⟩ | ⟨-, hsign⟩
  · exact hsign
  · rw [hsign, ofFloat_ofInteger_eq i hsmall, sign_natCast]
    exact Bool.false_ne_true

/-- The text of a double is only a place if the double is the number of this place. -/
theorem beq_of_index?_plainText {x : Float} {i : Nat} (hi : i < 2 ^ 53)
    (h : index? (plainText x) = some i) : (x == ofInteger i) = true := by
  obtain ⟨c, more, hhead, hc⟩ := beginsSigned_plainText x
  obtain ⟨digits, hindex, htext⟩ := index?_eq_place? (plainText x)
  rw [hindex, place?_eq_some_iff] at h
  obtain ⟨hne, hdigits, hvalue, -⟩ := h
  obtain rfl : digits = c :: more := by
    rcases htext with htext | htext
    · exact htext.symm.trans hhead
    · obtain ⟨rfl, -⟩ := List.cons.inj (hhead.symm.trans htext)
      rcases hc with ⟨-, hc⟩ | ⟨-, hc⟩ <;> exact absurd hc (by decide)
  have hdigit := hdigits c (.head _)
  have hsign : ¬ x < 0 := by
    rcases hc with ⟨-, rfl⟩ | ⟨hsign, -⟩
    · exact absurd hdigit (by decide)
    · exact hsign
  have hnan : x.isNaN = false := by
    by_contra hnan
    rw [plainText_of_isNaN (Bool.eq_true_of_not_eq_false hnan)] at hhead
    obtain ⟨rfl, -⟩ := List.cons.inj hhead
    exact absurd hdigit (by decide)
  obtain ⟨cs, hcs, hunsigned⟩ := exists_unsigned hnan
  rw [if_neg hsign] at hcs
  rw [hcs, String.toList_ofList] at hhead
  subst hhead
  cases hunsigned with
  | infinity _ => exact absurd hdigit (by decide)
  | digits hfinite _ hhas =>
    rw [decimalValue_whole hdigits, hvalue] at hhas
    exact beq_of_has hfinite (isFinite_ofInteger hi) hhas (has_ofInteger (hi.trans (by decide)))
      (iff_of_false hsign (not_ofInteger_lt_zero hi))

theorem index?_plainText_ofInteger_iff {n : Int} {i : Nat} (hi : i < 2 ^ 53) :
    index? (plainText (ofInteger n)) = some i ↔ n = i := by
  constructor
  · exact fun h => eq_of_ofInteger_beq hi (beq_of_index?_plainText hi h)
  · rintro rfl
    have hround : IsRoundest (i : Int).natAbs := isRoundest_of_lt (by omega)
    rw [(plainText_ofInteger_iff (by omega)).2 hround]
    exact index?_digitChars (by omega)

inductive IsKey : Json → Prop where
  | int (n : Int) : IsKey (.int n)
  | float (x : Float) : IsKey (.float x)
  | string (s : String) : IsKey (.string s)

/-- A number that is written with a fraction or an exponent. -/
def isDouble : Json → Bool
  | .float _ => true
  | _ => false

def position? : Json → Option Nat
  | .int n => if 0 ≤ n then some n.toNat else none
  | .string s => index? s
  | _ => none

variable {k k' : Json} {items : List Json} {options : Options}

theorem item?_array (items : List Json) (k : Json) :
    item? (.array items) k = (position? k).bind fun i => items[i]? := by
  cases k with
  | int n =>
    show (if 0 ≤ n then items[n.toNat]? else none) =
      (if 0 ≤ n then some n.toNat else none).bind fun i => items[i]?
    split <;> rfl
  | _ => rfl

theorem position?_of_isDouble (h : isDouble k = true) : position? k = none := by
  cases k <;> first | rfl | cases h

/-- Keys that count as equal have the same text. -/
theorem toText_eq_of_looseEq (hk : IsKey k) (hk' : IsKey k') (h : looseEq k k' = true) :
    toText k = toText k' := by
  cases hk <;> cases hk' <;> first | exact plainText_of_beq h | exact eq_of_beq h

/-- The place of a key that is no double is told by its text. -/
theorem position?_eq_some_iff (hk : IsKey k) (hdouble : isDouble k = false) {i : Nat}
    (hi : i < 2 ^ 53) : position? k = some i ↔ index? (toText k) = some i := by
  cases hk with
  | int n =>
    rw [toText, index?_plainText_ofInteger_iff hi, position?, Option.ite_none_right_eq_some,
      Option.some.injEq]
    omega
  | float x => cases hdouble
  | string s => rfl

/-- Keys that are no doubles find the same item in an array of any size that there can be. -/
theorem item?_eq_of_looseEq (hk : IsKey k) (hk' : IsKey k') (h : looseEq k k' = true)
    (hdouble : isDouble k = isDouble k') (hsize : items.length ≤ 2 ^ 53) :
    item? (.array items) k = item? (.array items) k' := by
  rw [item?_array, item?_array]
  cases hk'' : isDouble k with
  | true => rw [position?_of_isDouble hk'', position?_of_isDouble (hdouble ▸ hk'')]
  | false =>
    have hplace (i : Nat) (hi : i < 2 ^ 53) : position? k = some i ↔ position? k' = some i := by
      rw [position?_eq_some_iff hk hk'' hi, position?_eq_some_iff hk' (hdouble ▸ hk'') hi,
        toText_eq_of_looseEq hk hk' h]
    ext item
    simp only [Option.bind_eq_some_iff]
    refine exists_congr fun i => and_congr_left fun hitem => hplace i ?_
    exact Nat.lt_of_lt_of_le (List.getElem?_eq_some_iff.1 hitem).1 hsize

/-- An item that is missing, or cannot be told from a missing one. -/
def IsAbsent (options : Options) (item : Option Json) : Prop :=
  item = none ∨ options.strict = false ∧ item = some .null

theorem getItem_of_isAbsent {object : Json} (h : IsAbsent options (item? object k)) (line : Nat) :
    getItem options object k line =
      if options.strict then .error (.undefinedKey (toText k) line) else .ok .null := by
  unfold getItem
  rcases h with h | ⟨hstrict, h⟩ <;> rw [h]
  rw [hstrict]
  rfl

/-- An item is absent if getting it is like getting nothing. -/
theorem isAbsent_of_getItem {object : Json} {line : Nat} (h : getItem options object k line =
    if options.strict then .error (.undefinedKey (toText k') line) else .ok .null) :
    IsAbsent options (item? object k) := by
  unfold getItem at h
  cases hitem : item? object k with
  | none => exact .inl rfl
  | some value =>
    rw [hitem] at h
    cases hstrict : options.strict with
    | true =>
      rw [hstrict] at h
      cases h
    | false =>
      rw [hstrict] at h
      exact .inr ⟨hstrict, congrArg some (Except.ok.inj h)⟩

/-- A double finds nothing in an array. -/
theorem isAbsent_of_isDouble (h : isDouble k = true) :
    IsAbsent options (item? (.array items) k) := by
  rw [item?_array, position?_of_isDouble h]
  exact .inl rfl

/-- Numbers and texts as keys that count as equal. An object has the same part under both. An array
has so exactly if both or none of them are doubles, or if no item is found under either. -/
theorem getItem_eq_iff_of_looseEq (options : Options) (hk : IsKey k) (hk' : IsKey k')
    (h : looseEq k k' = true) (line : Nat) :
    (∀ fields, getItem options (.object fields) k line = getItem options (.object fields) k' line) ∧
      ∀ items : List Json, items.length ≤ 2 ^ 53 →
        (getItem options (.array items) k line = getItem options (.array items) k' line ↔
          isDouble k = isDouble k' ∨
            IsAbsent options (item? (.array items) k) ∧
              IsAbsent options (item? (.array items) k')) := by
  have htext := toText_eq_of_looseEq hk hk' h
  have hsame {object : Json} (hitem : item? object k = item? object k') :
      getItem options object k line = getItem options object k' line := by
    unfold getItem
    rw [hitem, htext]
  refine ⟨fun fields => hsame ?_, fun items hsize => ⟨fun heq => ?_, ?_⟩⟩
  · show fields.lookup (toText k) = fields.lookup (toText k')
    rw [htext]
  · cases hdouble : isDouble k <;> cases hdouble' : isDouble k'
    · exact .inl rfl
    · have habsent : IsAbsent options (item? (.array items) k') := isAbsent_of_isDouble hdouble'
      exact .inr ⟨isAbsent_of_getItem (heq.trans (getItem_of_isAbsent habsent line)), habsent⟩
    · have habsent : IsAbsent options (item? (.array items) k) := isAbsent_of_isDouble hdouble
      exact .inr ⟨habsent, isAbsent_of_getItem (heq.symm.trans (getItem_of_isAbsent habsent line))⟩
    · exact .inl rfl
  · rintro (hdouble | ⟨habsent, habsent'⟩)
    · exact hsame (item?_eq_of_looseEq hk hk' h hdouble hsize)
    · rw [getItem_of_isAbsent habsent, getItem_of_isAbsent habsent', htext]

/-- The integer and the double one, as keys of an array of two. -/
theorem getItem_eq_iff_of_looseEq_one :
    ∃ k k' : Json, IsKey k ∧ IsKey k' ∧ looseEq k k' = true ∧
      (∀ fields, getItem {} (.object fields) k 1 = getItem {} (.object fields) k' 1) ∧
        ∀ items : List Json, items.length ≤ 2 ^ 53 →
          (getItem {} (.array items) k 1 = getItem {} (.array items) k' 1 ↔
            isDouble k = isDouble k' ∨
              IsAbsent {} (item? (.array items) k) ∧ IsAbsent {} (item? (.array items) k')) :=
  ⟨.int 1, .float 1.0, .int 1, .float 1.0, rfl,
    getItem_eq_iff_of_looseEq {} (.int 1) (.float 1.0) rfl 1⟩

/-- The double one finds nothing where the integer, which counts as equal, finds an item. -/
theorem getItem_double_one :
    looseEq (.int 1) (.float 1.0) = true ∧
      getItem {} (.array [.string "a", .string "b"]) (.int 1) 1 = .ok (.string "b") ∧
      getItem {} (.array [.string "a", .string "b"]) (.float 1.0) 1 = .ok .null :=
  ⟨rfl, rfl, rfl⟩

end TemplateEngine.Render
