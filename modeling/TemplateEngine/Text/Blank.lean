/-!
The white space of Unicode. Main statements: trimming at the end leaves a beginning of the text, and
every word is a non-empty run of characters that are not blank.
-/

namespace TemplateEngine.Text

/-- The twenty-five characters that have the Unicode property `White_Space`. -/
def isBlank (c : Char) : Bool :=
  let n := c.toNat
  (0x09 ≤ n && n ≤ 0x0D) || n == 0x20 || n == 0x85 || n == 0xA0 || n == 0x1680 ||
    (0x2000 ≤ n && n ≤ 0x200A) || n == 0x2028 || n == 0x2029 || n == 0x202F || n == 0x205F ||
    n == 0x3000

def trimEnd (p : Char → Bool) : List Char → List Char
  | [] => []
  | c :: cs =>
    match trimEnd p cs with
    | [] => if p c then [] else [c]
    | kept => c :: kept

theorem trimEnd_isPrefix (p : Char → Bool) (cs : List Char) : trimEnd p cs <+: cs := by
  induction cs with
  | nil => simp [trimEnd]
  | cons c cs ih =>
    rw [trimEnd]
    split
    · split
      · simp
      · exact ⟨cs, rfl⟩
    · obtain ⟨t, ht⟩ := ih
      exact ⟨t, by simp [ht]⟩

def trimBlank (cs : List Char) : List Char :=
  trimEnd isBlank (cs.dropWhile isBlank)

/-- Cuts a text at its blank characters; `word` is the word begun so far. -/
def wordsFrom (word : List Char) : List Char → List (List Char)
  | [] => if word.isEmpty then [] else [word]
  | c :: cs =>
    if isBlank c then
      if word.isEmpty then wordsFrom [] cs else word :: wordsFrom [] cs
    else wordsFrom (word ++ [c]) cs

/-- The maximal runs of characters that are not blank, in order. -/
def words (cs : List Char) : List (List Char) :=
  wordsFrom [] cs

theorem mem_wordsFrom {word cs w : List Char} (hword : ∀ c ∈ word, isBlank c = false)
    (hw : w ∈ wordsFrom word cs) : w ≠ [] ∧ ∀ c ∈ w, isBlank c = false := by
  induction cs generalizing word with
  | nil =>
    by_cases h : word.isEmpty
    · simp [wordsFrom, h] at hw
    · simp only [wordsFrom, h, Bool.false_eq_true, if_false, List.mem_singleton] at hw
      subst hw
      exact ⟨by simpa using h, hword⟩
  | cons c cs ih =>
    rw [wordsFrom] at hw
    split at hw
    · split at hw
      · exact ih (by simp) hw
      · next h =>
        rcases List.mem_cons.1 hw with rfl | hw
        · exact ⟨by simpa using h, hword⟩
        · exact ih (by simp) hw
    · next h =>
      refine ih ?_ hw
      intro d hd
      rcases List.mem_append.1 hd with hd | hd
      · exact hword d hd
      · simpa [List.mem_singleton.1 hd] using h

theorem mem_words {cs w : List Char} (hw : w ∈ words cs) :
    w ≠ [] ∧ ∀ c ∈ w, isBlank c = false :=
  mem_wordsFrom (by simp) hw

end TemplateEngine.Text
