import TemplateEngine.Text.Blank

/-!
Patterns over the front of a text. A pattern gives the lengths of the beginnings that it accepts,
the preferred one first, so that a sequence of patterns can fall back on a later choice. Main
statement: an accepted length is within the text.
-/

namespace TemplateEngine.Lexer

abbrev Pattern := List Char → List Nat

namespace Pattern

def never : Pattern := fun _ => []

def literal (text : List Char) : Pattern := fun cs =>
  if text.isPrefixOf cs then [text.length] else []

def run (p : Char → Bool) : Pattern := fun cs =>
  (List.range ((cs.takeWhile p).length + 1)).reverse

def andThen (first second : Pattern) : Pattern := fun cs =>
  (first cs).flatMap fun n => (second (cs.drop n)).map (n + ·)

def orElse (first second : Pattern) : Pattern := fun cs =>
  first cs ++ second cs

def optional (pattern : Pattern) : Pattern :=
  orElse pattern (literal [])

def length? (pattern : Pattern) (cs : List Char) : Option Nat :=
  (pattern cs).head?

theorem mem_run {p : Char → Bool} {cs : List Char} {n : Nat} :
    n ∈ run p cs ↔ n ≤ (cs.takeWhile p).length := by
  rw [run, List.mem_reverse, List.mem_range, Nat.lt_succ_iff]

theorem mem_andThen {first second : Pattern} {cs : List Char} {n : Nat} :
    n ∈ andThen first second cs ↔ ∃ m ∈ first cs, ∃ k ∈ second (cs.drop m), m + k = n := by
  simp only [andThen, List.mem_flatMap, List.mem_map]

def Bounded (pattern : Pattern) : Prop :=
  ∀ cs, ∀ n ∈ pattern cs, n ≤ cs.length

theorem bounded_literal (text : List Char) : Bounded (literal text) := by
  intro cs n hn
  unfold literal at hn
  split at hn
  · next h =>
    rw [List.mem_singleton] at hn
    subst hn
    exact (List.isPrefixOf_iff_prefix.1 h).length_le
  · simp at hn

theorem bounded_run (p : Char → Bool) : Bounded (run p) := by
  intro cs n hn
  exact Nat.le_trans (mem_run.1 hn) (List.takeWhile_prefix p).length_le

theorem Bounded.andThen {first second : Pattern} (hf : Bounded first) (hs : Bounded second) :
    Bounded (andThen first second) := by
  intro cs n hn
  obtain ⟨m, hm, k, hk, rfl⟩ := mem_andThen.1 hn
  have h1 := hf cs m hm
  have h2 := hs _ k hk
  rw [List.length_drop] at h2
  omega

theorem Bounded.orElse {first second : Pattern} (hf : Bounded first) (hs : Bounded second) :
    Bounded (orElse first second) := by
  intro cs n hn
  rcases List.mem_append.1 hn with hn | hn
  · exact hf cs n hn
  · exact hs cs n hn

theorem Bounded.optional {pattern : Pattern} (h : Bounded pattern) : Bounded (optional pattern) :=
  h.orElse (bounded_literal [])

end Pattern

/-- The first place in a text where a reading succeeds: the text in front of it, and the result. -/
def findFirst? {α : Type} (read? : List Char → Option α) : List Char → Option (List Char × α)
  | [] => (read? []).map fun result => ([], result)
  | c :: cs =>
    match read? (c :: cs) with
    | some result => some ([], result)
    | none => (findFirst? read? cs).map fun (skipped, result) => (c :: skipped, result)

theorem findFirst?_eq_some {α : Type} {read? : List Char → Option α} {cs skipped : List Char}
    {result : α} (h : findFirst? read? cs = some (skipped, result)) :
    ∃ rest, cs = skipped ++ rest ∧ read? rest = some result := by
  induction cs generalizing skipped with
  | nil =>
    obtain ⟨r, hr, he⟩ := Option.map_eq_some_iff.1 h
    obtain ⟨rfl, rfl⟩ := Prod.mk.inj he
    exact ⟨[], rfl, hr⟩
  | cons c cs ih =>
    unfold findFirst? at h
    split at h
    · next r hr =>
      obtain ⟨rfl, rfl⟩ := Prod.mk.inj (Option.some.inj h)
      exact ⟨c :: cs, rfl, hr⟩
    · obtain ⟨⟨s, r⟩, hs, he⟩ := Option.map_eq_some_iff.1 h
      obtain ⟨rfl, rfl⟩ := Prod.mk.inj he
      obtain ⟨rest, rfl, hr⟩ := ih hs
      exact ⟨rest, rfl, hr⟩

end TemplateEngine.Lexer
