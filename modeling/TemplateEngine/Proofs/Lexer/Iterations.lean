import TemplateEngine.Proofs.Lexer.TagStarts

/-!
The loop of a lexer without a limit on its steps. Main statement: every iteration fails or moves on
within the text, so the loop ends after at most as many iterations as the text has characters, or
one more behind a comment that is opened at its very end; the limit of `run` never cuts it short.
-/

namespace TemplateEngine.Lexer

variable {r : Rules} {comments : Comments} {s t : State} {tokens more : List Token}
  {code : List Char} {n : Nat} {result : Except Failure Piece}

/-- What the loop of a lexer comes to from a state, with the number of its iterations. Each is a
step, and one that fails is the last. -/
inductive Loops (r : Rules) (comments : Comments) : State → Nat → Except Failure Piece → Prop
  | done {s : State} (hdone : isDone comments s = true) : Loops r comments s 0 (.ok ([], s))
  | failed {s : State} {e : Failure} (hdone : isDone comments s = false)
      (hstep : step r comments s = .error e) : Loops r comments s 1 (.error e)
  | next {s t : State} {tokens : List Token} {n : Nat} {result : Except Failure Piece}
      (hdone : isDone comments s = false) (hstep : step r comments s = .ok (tokens, t))
      (hmore : Loops r comments t n result) :
      Loops r comments s (n + 1) (result.map (Piece.after tokens))

/-- A step from a place that a lexer reaches moves on and stays in the text. -/
theorem offset_lt_of_step (h : Reaches r comments (.start r code) tokens s)
    (hdone : isDone comments s = false) (hstep : step r comments s = .ok (more, t)) :
    s.offset < t.offset ∧ t.offset ≤ code.length := by
  have hs := (inOrder_of_reaches h).length_eq
  have ht := (inOrder_of_reaches (h.trans (.single hdone hstep))).length_eq
  have hshorter := ((h.sound (sound_start r comments code)).stepped hdone hstep).2.shorter
  omega

/-- The loop ends from every state that a lexer can stand in. -/
theorem exists_loops (hs : Sound comments s) : ∃ n result, Loops r comments s n result := by
  induction hlength : s.rest.length using Nat.strong_induction_on generalizing s with
  | _ length ih =>
    cases hdone : isDone comments s with
    | true => exact ⟨0, _, .done hdone⟩
    | false =>
      cases hstep : step r comments s with
      | error e => exact ⟨1, _, .failed hdone hstep⟩
      | ok piece =>
        obtain ⟨tokens, t⟩ := piece
        have hshorter := (hs.stepped hdone hstep).2.shorter
        obtain ⟨n, result, hmore⟩ := ih _ (hlength ▸ hshorter) (hs.step hdone hstep) rfl
        exact ⟨n + 1, _, .next hdone hstep hmore⟩

/-- With a limit above the length of the text the run comes to what the loop comes to. -/
theorem Loops.run_eq (h : Loops r comments s n result) (hs : Sound comments s) {k : Nat}
    (hk : s.rest.length < k) : run r comments k s = result := by
  induction h generalizing k with
  | done hdone => exact run_done hdone k
  | failed hdone hstep =>
    obtain ⟨k, rfl⟩ : ∃ j, k = j + 1 := ⟨k - 1, by omega⟩
    exact run_succ_error hdone hstep k
  | next hdone hstep _ ih =>
    obtain ⟨k, rfl⟩ : ∃ j, k = j + 1 := ⟨k - 1, by omega⟩
    have hshorter := (hs.stepped hdone hstep).2.shorter
    rw [run_succ hdone hstep, ih (hs.step hdone hstep) (by omega)]

/-- From this state the lexer comes to a comment that is opened at the very end of the text. -/
def OpensLast (r : Rules) (comments : Comments) (s : State) : Prop :=
  comments = .keep ∧
    ∃ tokens t, Reaches r comments s tokens t ∧ t.rest = [] ∧ t.nesting = [.comment]

theorem OpensLast.before (h : OpensLast r comments t) (hdone : isDone comments s = false)
    (hstep : step r comments s = .ok (tokens, t)) : OpensLast r comments s := by
  obtain ⟨hkeep, more, u, hreaches, hrest, hnest⟩ := h
  exact ⟨hkeep, _, u, .step hdone hstep hreaches, hrest, hnest⟩

/-- A lexer with nothing left to read goes on only behind a comment opened there. -/
theorem opensLast_of_rest_eq_nil (hs : Sound comments s) (hdone : isDone comments s = false)
    (hrest : s.rest = []) : OpensLast r comments s := by
  have hplaced := hs.placed
  generalize hnest : s.nesting = nesting at hplaced
  cases hplaced with
  | text => exact absurd hrest (rest_ne_nil_of_isDone (.inl hnest) hdone)
  | tag htag => exact absurd hrest (rest_ne_nil_of_isDone (.inr (hnest ▸ htag)) hdone)
  | comment hkeep => exact ⟨hkeep, [], s, .refl s, hrest, hnest⟩

/-- The iterations are at most as many as the characters left, or one more. -/
theorem Loops.count_le (h : Loops r comments s n result) (hs : Sound comments s) :
    n ≤ s.rest.length ∨ n = s.rest.length + 1 ∧ OpensLast r comments s := by
  induction h with
  | done => exact .inl (Nat.zero_le _)
  | @failed s e hdone hstep =>
    by_cases hrest : s.rest = []
    · exact .inr ⟨by simp [hrest], opensLast_of_rest_eq_nil hs hdone hrest⟩
    · exact .inl (List.length_pos_iff.2 hrest)
  | @next s t tokens n result hdone hstep _ ih =>
    have hshorter := (hs.stepped hdone hstep).2.shorter
    rcases ih (hs.step hdone hstep) with hle | ⟨hn, hopens⟩
    · exact .inl (by omega)
    · by_cases hlast : n + 1 ≤ s.rest.length
      · exact .inl hlast
      · exact .inr ⟨by omega, hopens.before hdone hstep⟩

/-- The loop of a lexer with any settings on a template: every iteration fails or moves on within
the text. The loop ends, at the latest after as many iterations as there are characters, or after
one more if a comment that is kept is opened at the very end; and `run` comes to the same. -/
theorem loops_within_length {options : Options} {comments : Comments} {lexer : Lexer}
    (hlexer : ofOptions options comments = .ok lexer) (source : Source) :
    let code := unifyBreaks source.code.toList
    let start := State.start lexer.rules code
    (∀ tokens s, Reaches lexer.rules comments start tokens s → isDone comments s = false →
      ∀ more t, step lexer.rules comments s = .ok (more, t) →
        s.offset < t.offset ∧ t.offset ≤ code.length) ∧
    (∃ n result, Loops lexer.rules comments start n result) ∧
    ∀ n result, Loops lexer.rules comments start n result →
      run lexer.rules lexer.comments (code.length + 1) start = result ∧
      (n ≤ code.length ∨ n = code.length + 1 ∧ OpensLast lexer.rules comments start) := by
  obtain ⟨r, -, rfl⟩ := ofOptions_eq_ok.1 hlexer
  intro code start
  have hstart : Sound comments start := sound_start r comments code
  refine ⟨fun tokens s hreaches hdone more t hstep => offset_lt_of_step hreaches hdone hstep,
    exists_loops hstart, fun n result hloops => ⟨?_, hloops.count_le hstart⟩⟩
  exact hloops.run_eq hstart (Nat.lt_succ_self _)

/-- Where a comment is opened by one character and nothing stands behind it, the loop makes two
iterations. -/
theorem loops_within_length_openComment :
    ∃ lexer n result, ofOptions { comment := ("#", "#") } .keep = .ok lexer ∧
      Loops lexer.rules .keep (.start lexer.rules ['#']) n result ∧ n = 2 ∧
      run lexer.rules lexer.comments 2 (.start lexer.rules ['#']) = result ∧
      (n ≤ 1 ∨ n = 2 ∧ OpensLast lexer.rules .keep (.start lexer.rules ['#'])) := by
  obtain ⟨lexer, hlexer, n, result, hloops, hn⟩ :
      ∃ lexer, ofOptions { comment := ("#", "#") } .keep = .ok lexer ∧ ∃ n result,
        Loops lexer.rules .keep (.start lexer.rules ['#']) n result ∧ n = 2 :=
    ⟨_, rfl, _, _, .next rfl rfl (.failed rfl rfl), rfl⟩
  obtain ⟨hrun, hcount⟩ := (loops_within_length hlexer ⟨"page", "#"⟩).2.2 n result hloops
  exact ⟨lexer, n, result, hlexer, hloops, hn, hrun, hcount⟩

end TemplateEngine.Lexer
