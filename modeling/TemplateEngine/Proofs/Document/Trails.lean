import TemplateEngine.Proofs.Document.Erasure
import TemplateEngine.Proofs.TokenStream

/-!
Trails of visits. Main statement: where every visit is made further on than those it is made from,
or in the same place by a routine deeper inside, no routine is entered from inside itself before a
token is taken. The rules for reads in a row count the visits and the tokens that are taken.
-/

namespace TemplateEngine.Document

/-- How deep inside others a routine stands that is entered without taking a token first. -/
def Routine.rank : Routine → Nat
  | expression => 1
  | operand => 2
  | primary => 3
  | operators | parts | accesses => 4
  | nodes | tag | branches | items | arguments => 0

/-- The inner visit is made further on, or in the same place by a routine deeper inside. -/
def Visit.Precedes (outer inner : Visit) : Prop :=
  outer.place < inner.place ∨ outer.place = inner.place ∧ outer.routine.rank < inner.routine.rank

def Descends (trail : List Visit) : Prop :=
  trail.Pairwise fun inner outer => outer.Precedes inner

/-- A token is taken between any two visits of the trail to the same routine. -/
def Progresses (trail : List Visit) : Prop :=
  trail.Pairwise fun inner outer => inner.routine = outer.routine → outer.place < inner.place

theorem Descends.progresses {trail : List Visit} (h : Descends trail) : Progresses trail := by
  apply List.Pairwise.imp _ h
  rintro inner outer (hplace | ⟨-, hrank⟩) hroutine
  · exact hplace
  · rw [hroutine] at hrank
    exact absurd hrank (Nat.lt_irrefl _)

theorem descends_singleton (visit : Visit) : Descends [visit] :=
  List.pairwise_singleton _ visit

theorem Visit.Precedes.trans {u v w : Visit} (huv : u.Precedes v) (hvw : v.Precedes w) :
    u.Precedes w := by
  unfold Visit.Precedes at *
  omega

theorem Descends.cons {trail : List Visit} {v w : Visit} (h : Descends (v :: trail))
    (hvw : v.Precedes w) : Descends (w :: v :: trail) := by
  refine List.pairwise_cons.2 ⟨fun u hu => ?_, h⟩
  rcases List.mem_cons.1 hu with rfl | hu
  · exact hvw
  · exact ((List.pairwise_cons.1 h).1 u hu).trans hvw

namespace TracedParser

open TokenReader

variable {s t : TracedParser} {α β : Type}

def place (s : TracedParser) : Nat :=
  s.parser.stream.position

def left (s : TracedParser) : Nat :=
  s.parser.stream.after.length

def withStream (s : TracedParser) (stream : TokenStream) : TracedParser :=
  { s with parser := { s.parser with stream := stream } }

structure Sound (s : TracedParser) : Prop where
  closed : s.parser.stream.Closed
  descends : ∀ trail ∈ s.log, Descends trail

/-- At least `taken` tokens have been taken on the way. The visits cost at most as much as seven for
each token that is not ahead any more, and `cost`. -/
structure Leads (s : TracedParser) (taken : Nat) (cost : Int) (t : TracedParser) : Prop where
  sound : t.Sound
  place : s.place + taken ≤ t.place
  left : t.left + taken ≤ s.left
  cost : (t.log.length : Int) + 7 * t.left ≤ s.log.length + 7 * s.left + cost

theorem Leads.trans {m n : Nat} {c d : Int} {u : TracedParser} (h : Leads s m c t)
    (h' : Leads t n d u) : Leads s (m + n) (c + d) u := by
  have hplace := h.place
  have hleft := h.left
  have hcost := h.cost
  have hplace' := h'.place
  have hleft' := h'.left
  have hcost' := h'.cost
  exact ⟨h'.sound, by omega, by omega, by omega⟩

theorem Leads.mono {m n : Nat} {c d : Int} (h : Leads s m c t) (hmn : n ≤ m) (hcd : c ≤ d) :
    Leads s n d t := by
  have hplace := h.place
  have hleft := h.left
  have hcost := h.cost
  exact ⟨h.sound, by omega, by omega, by omega⟩

/-- A routine that is entered where a token has been taken since the last visit. -/
theorem Leads.behind {trail : List Visit} {outer inner : Routine} {m : Nat} {c : Int}
    (ht : Leads s m c t) (htrail : Descends (⟨outer, s.place⟩ :: trail)) (hm : 0 < m) :
    Descends (⟨inner, t.place⟩ :: ⟨outer, s.place⟩ :: trail) := by
  have hplace := ht.place
  exact htrail.cons (.inl (by simp only; omega))

/-- A routine deeper inside than the last one. -/
theorem Leads.inside {trail : List Visit} {outer inner : Routine} {m : Nat} {c : Int}
    (ht : Leads s m c t) (htrail : Descends (⟨outer, s.place⟩ :: trail))
    (hrank : outer.rank < inner.rank) :
    Descends (⟨inner, t.place⟩ :: ⟨outer, s.place⟩ :: trail) := by
  rcases Nat.lt_or_eq_of_le (Nat.le_of_add_right_le ht.place) with hlt | heq
  · exact htrail.cons (.inl hlt)
  · exact htrail.cons (.inr ⟨heq, hrank⟩)

/-- A read that is started at `t`, on the way from `s`, leads on from `s` whether it fails or not,
and does not fail for want of steps. -/
def LeadsOn (s : TracedParser) (taken : Nat) (cost : Int) (reader : Reader α) (t : TracedParser) :
    Prop :=
  match reader t with
  | .ok _ u => Leads s taken cost u
  | .error e u => e.fault ≠ .outOfSteps ∧ Leads s 0 cost u

theorem LeadsOn.finishes {reader : Reader α} {m : Nat} {c : Int} (h : LeadsOn s m c reader t) :
    Finishes (reader t) := by
  unfold LeadsOn at h
  cases hread : reader t with
  | ok a u => trivial
  | error e u =>
    rw [hread] at h
    exact h.1

theorem LeadsOn.exists_leads {reader : Reader α} {m : Nat} {c : Int} (h : LeadsOn s m c reader t) :
    ∃ u, record (reader t) = u.log ∧ Leads s 0 c u := by
  unfold LeadsOn at h
  cases hread : reader t with
  | ok a u =>
    rw [hread] at h
    exact ⟨u, rfl, h.mono (Nat.zero_le m) (Int.le_refl c)⟩
  | error e u =>
    rw [hread] at h
    exact ⟨u, rfl, h.2⟩

theorem within_bind (reader : Document.Reader α) (f : α → Document.Reader β) :
    within (reader >>= f) = within reader >>= fun a => within (f a) := by
  funext s
  unfold within
  simp only [bind, EStateM.bind]
  cases reader s.parser <;> rfl

theorem lift_bind (reader : TokenReader α) (f : α → TokenReader β) :
    lift (reader >>= f) = lift reader >>= fun a => lift (f a) := by
  unfold lift
  rw [Document.lift_bind, within_bind]

namespace LeadsOn

variable {taken m n : Nat} {cost c d : Int} {f : α → Reader β}

theorem pure {a : α} (h : Leads s taken cost t) : LeadsOn s taken cost (Pure.pure a) t :=
  h

theorem pure_lift {a : α} (h : Leads s taken cost t) :
    LeadsOn s taken cost (lift (Pure.pure a)) t :=
  h

theorem fail {fault : SyntaxFault} {line : Nat} (ht : Leads s m c t) (hcost : c ≤ cost)
    (hfault : fault ≠ .outOfSteps) : LeadsOn s taken cost (lift (fail fault line) : Reader α) t :=
  ⟨hfault, ht.mono (Nat.zero_le m) hcost⟩

/-- A read that is the last one on the way. -/
theorem last {reader : Reader α} (ht : Leads s m c t) (h : LeadsOn t n d reader t)
    (htaken : taken ≤ m + n) (hcost : c + d ≤ cost) : LeadsOn s taken cost reader t := by
  unfold LeadsOn at *
  cases hread : reader t with
  | ok a u =>
    rw [hread] at h
    exact (ht.trans h).mono htaken hcost
  | error e u =>
    rw [hread] at h
    exact ⟨h.1, (ht.trans h.2).mono (Nat.zero_le _) hcost⟩

theorem bind_of_ok {reader : Reader α} {a : α} {u : TracedParser} (h : reader t = .ok a u)
    (hf : LeadsOn s taken cost (f a) u) : LeadsOn s taken cost (reader >>= f) t := by
  have hread : (reader >>= f) t = f a u := by
    show EStateM.bind reader f t = f a u
    rw [EStateM.bind, h]
  rw [LeadsOn, hread]
  exact hf

theorem bind_of_error {reader : Reader α} {e : SyntaxError} {u : TracedParser}
    (h : reader t = .error e u) (he : e.fault ≠ .outOfSteps) (hu : Leads s 0 cost u) :
    LeadsOn s taken cost (reader >>= f) t := by
  have hread : (reader >>= f) t = .error e u := by
    show EStateM.bind reader f t = .error e u
    rw [EStateM.bind, h]
  rw [LeadsOn, hread]
  exact ⟨he, hu⟩

theorem bind {reader : Reader α} (ht : Leads s m c t) (h : LeadsOn t n d reader t)
    (hcost : c + d ≤ cost) (hf : ∀ a u, Leads s (m + n) (c + d) u → LeadsOn s taken cost (f a) u) :
    LeadsOn s taken cost (reader >>= f) t := by
  unfold LeadsOn at h
  cases hread : reader t with
  | ok a u =>
    rw [hread] at h
    exact bind_of_ok hread (hf a u (ht.trans h))
  | error e u =>
    rw [hread] at h
    exact bind_of_error hread h.1 ((ht.trans h.2).mono (Nat.zero_le _) hcost)

theorem get_bind {f : TracedParser → Reader β} (hf : LeadsOn s taken cost (f t) t) :
    LeadsOn s taken cost (get >>= f) t :=
  hf

theorem current_bind {f : Token → Reader β}
    (hf : LeadsOn s taken cost (f t.parser.stream.current) t) :
    LeadsOn s taken cost (lift current >>= f) t :=
  hf

theorem test_bind {kind : TokenKind} {value? : Option String} {f : Bool → Reader β}
    (hf : ∀ found, LeadsOn s taken cost (f found) t) :
    LeadsOn s taken cost (lift (test kind value?) >>= f) t :=
  hf _

theorem within_eq_ok {reader : Document.Reader α} {a : α} {p : ParserState}
    (h : reader t.parser = .ok a p) : within reader t = .ok a { t with parser := p } := by
  rw [within, h]

theorem within_eq_error {reader : Document.Reader α} {e : SyntaxError} {p : ParserState}
    (h : reader t.parser = .error e p) : within reader t = .error e { t with parser := p } := by
  rw [within, h]

theorem lift_eq_ok {reader : TokenReader α} {a : α} {stream : TokenStream}
    (h : reader t.parser.stream = .ok a stream) : lift reader t = .ok a (t.withStream stream) :=
  within_eq_ok (by rw [Document.lift, h])

theorem lift_eq_error {reader : TokenReader α} {e : SyntaxError} {stream : TokenStream}
    (h : reader t.parser.stream = .error e stream) :
    lift reader t = .error e (t.withStream stream) :=
  within_eq_error (by rw [Document.lift, h])

/-- One token further on, there is one less ahead. -/
theorem leads_moved (ht : t.Sound) {token : Token} {rest : List Token}
    (h : t.parser.stream.after = token :: rest) :
    Leads t 1 (-7) (t.withStream (t.parser.stream.moved token rest)) := by
  have hleft : t.left = rest.length + 1 := congrArg List.length h
  have hrest : (t.withStream (t.parser.stream.moved token rest)).left = rest.length := rfl
  have hlog : (t.withStream (t.parser.stream.moved token rest)).log.length = t.log.length := rfl
  have hclosed : (t.parser.stream.moved token rest).Closed := by
    rw [TokenStream.Closed, TokenStream.tokens_moved h]
    exact ht.closed
  exact ⟨⟨hclosed, ht.descends⟩, Nat.le_refl _, by omega, by omega⟩

/-- The last token is the end token. -/
theorem after_ne_nil (ht : t.Sound) (hkind : t.parser.stream.current.kind ≠ .eof) :
    t.parser.stream.after ≠ [] := by
  intro hafter
  have hclosed := ht.closed
  rw [TokenStream.Closed, TokenStream.tokens, hafter, TokenStream.endsList_append (by simp)]
    at hclosed
  exact hkind (by simpa [TokenStream.endsList, Token.isEof] using hclosed)

theorem next_bind {f : Token → Reader β} (ht : Leads s m c t) (hcost : c ≤ cost)
    (hf : ∀ token u, Leads s (m + 1) (c + -7) u → LeadsOn s taken cost (f token) u) :
    LeadsOn s taken cost (lift next >>= f) t := by
  cases hafter : t.parser.stream.after with
  | nil =>
    exact bind_of_error (lift_eq_error (TokenStream.next_of_after_eq_nil hafter))
      (by simp [TokenStream.error]) (ht.mono (Nat.zero_le m) hcost)
  | cons token rest =>
    exact bind_of_ok (lift_eq_ok (TokenStream.next_of_after_eq_cons hafter))
      (hf _ _ (ht.trans (leads_moved ht.sound hafter)))

theorem expect_bind {kind : TokenKind} {value? : Option String} {f : Token → Reader β}
    (ht : Leads s m c t) (hcost : c ≤ cost)
    (hf : ∀ token u, Leads s (m + 1) (c + -7) u → LeadsOn s taken cost (f token) u) :
    LeadsOn s taken cost (lift (expect kind value?) >>= f) t := by
  unfold expect
  rw [lift_bind, bind_assoc]
  apply current_bind
  split
  · exact next_bind ht hcost hf
  · exact bind_of_error rfl (by simp [TokenStream.error]) (ht.mono (Nat.zero_le m) hcost)

/-- The token that is looked for is taken, or it is not there and nothing is. -/
theorem nextIf_bind {kind : TokenKind} {value? : Option String} {f : Option Token → Reader β}
    (ht : Leads s m c t) (hkind : kind ≠ .eof)
    (hsome : ∀ token u, Leads s (m + 1) (c + -7) u → LeadsOn s taken cost (f (some token)) u)
    (hnone : t.parser.stream.current.test kind value? = false → LeadsOn s taken cost (f none) t) :
    LeadsOn s taken cost (lift (nextIf kind value?) >>= f) t := by
  cases htest : t.parser.stream.current.test kind value? with
  | true =>
    have hcurrent : t.parser.stream.current.kind ≠ .eof := Token.kind_of_test htest ▸ hkind
    obtain ⟨token, rest, hafter⟩ := List.exists_cons_of_ne_nil (after_ne_nil ht.sound hcurrent)
    have hread : nextIf kind value? t.parser.stream =
        .ok (some t.parser.stream.current) (t.parser.stream.moved token rest) := by
      show (if t.parser.stream.current.test kind value? then _ else _ : TokenReader _) _ = _
      rw [htest, if_pos rfl, TokenStream.advance?_of_after hafter]
      rfl
    exact bind_of_ok (lift_eq_ok hread) (hsome _ _ (ht.trans (leads_moved ht.sound hafter)))
  | false =>
    have hread : nextIf kind value? t.parser.stream = .ok none t.parser.stream := by
      show (if t.parser.stream.current.test kind value? then _ else _ : TokenReader _) _ = _
      rw [htest]
      rfl
    exact bind_of_ok (lift_eq_ok hread) (hnone htest)

/-- Noting a visit costs one. -/
theorem enter_bind {routine : Routine} {trail : List Visit} {f : List Visit → Reader β}
    (hs : s.Sound) (htrail : Descends (⟨routine, s.place⟩ :: trail))
    (hf : ∀ t, t.parser = s.parser → Leads s 0 1 t →
      LeadsOn s taken cost (f (⟨routine, s.place⟩ :: trail)) t) :
    LeadsOn s taken cost (enter routine trail >>= f) s := by
  have hdescends : ∀ other ∈ (⟨routine, s.place⟩ :: trail) :: s.log, Descends other := by
    rw [List.forall_mem_cons]
    exact ⟨htrail, hs.descends⟩
  refine bind_of_ok rfl (hf _ rfl ⟨⟨hs.closed, hdescends⟩, Nat.le_refl _, Nat.le_refl _, ?_⟩)
  simp only [List.length_cons]
  exact Int.le_of_eq (by simp only [left]; omega)

end LeadsOn

/-- From where it may be entered and with `factor` steps for each token ahead and `extra` ones, the
read of a routine leads on. -/
def Affords (factor : Nat) (routine : Routine) (steps extra taken : Nat) (cost : Int)
    (reader : List Visit → Reader α) : Prop :=
  ∀ s trail, s.Sound → Descends (⟨routine, s.place⟩ :: trail) → factor * s.left + extra ≤ steps →
    LeadsOn s taken cost (reader trail) s

theorem Affords.bind {factor extra steps m n taken : Nat} {c d cost : Int} {routine : Routine}
    {reader : List Visit → Reader α} {trail : List Visit} {f : α → Reader β}
    (h : Affords factor routine steps extra n d reader) (ht : Leads s m c t)
    (htrail : Descends (⟨routine, t.place⟩ :: trail)) (hsteps : factor * t.left + extra ≤ steps)
    (hcost : c + d ≤ cost) (hf : ∀ a u, Leads s (m + n) (c + d) u → LeadsOn s taken cost (f a) u) :
    LeadsOn s taken cost (reader trail >>= f) t :=
  .bind ht (h t trail ht.sound htrail hsteps) hcost hf

theorem Affords.last {factor extra steps m n taken : Nat} {c d cost : Int} {routine : Routine}
    {reader : List Visit → Reader α} {trail : List Visit}
    (h : Affords factor routine steps extra n d reader) (ht : Leads s m c t)
    (htrail : Descends (⟨routine, t.place⟩ :: trail)) (hsteps : factor * t.left + extra ≤ steps)
    (htaken : taken ≤ m + n) (hcost : c + d ≤ cost) : LeadsOn s taken cost (reader trail) t :=
  .last ht (h t trail ht.sound htrail hsteps) htaken hcost

theorem Affords.of_no_steps {factor extra taken : Nat} {routine : Routine} {cost : Int}
    {reader : List Visit → Reader α} (hextra : 0 < extra) :
    Affords factor routine 0 extra taken cost reader :=
  fun _ _ _ _ hk => absurd hk (by omega)

end TracedParser

end TemplateEngine.Document
