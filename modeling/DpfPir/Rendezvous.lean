import Mathlib.Algebra.BigOperators.Fin
import Mathlib.Algebra.Order.BigOperators.Group.Finset
import Mathlib.Logic.Relation
import Mathlib.Order.WellFounded

/-!
# Programs that open connections

Sequential programs that open connections through ports: one side listens at a port and
accepts, the other connects. A program that connects to a port at which nobody listens is
refused and ends.

Results:
1. `Plan.Inv`, `Step.inv`: which connections there are, at any point of any run.
2. `Reaches.wired`: a connection is always between the two endpoints that the plan has for
   its port.
3. `Reaches.complete`: when every program goes through its ports in increasing order, a run
   that can go no further has made every connection, unless a program was refused.
4. `Reaches.stops`: every run can be continued until it can go no further.
-/

namespace Rendezvous

variable {P Port S : Type}

/-- A call of a program, with the variable that takes the connection. -/
inductive Call (Port S : Type) where
  | listen (x : Port)
  | accept (x : Port) (e : S)
  | connect (x : Port) (e : S)
deriving DecidableEq

def Call.port : Call Port S → Port
  | .listen x => x
  | .accept x _ => x
  | .connect x _ => x

/-- The calls that are left, the ports at which somebody listens, the connections that
nobody has accepted yet, the accepted ones with both their endpoints, and the programs that
were refused. -/
structure State (P Port S : Type) where
  rest : P → List (Call Port S)
  listening : Port → Bool
  pending : Port → List (P × S)
  accepted : List ((P × S) × (P × S))
  refused : P → Bool

/-- The state before the first call. -/
def State.start (program : P → List (Call Port S)) : State P Port S where
  rest := program
  listening _ := false
  pending _ := []
  accepted := []
  refused _ := false

section Steps

variable [DecidableEq P] [DecidableEq Port]

/-- The state after `p` has begun to listen, with `calls` left. -/
def State.afterListen (s : State P Port S) (p : P) (x : Port) (calls : List (Call Port S)) :
    State P Port S :=
  { s with
    rest := Function.update s.rest p calls
    listening := Function.update s.listening x true }

/-- The state after `p` has accepted the connection of `q`. -/
def State.afterAccept (s : State P Port S) (p : P) (x : Port) (e : S) (q : P × S)
    (queue : List (P × S)) (calls : List (Call Port S)) : State P Port S :=
  { s with
    rest := Function.update s.rest p calls
    pending := Function.update s.pending x queue
    accepted := s.accepted ++ [((p, e), q)] }

/-- The state after `p` has connected. -/
def State.afterConnect (s : State P Port S) (p : P) (x : Port) (e : S)
    (calls : List (Call Port S)) : State P Port S :=
  { s with
    rest := Function.update s.rest p calls
    pending := Function.update s.pending x (s.pending x ++ [(p, e)]) }

/-- The state after `p` was refused. -/
def State.afterRefuse (s : State P Port S) (p : P) : State P Port S :=
  { s with
    rest := Function.update s.rest p []
    refused := Function.update s.refused p true }

/-- A step of program `p`. A connection is there as soon as it is pending; `accept` waits
for one. -/
inductive Step (s : State P Port S) (p : P) : State P Port S → Prop where
  | listen {x : Port} {calls : List (Call Port S)} (now : s.rest p = .listen x :: calls) :
    Step s p (s.afterListen p x calls)
  | accept {x : Port} {e : S} {calls : List (Call Port S)} {q : P × S} {queue : List (P × S)}
    (now : s.rest p = .accept x e :: calls) (ready : s.pending x = q :: queue) :
    Step s p (s.afterAccept p x e q queue calls)
  | connect {x : Port} {e : S} {calls : List (Call Port S)}
    (now : s.rest p = .connect x e :: calls) (heard : s.listening x = true) :
    Step s p (s.afterConnect p x e calls)
  | refuse {x : Port} {e : S} {calls : List (Call Port S)}
    (now : s.rest p = .connect x e :: calls) (silent : s.listening x = false) :
    Step s p (s.afterRefuse p)

/-- A step of any program. -/
def Steps (s s' : State P Port S) : Prop := ∃ p, Step s p s'

/-- A run. -/
abbrev Reaches (s s' : State P Port S) : Prop := Relation.ReflTransGen Steps s s'

/-- No program can go on. -/
def Stuck (s : State P Port S) : Prop := ∀ s', ¬ Steps s s'

/-- The step of program `p`, if it can go on. -/
def State.next (s : State P Port S) (p : P) : Option (State P Port S) :=
  match s.rest p with
  | [] => none
  | .listen x :: calls => some (s.afterListen p x calls)
  | .accept x e :: calls =>
    match s.pending x with
    | [] => none
    | q :: queue => some (s.afterAccept p x e q queue calls)
  | .connect x e :: calls =>
    if s.listening x then some (s.afterConnect p x e calls) else some (s.afterRefuse p)

theorem Step.of_next {s s' : State P Port S} {p : P} (next : s.next p = some s') : Step s p s' := by
  unfold State.next at next
  split at next
  · cases next
  · cases next
    exact .listen (by assumption)
  · split at next
    · cases next
    · cases next
      exact .accept (by assumption) (by assumption)
  · split at next
    · cases next
      exact .connect (by assumption) (by assumption)
    · cases next
      exact .refuse (by assumption) (Bool.eq_false_iff.mpr (by assumption))

/-- The state after the programs have taken their steps in the given order. -/
def State.follow (s : State P Port S) : List P → Option (State P Port S)
  | [] => some s
  | p :: ps => (s.next p).bind fun s' => s'.follow ps

theorem Reaches.of_follow {ps : List P} {s s' : State P Port S} (run : s.follow ps = some s') :
    Reaches s s' := by
  induction ps generalizing s with
  | nil =>
    cases run
    exact .refl
  | cons p ps ih =>
    obtain ⟨t, next, rest⟩ := Option.bind_eq_some_iff.mp run
    exact (ih rest).head ⟨p, .of_next next⟩

/-- Programs that have ended do not go on. -/
theorem Stuck.of_ended {s : State P Port S} (ended : ∀ p, s.rest p = []) : Stuck s := by
  rintro s' ⟨p, step⟩
  have none := ended p
  cases step with
  | listen now => cases none.symm.trans now
  | accept now ready => cases none.symm.trans now
  | connect now heard => cases none.symm.trans now
  | refuse now silent => cases none.symm.trans now

/-- Only `accept` waits. -/
theorem Stuck.waits {s : State P Port S} (stuck : Stuck s) {p : P} {call : Call Port S}
    {calls : List (Call Port S)} (now : s.rest p = call :: calls) :
    ∃ x e, call = .accept x e ∧ s.pending x = [] := by
  cases call with
  | listen x => exact (stuck _ ⟨p, .listen now⟩).elim
  | connect x e =>
    cases heard : s.listening x with
    | true => exact (stuck _ ⟨p, .connect now heard⟩).elim
    | false => exact (stuck _ ⟨p, .refuse now heard⟩).elim
  | accept x e =>
    refine ⟨x, e, rfl, ?_⟩
    cases queue : s.pending x with
    | nil => rfl
    | cons q queue' => exact (stuck _ ⟨p, .accept now queue⟩).elim

end Steps

/-! ## Plans -/

/-- Programs in which every port that is used has one accepting and one connecting
endpoint. -/
structure Plan (P Port S : Type) where
  program : P → List (Call Port S)
  accepter : Port → P × S
  connecter : Port → P × S
  nodup : ∀ p, (program p).Nodup
  accepts : ∀ p x e, .accept x e ∈ program p → (p, e) = accepter x ∧
    .connect x (connecter x).2 ∈ program (connecter x).1
  connects : ∀ p x e, .connect x e ∈ program p → (p, e) = connecter x ∧
    .accept x (accepter x).2 ∈ program (accepter x).1

namespace Plan

variable (plan : Plan P Port S)

/-- A connection through the port is planned. -/
def Used (x : Port) : Prop := .accept x (plan.accepter x).2 ∈ plan.program (plan.accepter x).1

/-- The port has not been accepted at. -/
def Unaccepted (s : State P Port S) (x : Port) : Prop :=
  .accept x (plan.accepter x).2 ∈ s.rest (plan.accepter x).1

/-- Nobody has connected to the port. -/
def Unconnected (s : State P Port S) (x : Port) : Prop :=
  .connect x (plan.connecter x).2 ∈ s.rest (plan.connecter x).1

/-- What holds at any point of any run. The last two are about runs in which nobody has
been refused. -/
structure Inv (s : State P Port S) : Prop where
  wired : ∀ c ∈ s.accepted, ∃ x, plan.Used x ∧ c = (plan.accepter x, plan.connecter x)
  queued : ∀ x, ∀ q ∈ s.pending x, q = plan.connecter x
  left : ∀ p, s.rest p <:+ plan.program p
  waiting : (∀ p, s.refused p = false) → ∀ x, plan.Unaccepted s x → ¬ plan.Unconnected s x →
    s.pending x ≠ []
  done : (∀ p, s.refused p = false) → ∀ x, plan.Used x → ¬ plan.Unaccepted s x →
    (plan.accepter x, plan.connecter x) ∈ s.accepted

variable {plan} {s s' : State P Port S} {p : P} {call : Call Port S}
  {calls : List (Call Port S)}

theorem Inv.start : plan.Inv (State.start plan.program) where
  wired _ mem := absurd mem List.not_mem_nil
  queued _ _ mem := absurd mem List.not_mem_nil
  left _ := List.suffix_rfl
  waiting _ x unaccepted connected := absurd (plan.accepts _ x _ unaccepted).2 connected
  done _ _ used accepted := absurd used accepted

theorem Inv.mem_program (inv : plan.Inv s) (now : s.rest p = call :: calls) :
    call ∈ plan.program p :=
  (inv.left p).subset (now ▸ List.mem_cons_self)

theorem Inv.notMem_tail (inv : plan.Inv s) (now : s.rest p = call :: calls) : call ∉ calls := by
  have nodup : (s.rest p).Nodup := (plan.nodup p).sublist (inv.left p).sublist
  rw [now] at nodup
  exact (List.nodup_cons.mp nodup).1

/-- The endpoint of a program that is about to accept. -/
theorem Inv.accepts_now {x : Port} {e : S} (inv : plan.Inv s)
    (now : s.rest p = .accept x e :: calls) : (p, e) = plan.accepter x ∧ plan.Used x := by
  have mem := inv.mem_program now
  obtain ⟨ends, -⟩ := plan.accepts _ _ _ mem
  refine ⟨ends, ?_⟩
  unfold Used
  rw [← ends]
  exact mem

section Left

variable [DecidableEq P]

/-- A call that is done leaves the program's list, and no other does. -/
theorem mem_rest_of_ne {c : Call Port S} (now : s.rest p = call :: calls) (ne : c ≠ call) (q : P) :
    c ∈ Function.update s.rest p calls q ↔ c ∈ s.rest q := by
  by_cases same : q = p
  · subst same
    rw [Function.update_self, now, List.mem_cons]
    exact ⟨.inr, fun mem => mem.resolve_left ne⟩
  · rw [Function.update_of_ne same]

theorem Inv.left_of_suffix (inv : plan.Inv s) (suffix : calls <:+ s.rest p) (q : P) :
    Function.update s.rest p calls q <:+ plan.program q := by
  by_cases same : q = p
  · subst same
    rw [Function.update_self]
    exact suffix.trans (inv.left q)
  · rw [Function.update_of_ne same]
    exact inv.left q

theorem Inv.left_tail (inv : plan.Inv s) (now : s.rest p = call :: calls) :
    ∀ q, Function.update s.rest p calls q <:+ plan.program q :=
  inv.left_of_suffix (now ▸ List.suffix_cons call calls)

end Left

/-! ## Steps keep the invariant -/

section Kept

variable [DecidableEq P] [DecidableEq Port] {x : Port} {e : S}

theorem Inv.afterListen (inv : plan.Inv s) (now : s.rest p = .listen x :: calls) :
    plan.Inv (s.afterListen p x calls) where
  wired := inv.wired
  queued := inv.queued
  left := inv.left_tail now
  waiting served y unaccepted connected :=
    inv.waiting served y ((mem_rest_of_ne now (by simp) _).mp unaccepted) fun mem =>
      connected ((mem_rest_of_ne now (by simp) _).mpr mem)
  done served y used accepted := inv.done served y used fun mem =>
    accepted ((mem_rest_of_ne now (by simp) _).mpr mem)

theorem Inv.afterAccept {q : P × S} {queue : List (P × S)} (inv : plan.Inv s)
    (now : s.rest p = .accept x e :: calls) (ready : s.pending x = q :: queue) :
    plan.Inv (s.afterAccept p x e q queue calls) := by
  obtain ⟨ends, used⟩ := inv.accepts_now now
  have other : q = plan.connecter x := inv.queued x q (ready ▸ List.mem_cons_self)
  refine ⟨fun c mem => ?_, fun y r mem => ?_, inv.left_tail now,
    fun served y unaccepted connected => ?_, fun served y used accepted => ?_⟩
  · rcases List.mem_append.mp mem with mem | mem
    · exact inv.wired c mem
    · exact ⟨x, used, by rw [List.mem_singleton.mp mem, ends, other]⟩
  · change r ∈ Function.update s.pending x queue y at mem
    by_cases same : y = x
    · subst same
      rw [Function.update_self] at mem
      exact inv.queued y r (ready ▸ List.mem_cons_of_mem q mem)
    · rw [Function.update_of_ne same] at mem
      exact inv.queued y r mem
  · change Function.update s.pending x queue y ≠ []
    by_cases same : y = x
    · subst same
      unfold Unaccepted at unaccepted
      rw [← ends] at unaccepted
      change _ ∈ Function.update s.rest p calls p at unaccepted
      rw [Function.update_self] at unaccepted
      exact absurd unaccepted (inv.notMem_tail now)
    · rw [Function.update_of_ne same]
      refine inv.waiting served y ?_ fun mem => connected ?_
      · exact (mem_rest_of_ne now (by simp [same]) _).mp unaccepted
      · exact (mem_rest_of_ne now (by simp) _).mpr mem
  · by_cases same : y = x
    · subst same
      rw [← ends, ← other]
      exact List.mem_append_right _ List.mem_cons_self
    · refine List.mem_append_left _ (inv.done served y used fun mem => accepted ?_)
      exact (mem_rest_of_ne now (by simp [same]) _).mpr mem

theorem Inv.afterConnect (inv : plan.Inv s) (now : s.rest p = .connect x e :: calls) :
    plan.Inv (s.afterConnect p x e calls) := by
  obtain ⟨ends, -⟩ := plan.connects _ _ _ (inv.mem_program now)
  refine ⟨inv.wired, fun y r mem => ?_, inv.left_tail now,
    fun served y unaccepted connected => ?_, fun served y used accepted => ?_⟩
  · change r ∈ Function.update s.pending x (s.pending x ++ [(p, e)]) y at mem
    by_cases same : y = x
    · subst same
      rw [Function.update_self, List.mem_append, List.mem_singleton] at mem
      rcases mem with mem | mem
      · exact inv.queued y r mem
      · exact mem.trans ends
    · rw [Function.update_of_ne same] at mem
      exact inv.queued y r mem
  · change Function.update s.pending x (s.pending x ++ [(p, e)]) y ≠ []
    by_cases same : y = x
    · subst same
      rw [Function.update_self]
      exact List.append_ne_nil_of_right_ne_nil _ (List.cons_ne_nil _ _)
    · rw [Function.update_of_ne same]
      refine inv.waiting served y ?_ fun mem => connected ?_
      · exact (mem_rest_of_ne now (by simp) _).mp unaccepted
      · exact (mem_rest_of_ne now (by simp [same]) _).mpr mem
  · exact inv.done served y used fun mem =>
      accepted ((mem_rest_of_ne now (by simp) _).mpr mem)

omit [DecidableEq Port] in
theorem Inv.afterRefuse (inv : plan.Inv s) : plan.Inv (s.afterRefuse p) := by
  have gone : ¬ ∀ q, (s.afterRefuse p).refused q = false := by
    intro served
    have refused : Function.update s.refused p true p = false := served p
    rw [Function.update_self] at refused
    exact Bool.noConfusion refused
  exact {
    wired := inv.wired
    queued := inv.queued
    left := inv.left_of_suffix (List.nil_suffix)
    waiting := fun served => absurd served gone
    done := fun served => absurd served gone }

end Kept

end Plan

section Runs

variable [DecidableEq P] [DecidableEq Port] {plan : Plan P Port S} {s s' : State P Port S}

/-- One step keeps the invariant. -/
theorem Step.inv {p : P} (step : Step s p s') (inv : plan.Inv s) : plan.Inv s' := by
  cases step with
  | listen now => exact inv.afterListen now
  | accept now ready => exact inv.afterAccept now ready
  | connect now heard => exact inv.afterConnect now
  | refuse now silent => exact inv.afterRefuse

/-- Every run keeps the invariant. -/
theorem Reaches.inv (reaches : Reaches (State.start plan.program) s) : plan.Inv s := by
  induction reaches with
  | refl => exact Plan.Inv.start
  | tail _ step ih =>
    obtain ⟨_, step⟩ := step
    exact step.inv ih

/-- A connection is between the two endpoints that the plan has for its port. -/
theorem Reaches.wired (reaches : Reaches (State.start plan.program) s) :
    ∀ c ∈ s.accepted, ∃ x, plan.Used x ∧ c = (plan.accepter x, plan.connecter x) :=
  reaches.inv.wired

section Order

variable [PartialOrder Port]

/-- A program that waits, waits for one that waits at an earlier port. -/
theorem Stuck.earlier {p : P} {call : Call Port S} {calls : List (Call Port S)}
    (rises : ∀ p, (plan.program p).Pairwise fun c d => c.port ≤ d.port)
    (apart : ∀ x, plan.Used x → (plan.accepter x).1 ≠ (plan.connecter x).1)
    (stuck : Stuck s) (inv : plan.Inv s) (served : ∀ p, s.refused p = false)
    (now : s.rest p = call :: calls) :
    ∃ q d ds, s.rest q = d :: ds ∧ d.port < call.port := by
  obtain ⟨x, e, rfl, empty⟩ := stuck.waits now
  obtain ⟨ends, used⟩ := inv.accepts_now now
  have unaccepted : plan.Unaccepted s x := by
    unfold Plan.Unaccepted
    rw [← ends, now]
    exact List.mem_cons_self
  have unconnected : plan.Unconnected s x := by
    by_contra connected
    exact inv.waiting served x unaccepted connected empty
  unfold Plan.Unconnected at unconnected
  cases left : s.rest (plan.connecter x).1 with
  | nil => exact absurd (left ▸ unconnected) List.not_mem_nil
  | cons d ds =>
    refine ⟨_, d, ds, left, ?_⟩
    obtain ⟨y, f, rfl, -⟩ := stuck.waits left
    have sorted := (rises _).sublist (inv.left (plan.connecter x).1).sublist
    rw [left] at sorted unconnected
    have tail := (List.mem_cons.mp unconnected).resolve_left (by simp)
    have le : y ≤ x := (List.pairwise_cons.mp sorted).1 _ tail
    refine lt_of_le_of_ne le fun same => apart x used ?_
    obtain ⟨ends', -⟩ := inv.accepts_now left
    change y = x at same
    rw [same] at ends'
    exact (congrArg Prod.fst ends').symm

/-- A run that can go no further is complete, unless a program was refused. -/
theorem Reaches.complete [WellFoundedLT Port]
    (rises : ∀ p, (plan.program p).Pairwise fun c d => c.port ≤ d.port)
    (apart : ∀ x, plan.Used x → (plan.accepter x).1 ≠ (plan.connecter x).1)
    (reaches : Reaches (State.start plan.program) s) (stuck : Stuck s)
    (served : ∀ p, s.refused p = false) :
    (∀ p, s.rest p = []) ∧
      ∀ x, plan.Used x → (plan.accepter x, plan.connecter x) ∈ s.accepted := by
  have waits (x : Port) : ∀ p call calls, s.rest p = call :: calls → call.port ≠ x := by
    induction x using WellFoundedLT.induction with
    | ind x ih =>
      rintro p call calls now rfl
      obtain ⟨q, d, ds, left, lt⟩ := stuck.earlier rises apart reaches.inv served now
      exact ih d.port lt q d ds left rfl
  have ended (p : P) : s.rest p = [] := by
    cases left : s.rest p with
    | nil => rfl
    | cons call calls => exact absurd rfl (waits _ p call calls left)
  refine ⟨ended, fun x used => reaches.inv.done served x used ?_⟩
  unfold Plan.Unaccepted
  rw [ended]
  exact List.not_mem_nil

end Order

section Ends

variable [Fintype P]

/-- The number of calls that are left. -/
def State.calls (s : State P Port S) : Nat := ∑ p, (s.rest p).length

omit [DecidableEq Port] in
theorem sum_update_lt {rest : P → List (Call Port S)} {p : P} {calls : List (Call Port S)}
    (shorter : calls.length < (rest p).length) :
    ∑ q, (Function.update rest p calls q).length < ∑ q, (rest q).length := by
  refine Finset.sum_lt_sum (fun q _ => ?_) ⟨p, Finset.mem_univ p, ?_⟩
  · by_cases same : q = p
    · subst same
      rw [Function.update_self]
      exact shorter.le
    · rw [Function.update_of_ne same]
  · rw [Function.update_self]
    exact shorter

theorem Steps.calls_lt (steps : Steps s s') : s'.calls < s.calls := by
  obtain ⟨p, step⟩ := steps
  have shorter {call : Call Port S} {calls : List (Call Port S)}
      (now : s.rest p = call :: calls) : calls.length < (s.rest p).length := by
    rw [now, List.length_cons]
    exact Nat.lt_succ_self _
  cases step with
  | listen now => exact sum_update_lt (shorter now)
  | accept now ready => exact sum_update_lt (shorter now)
  | connect now heard => exact sum_update_lt (shorter now)
  | refuse now silent => exact sum_update_lt ((Nat.zero_le _).trans_lt (shorter now))

/-- Every run can be continued until it can go no further. -/
theorem Reaches.stops (s : State P Port S) : ∃ s', Reaches s s' ∧ Stuck s' := by
  induction size : s.calls using Nat.strong_induction_on generalizing s with
  | h n ih =>
    by_cases stuck : Stuck s
    · exact ⟨s, .refl, stuck⟩
    · obtain ⟨t, step⟩ := not_forall_not.mp stuck
      obtain ⟨s', reaches, stuck⟩ := ih t.calls (size ▸ step.calls_lt) t rfl
      exact ⟨s', reaches.head step, stuck⟩

end Ends

end Runs

end Rendezvous
