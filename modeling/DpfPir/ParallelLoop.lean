import Mathlib.Algebra.BigOperators.Fin
import Mathlib.Algebra.BigOperators.GroupWithZero.Action
import Mathlib.Data.List.FinRange

/-!
# Parallel loops with per-thread accumulators

A parallel loop runs each of its `n` iterations exactly once, on some thread, in
some order. A `Schedule` is one such choice; `Schedule.run` executes the loop
body along it.

Results:
1. `Schedule.run_induct`: the invariant rule. An invariant indexed by the set of
   finished iterations, kept by every iteration that has not run yet, holds of
   the full set at the end. `Schedule.run_induct_before` is the same rule for the
   state in which an iteration starts.
2. `Schedule.run_store`: stores to distinct cells leave the same array under
   every schedule.
3. `run_accumulate` and `merge_hom`: an accumulator per thread, merged thread by
   thread, has the sum of the contributions as its image in a commutative monoid.
4. `foldlM_range`: the invariant rule of a sequential loop whose body can fail.
-/

namespace ParallelLoop

/-- The order in which the iterations of a loop take effect, with the thread
that runs each one. Every iteration runs exactly once. -/
structure Schedule (threads n : Nat) where
  order : List (Fin n × Fin threads)
  exactlyOnce : (order.map Prod.fst).Perm (List.finRange n)

namespace Schedule

variable {threads n : Nat} {σ : Type*}

/-- Executes a loop body along the schedule. -/
def run (s : Schedule threads n) (body : Fin n → Fin threads → σ → σ) (init : σ) : σ :=
  s.order.foldl (fun state it => body it.1 it.2 state) init

/-- Iteration `i` runs on thread `i % threads`, in increasing order. -/
def static (threads n : Nat) (pos : 0 < threads) : Schedule threads n where
  order := (List.finRange n).map fun i => (i, ⟨i % threads, Nat.mod_lt _ pos⟩)
  exactlyOnce := by simp [List.map_map, Function.comp_def]

theorem foldl_induct {body : Fin n → Fin threads → σ → σ} {I : Finset (Fin n) → σ → Prop}
    (step : ∀ S i t state, i ∉ S → I S state → I (insert i S) (body i t state))
    (order : List (Fin n × Fin threads)) (nodup : (order.map Prod.fst).Nodup)
    (S : Finset (Fin n)) (fresh : ∀ it ∈ order, it.1 ∉ S) (state : σ) (holds : I S state) :
    I (S ∪ (order.map Prod.fst).toFinset)
      (order.foldl (fun state it => body it.1 it.2 state) state) := by
  induction order generalizing S state with
  | nil => simpa using holds
  | cons it rest ih =>
    rw [List.map_cons, List.nodup_cons] at nodup
    have done : I (insert it.1 S) (body it.1 it.2 state) :=
      step S it.1 it.2 state (fresh it List.mem_cons_self) holds
    have later : ∀ other ∈ rest, other.1 ∉ insert it.1 S := by
      intro other mem
      rw [Finset.mem_insert, not_or]
      refine ⟨fun same => ?_, fresh other (List.mem_cons_of_mem _ mem)⟩
      exact nodup.1 (same ▸ List.mem_map_of_mem mem)
    have final := ih nodup.2 (insert it.1 S) later (body it.1 it.2 state) done
    simpa [Finset.insert_union, Finset.union_insert] using final

theorem nodup_order (s : Schedule threads n) : (s.order.map Prod.fst).Nodup :=
  s.exactlyOnce.nodup_iff.mpr (List.nodup_finRange n)

/-- The invariant rule of a parallel loop: `I S` speaks of the state in which
exactly the iterations of `S` have run. -/
theorem run_induct (s : Schedule threads n) {body : Fin n → Fin threads → σ → σ}
    {I : Finset (Fin n) → σ → Prop} {init : σ} (start : I ∅ init)
    (step : ∀ S i t state, i ∉ S → I S state → I (insert i S) (body i t state)) :
    I Finset.univ (s.run body init) := by
  have all : (s.order.map Prod.fst).toFinset = Finset.univ := by
    ext i
    simp [s.exactlyOnce.mem_iff]
  have final := foldl_induct step s.order s.nodup_order ∅ (by simp) init start
  rwa [Finset.empty_union, all] at final

/-- The invariant in the state in which an iteration starts, which has not run before. -/
theorem run_induct_before (s : Schedule threads n) {body : Fin n → Fin threads → σ → σ}
    {I : Finset (Fin n) → σ → Prop} {init : σ} (start : I ∅ init)
    (step : ∀ S i t state, i ∉ S → I S state → I (insert i S) (body i t state))
    {before after : List (Fin n × Fin threads)} {i : Fin n} {t : Fin threads}
    (now : s.order = before ++ (i, t) :: after) :
    ∃ S, i ∉ S ∧ I S (before.foldl (fun state it => body it.1 it.2 state) init) := by
  have nodup := s.nodup_order
  rw [now, List.map_append, List.map_cons, List.nodup_append] at nodup
  obtain ⟨earlier, -, apart⟩ := nodup
  refine ⟨(before.map Prod.fst).toFinset, ?_, ?_⟩
  · rw [List.mem_toFinset]
    intro mem
    exact apart i mem i List.mem_cons_self rfl
  · have holds := foldl_induct step before earlier ∅ (fun _ _ => Finset.notMem_empty _) init start
    rwa [Finset.empty_union] at holds

/-- A loop whose iteration `i` stores `f i` into cell `i` of an array leaves `f`
in the array, whatever the schedule. The array is a component `array` of the state. -/
theorem run_store {α : Type*} (s : Schedule threads n) (body : Fin n → Fin threads → σ → σ)
    (array : σ → Fin n → α) (f : Fin n → α)
    (stores : ∀ i t state, array (body i t state) = Function.update (array state) i (f i))
    (init : σ) : array (s.run body init) = f := by
  have cells : ∀ i ∈ Finset.univ, array (s.run body init) i = f i := by
    refine s.run_induct (I := fun S state => ∀ i ∈ S, array state i = f i) ?_ ?_
    · intro i mem
      exact absurd mem (Finset.notMem_empty i)
    · intro S i t state fresh inv k mem
      rw [stores]
      by_cases same : k = i
      · rw [same, Function.update_self]
      · rw [Function.update_of_ne same]
        exact inv k (Finset.mem_of_mem_insert_of_ne mem same)
  funext i
  exact cells i (Finset.mem_univ i)

/-- A part of the state on which the body acts by itself evolves by itself. -/
theorem run_hom {τ : Type*} (s : Schedule threads n) {f : Fin n → Fin threads → σ → σ}
    {g : Fin n → Fin threads → τ → τ} (part : σ → τ)
    (acts : ∀ i t state, part (f i t state) = g i t (part state)) (init : σ) :
    part (s.run f init) = s.run g (part init) :=
  (List.foldl_hom part fun state it => (acts it.1 it.2 state).symm).symm

end Schedule

/-! ## Accumulators -/

section Accumulators

variable {threads : Nat} {α M : Type*} [AddCommMonoid M]

/-- Merges the accumulators of all threads, thread by thread. -/
def merge (op : α → α → α) (init : α) (acc : Fin threads → α) : α :=
  (List.finRange threads).foldl (fun total t => op total (acc t)) init

/-- A contribution added to one thread's accumulator adds to the sum over all. -/
theorem sum_update_acc (φ : α → M) (acc : Fin threads → α) (t : Fin threads) (new : α) (d : M)
    (adds : φ new = φ (acc t) + d) :
    ∑ u, φ (Function.update acc t new u) = (∑ u, φ (acc u)) + d := by
  have split : ∑ u, φ (acc u) = φ (acc t) + ∑ u ∈ Finset.univ \ {t}, φ (acc u) := by
    rw [← Finset.sum_update_of_mem (Finset.mem_univ t) (fun u => φ (acc u)) (φ (acc t)),
      Function.update_eq_self_iff.mpr rfl]
  have moved : ∀ u, φ (Function.update acc t new u) =
      Function.update (fun u => φ (acc u)) t (φ new) u := by
    intro u
    by_cases same : u = t
    · subst same; simp
    · simp [same]
  calc ∑ u, φ (Function.update acc t new u)
      = φ new + ∑ u ∈ Finset.univ \ {t}, φ (acc u) := by
        simp only [moved]
        exact Finset.sum_update_of_mem (Finset.mem_univ t) _ _
    _ = (∑ u, φ (acc u)) + d := by rw [adds, split, add_right_comm]

/-- Merging is a sum under every map that turns the merge operation into `+` on
the values that satisfy `P`, when the operation keeps `P`. -/
theorem merge_hom (op : α → α → α) (P : α → Prop) (φ : α → M)
    (keeps : ∀ a b, P a → P (op a b)) (adds : ∀ a b, P a → φ (op a b) = φ a + φ b)
    (init : α) (start : P init) (acc : Fin threads → α) :
    P (merge op init acc) ∧ φ (merge op init acc) = φ init + ∑ t, φ (acc t) := by
  have fold : ∀ (l : List (Fin threads)) (total : α), P total →
      P (l.foldl (fun total t => op total (acc t)) total) ∧
      φ (l.foldl (fun total t => op total (acc t)) total) =
        φ total + (l.map fun t => φ (acc t)).sum := by
    intro l
    induction l with
    | nil => intro total h; simpa using h
    | cons t l ih =>
      intro total h
      obtain ⟨kept, value⟩ := ih (op total (acc t)) (keeps _ _ h)
      refine ⟨kept, ?_⟩
      rw [List.foldl_cons, value, adds _ _ h, List.map_cons, List.sum_cons, add_assoc]
  obtain ⟨kept, value⟩ := fold (List.finRange threads) init start
  refine ⟨kept, ?_⟩
  rw [merge, value, ← Fin.sum_univ_def]

/-- A loop that adds `d i` to the accumulator of the thread that runs `i`: the
accumulators together hold the sum of the contributions. `φ` turns the
accumulation `step` into `+` on the values that satisfy `P`. -/
theorem run_accumulate {n : Nat} {σ : Type*} (s : Schedule threads n)
    (body : Fin n → Fin threads → σ → σ) (acc : σ → Fin threads → α) (step : Fin n → α → α)
    (P : α → Prop) (φ : α → M) (d : Fin n → M)
    (stores : ∀ i t state,
      acc (body i t state) = Function.update (acc state) t (step i (acc state t)))
    (keeps : ∀ i a, P a → P (step i a)) (adds : ∀ i a, P a → φ (step i a) = φ a + d i)
    (init : σ) (start : ∀ t, P (acc init t)) :
    ∑ t, φ (acc (s.run body init) t) = (∑ t, φ (acc init t)) + ∑ i, d i := by
  refine (s.run_induct (I := fun S state => (∀ t, P (acc state t)) ∧
    ∑ t, φ (acc state t) = (∑ t, φ (acc init t)) + ∑ i ∈ S, d i) ?_ ?_).2
  · exact ⟨start, by simp⟩
  · rintro S i t state fresh ⟨inv, total⟩
    constructor
    · intro u
      rw [stores]
      by_cases same : u = t
      · rw [same, Function.update_self]
        exact keeps i _ (inv t)
      · rw [Function.update_of_ne same]
        exact inv u
    · rw [Finset.sum_insert fresh, stores,
        sum_update_acc φ (acc state) t _ (d i) (adds i _ (inv t)), total, add_assoc,
        add_comm (d i)]

end Accumulators

/-! ## Sequential loops that can fail -/

section Fallible

variable {σ : Type} {body : σ → Nat → Option σ}

/-- The invariant rule of a counting loop whose body can fail: an invariant under
which the body succeeds, and which it keeps, makes the whole loop succeed. -/
theorem foldlM_range (I : Nat → σ → Prop) {init : σ} (start : I 0 init) (n : Nat)
    (step : ∀ i, i < n → ∀ state, I i state → ∃ next, body state i = some next ∧ I (i + 1) next) :
    ∃ final, (List.range n).foldlM body init = some final ∧ I n final := by
  induction n with
  | zero => exact ⟨init, rfl, start⟩
  | succ n ih =>
    obtain ⟨state, run, holds⟩ := ih fun i hi => step i (Nat.lt_succ_of_lt hi)
    obtain ⟨next, one, kept⟩ := step n (Nat.lt_succ_self n) state holds
    refine ⟨next, ?_, kept⟩
    rw [List.range_succ, List.foldlM_append, run]
    simpa using one

/-- A counting loop that succeeds has run its body at every index. -/
theorem of_foldlM_range {init final : σ} (n : Nat)
    (run : (List.range n).foldlM body init = some final) :
    ∀ i, i < n → ∃ state next, body state i = some next := by
  induction n generalizing final with
  | zero => intro i hi; exact absurd hi (Nat.not_lt_zero i)
  | succ n ih =>
    rw [List.range_succ, List.foldlM_append, Option.bind_eq_bind, Option.bind_eq_some_iff] at run
    obtain ⟨state, before, last⟩ := run
    intro i hi
    cases Nat.lt_succ_iff_lt_or_eq.mp hi with
    | inl earlier => exact ih before i earlier
    | inr now =>
      subst now
      exact ⟨state, final, by simpa using last⟩

end Fallible

end ParallelLoop
