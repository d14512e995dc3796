import Mathlib.Data.Fin.Tuple.Basic
import Mathlib.Data.List.Forall2
import Mathlib.Tactic.Common

/-!
# Streams and readers

Excerpts of an infinite stream, and machines that answer requests with successive
excerpts of one.

Results:
1. `excerpt_add`, `take_excerpt`, `drop_excerpt`: how excerpts compose.
2. `flatten_chunks`: a run of chunks of a stream is an excerpt of it.
3. `Reads.run`: a machine that answers each request with the excerpt at its position
   answers every list of requests with consecutive excerpts, none lost and none repeated.
4. `Draws.bind`, `Draws.each`: what programs compute from the excerpts that they read,
   over sequences and over loops.
-/

namespace Streams

variable {β : Type*}

/-- The `n` values of a stream from `start` on. -/
def excerpt (stream : Nat → β) (start n : Nat) : List β :=
  (List.range n).map fun k => stream (start + k)

section Excerpt

variable (stream : Nat → β)

@[simp] theorem length_excerpt (start n : Nat) : (excerpt stream start n).length = n := by
  simp [excerpt]

@[simp] theorem excerpt_zero (start : Nat) : excerpt stream start 0 = [] := rfl

theorem excerpt_add (start m n : Nat) :
    excerpt stream start (m + n) = excerpt stream start m ++ excerpt stream (start + m) n := by
  simp only [excerpt, List.range_add, List.map_append, List.map_map]
  congr 1
  refine List.map_congr_left fun k _ => ?_
  rw [Function.comp_apply, Nat.add_assoc]

theorem take_excerpt (start : Nat) {m n : Nat} (short : m ≤ n) :
    (excerpt stream start n).take m = excerpt stream start m := by
  obtain ⟨rest, rfl⟩ := Nat.exists_eq_add_of_le short
  rw [excerpt_add, List.take_left' (length_excerpt stream start m)]

theorem drop_excerpt (start : Nat) {m n : Nat} (short : m ≤ n) :
    (excerpt stream start n).drop m = excerpt stream (start + m) (n - m) := by
  obtain ⟨rest, rfl⟩ := Nat.exists_eq_add_of_le short
  rw [excerpt_add, List.drop_left' (length_excerpt stream start m), Nat.add_sub_cancel_left]

theorem getElem_excerpt {start n k : Nat} (inside : k < (excerpt stream start n).length) :
    (excerpt stream start n)[k] = stream (start + k) := by
  simp [excerpt]

end Excerpt

/-! ## Chunks -/

/-- The stream of the values in a sequence of chunks of `c` values. -/
def unchunk (c : Nat) (zero : β) (chunk : Nat → List β) : Nat → β :=
  fun k => (chunk (k / c)).getD (k % c) zero

theorem excerpt_unchunk {c : Nat} (zero : β) {chunk : Nat → List β} (start : Nat)
    (full : (chunk start).length = c) :
    excerpt (unchunk c zero chunk) (c * start) c = chunk start := by
  refine List.ext_getElem ((length_excerpt _ _ _).trans full.symm) fun k left right => ?_
  have low : k < c := full ▸ right
  have number : (c * start + k) / c = start := by
    rw [Nat.mul_add_div (by omega), Nat.div_eq_of_lt low, Nat.add_zero]
  have place : (c * start + k) % c = k := by
    rw [Nat.mul_add_mod, Nat.mod_eq_of_lt low]
  rw [getElem_excerpt, unchunk, number, place, List.getD_eq_getElem?_getD,
    List.getElem?_eq_getElem right, Option.getD_some]

theorem flatten_chunks {c : Nat} (zero : β) {chunk : Nat → List β}
    (full : ∀ k, (chunk k).length = c) (start n : Nat) :
    (excerpt chunk start n).flatten = excerpt (unchunk c zero chunk) (c * start) (c * n) := by
  induction n with
  | zero => rfl
  | succ n ih =>
    have last : excerpt chunk (start + n) 1 = [chunk (start + n)] := rfl
    rw [excerpt_add, List.flatten_append, ih, last, List.flatten_singleton, Nat.mul_succ,
      excerpt_add, ← Nat.mul_add, excerpt_unchunk zero _ (full _)]

/-! ## Readers -/

section Readers

variable {σ ρ : Type*} (step : ρ → σ → Option (List β × σ))

/-- The answers to a list of requests, and the state after them. -/
def runRequests : List ρ → σ → Option (List (List β) × σ)
  | [], st => some ([], st)
  | request :: requests, st => do
    let (answer, st) ← step request st
    let (answers, st) ← runRequests requests st
    return (answer :: answers, st)

/-- A state at position `pos` answers each request with an excerpt from `pos` on that suits
the request, and is then at the position behind it. -/
def Reads (stream : Nat → β) (located : σ → Nat → Prop) (suits : ρ → Nat → Prop) : Prop :=
  ∀ request st pos, located st pos →
    ∃ n st', suits request n ∧ step request st = some (excerpt stream pos n, st') ∧
      located st' (pos + n)

/-- Successive answers are successive excerpts. -/
theorem Reads.run {step : ρ → σ → Option (List β × σ)} {stream : Nat → β}
    {located : σ → Nat → Prop} {suits : ρ → Nat → Prop} (reads : Reads step stream located suits)
    (requests : List ρ) {st : σ} {pos : Nat} (start : located st pos) :
    ∃ answers st', runRequests step requests st = some (answers, st') ∧
      List.Forall₂ (fun request answer => suits request answer.length) requests answers ∧
      answers.flatten = excerpt stream pos answers.flatten.length ∧
      located st' (pos + answers.flatten.length) := by
  induction requests generalizing st pos with
  | nil => exact ⟨[], st, rfl, List.Forall₂.nil, rfl, start⟩
  | cons request requests ih =>
    obtain ⟨n, mid, suit, first, there⟩ := reads request st pos start
    obtain ⟨answers, st', rest, fits, whole, final⟩ := ih there
    have total : (excerpt stream pos n :: answers).flatten.length =
        n + answers.flatten.length := by
      rw [List.flatten_cons, List.length_append, length_excerpt]
    refine ⟨excerpt stream pos n :: answers, st', ?_, ?_, ?_, ?_⟩
    · rw [runRequests, first]
      show (do
        let (answers, st) ← runRequests step requests mid
        return (excerpt stream pos n :: answers, st)) = _
      rw [rest]
      rfl
    · exact List.Forall₂.cons (by rwa [length_excerpt]) fits
    · rw [total, List.flatten_cons, excerpt_add, ← whole]
    · rw [total, ← Nat.add_assoc]
      exact final

end Readers

/-! ## Programs that read -/

section Draws

variable {σ α γ : Type} {located : σ → Nat → Prop}

variable (located) in
/-- From any position `pos` the program `m` moves on by `n` values and returns `v pos`. -/
def Draws (m : StateT σ Option α) (n : Nat) (v : Nat → α) : Prop :=
  ∀ st pos, located st pos → ∃ st', m st = some (v pos, st') ∧ located st' (pos + n)

theorem Draws.congr {m : StateT σ Option α} {n : Nat} {v v' : Nat → α}
    (draws : Draws located m n v) (same : ∀ pos, v pos = v' pos) : Draws located m n v' := by
  obtain rfl : v = v' := funext same
  exact draws

theorem Draws.pure (a : α) : Draws located (Pure.pure a) 0 fun _ => a :=
  fun st _ start => ⟨st, rfl, start⟩

theorem Draws.bind {m : StateT σ Option α} {n : Nat} {v : Nat → α} {f : α → StateT σ Option γ}
    {k : Nat} {v' : α → Nat → γ} (first : Draws located m n v)
    (second : ∀ a, Draws located (f a) k (v' a)) :
    Draws located (m >>= f) (n + k) fun pos => v' (v pos) (pos + n) := by
  intro st pos start
  obtain ⟨mid, run, there⟩ := first st pos start
  obtain ⟨st', run', final⟩ := second (v pos) mid (pos + n) there
  refine ⟨st', ?_, by rwa [← Nat.add_assoc]⟩
  show (m st >>= fun a => f a.1 a.2) = _
  rw [run]
  exact run'

/-- The rule for a last step that reads nothing. -/
theorem Draws.map {m : StateT σ Option α} {n : Nat} {v : Nat → α} (draws : Draws located m n v)
    (f : α → γ) : Draws located (m >>= fun a => Pure.pure (f a)) n fun pos => f (v pos) :=
  draws.bind fun a => Draws.pure (f a)

/-- `for (i = 0; i < n; i++) xs[i] = body()`. -/
def each (body : StateT σ Option α) : (n : Nat) → StateT σ Option (Fin n → α)
  | 0 => Pure.pure Fin.elim0
  | n + 1 => do
    let xs ← each body n
    let x ← body
    return @Fin.snoc n (fun _ => α) xs x

theorem Draws.each {body : StateT σ Option α} {c : Nat} {v : Nat → α}
    (draws : Draws located body c v) (n : Nat) :
    Draws located (Streams.each body n) (n * c) fun pos (i : Fin n) => v (pos + i * c) := by
  induction n with
  | zero =>
    intro st pos start
    refine ⟨st, congrArg (fun xs => some (xs, st)) (funext fun i => i.elim0), ?_⟩
    rwa [Nat.zero_mul]
  | succ n ih =>
    intro st pos start
    have last := fun xs => draws.map (@Fin.snoc n (fun _ => α) xs)
    obtain ⟨st', run, final⟩ := (ih.bind last) st pos start
    refine ⟨st', run.trans (congrArg (fun xs => some (xs, st')) ?_), by rwa [Nat.succ_mul]⟩
    funext i
    induction i using Fin.lastCases with
    | last => exact Fin.snoc_last _ _
    | cast i => exact Fin.snoc_castSucc _ _ i

end Draws

end Streams
