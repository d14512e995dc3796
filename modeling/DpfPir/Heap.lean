import Mathlib.Algebra.BigOperators.Group.Finset.Basic
import Mathlib.Algebra.Order.Group.Multiset
import Mathlib.Data.Fin.Tuple.Basic
import DpfPir.ParallelLoop

/-!
# Programs on a heap

Memory that `malloc` hands out in chunks and `free` takes back. It is an error to free a
chunk that is not allocated, to read or write one, or past its end, and to read a cell
that has not been written.

Results:
1. `Spec.malloc_bind`, `Spec.free_bind`, `Spec.loadAs_bind`, `Spec.store_bind`: one rule for
   each operation. A triple says that a program ends without an error, and what exactly is
   allocated afterwards; chunks that it does not mention are untouched.
2. `Spec.call`: the rule of a call, which frames what the callee does not use.
3. `Triple.simulates`: a parallel loop on the heap leaves what a loop without a heap
   computes, when every iteration does.
-/

namespace Heap

open ParallelLoop

variable {V α γ : Type}

/-- What one call of `malloc` returns: cells that hold a value or have not been written. -/
structure Chunk (V : Type) where
  length : Nat
  cells : Fin length → Option V

/-- The chunks in the order of their allocation; a pointer is a position in the list. A chunk
that was freed is `none`, and its position is not used again. -/
abbrev Memory (V : Type) := List (Option (Chunk V))

/-- A program that fails where its behaviour is undefined. -/
abbrev HeapM (V : Type) := StateT (Memory V) Option

def Chunk.read (c : Chunk V) (i : Nat) : Option V :=
  if inside : i < c.length then c.cells ⟨i, inside⟩ else none

def Chunk.write (c : Chunk V) (i : Nat) (v : V) : Option (Chunk V) :=
  if inside : i < c.length then
    some { c with cells := Function.update c.cells ⟨i, inside⟩ (some v) }
  else none

/-- The chunk at a pointer. -/
def Memory.at (m : Memory V) (p : Nat) : Option (Chunk V) := m[p]?.join

/-- Memory for `n` values, with nothing in it. There is always enough of it. -/
def Chunk.blank (n : Nat) : Chunk V where
  length := n
  cells := fun _ => none

def malloc (n : Nat) : HeapM V Nat := fun m => some (m.length, m ++ [some (Chunk.blank n)])

/-- The null pointer may be freed. -/
def free : Option Nat → HeapM V Unit
  | none => pure ()
  | some p => fun m => do
    let _ ← m.at p
    return ((), m.set p none)

def load (p i : Nat) : HeapM V V := fun m => do
  let c ← m.at p
  let v ← c.read i
  return (v, m)

/-- A read of a value that has to be of a certain kind. -/
def loadAs (view : V → Option α) (p i : Nat) : HeapM V α := do
  let v ← load p i
  fun m => (view v).map fun a => (a, m)

def store (p i : Nat) (v : V) : HeapM V Unit := fun m => do
  let c ← m.at p
  let c' ← c.write i v
  return ((), m.set p (some c'))

/-- The pointer, which must not be null. -/
def nonnull : Option Nat → HeapM V Nat
  | none => fun _ => none
  | some p => pure p

/-- A parallel loop whose iterations use the heap. -/
def runM {threads n : Nat} {σ : Type} (s : Schedule threads n)
    (body : Fin n → Fin threads → σ → HeapM V σ) (init : σ) : HeapM V σ :=
  s.order.foldlM (fun state it => body it.1 it.2 state) init

/-- A `for` loop over an array. -/
def forLoop (n : Nat) (body : Fin n → HeapM V Unit) : HeapM V Unit :=
  runM (Schedule.static 1 n Nat.one_pos) (fun i _ _ => body i) ()

/-! ## What is allocated -/

/-- The chunks of a part of the memory, each with its pointer. -/
abbrev Assertion (V : Type) := Multiset (Nat × Chunk V)

def own (p : Nat) (c : Chunk V) : Assertion V := {(p, c)}

/-- The chunk at a pointer that may be null. -/
def ownAt : Option Nat → Chunk V → Assertion V
  | none, _ => 0
  | some p, c => own p c

/-- The memory consists of exactly these chunks. -/
structure Holds (m : Memory V) (A : Assertion V) : Prop where
  nodup : (A.map Prod.fst).Nodup
  mem_iff : ∀ p c, (p, c) ∈ A ↔ m.at p = some c

@[simp] theorem mem_own {p q : Nat} {c d : Chunk V} : (p, c) ∈ own q d ↔ p = q ∧ c = d := by
  rw [own, Multiset.mem_singleton, Prod.mk.injEq]

theorem mem_own_add {p : Nat} {c : Chunk V} {A : Assertion V} : (p, c) ∈ own p c + A :=
  Multiset.mem_add.mpr (.inl (mem_own.mpr ⟨rfl, rfl⟩))

theorem Memory.lt_of_at {m : Memory V} {p : Nat} {c : Chunk V} (there : m.at p = some c) :
    p < m.length := by
  by_contra past
  rw [Memory.at, List.getElem?_eq_none (Nat.le_of_not_lt past)] at there
  exact absurd there (Option.some_ne_none c).symm

theorem Memory.at_set {m : Memory V} {p : Nat} (inside : p < m.length) (c : Option (Chunk V))
    (q : Nat) : Memory.at (m.set p c) q = if q = p then c else m.at q := by
  unfold Memory.at
  by_cases same : q = p
  · subst same
    rw [if_pos rfl, List.getElem?_set_self inside]
    rfl
  · rw [if_neg same, List.getElem?_set_ne (Ne.symm same)]

theorem Memory.at_append {m : Memory V} (c : Chunk V) (q : Nat) :
    Memory.at (m ++ [some c]) q = if q = m.length then some c else m.at q := by
  unfold Memory.at
  rcases Nat.lt_trichotomy q m.length with before | last | past
  · rw [if_neg before.ne, List.getElem?_append_left before]
  · rw [if_pos last, last, List.getElem?_concat_length]
    rfl
  · rw [if_neg past.ne', List.getElem?_eq_none past.le, List.getElem?_eq_none]
    rw [List.length_append]
    exact past

namespace Holds

variable {m : Memory V} {A : Assertion V} {p : Nat} {c : Chunk V}

theorem at_own (holds : Holds m (own p c + A)) : m.at p = some c :=
  (holds.mem_iff p c).mp mem_own_add

/-- A pointer has one chunk. -/
theorem notMem_rest (holds : Holds m (own p c + A)) : p ∉ A.map Prod.fst := by
  have nodup := holds.nodup
  rw [own, Multiset.singleton_add, Multiset.map_cons, Multiset.nodup_cons] at nodup
  exact nodup.1

theorem nodup_rest (holds : Holds m (own p c + A)) : (A.map Prod.fst).Nodup := by
  have nodup := holds.nodup
  rw [own, Multiset.singleton_add, Multiset.map_cons, Multiset.nodup_cons] at nodup
  exact nodup.2

theorem ne_of_mem (holds : Holds m (own p c + A)) {q : Nat} {d : Chunk V} (mem : (q, d) ∈ A) :
    q ≠ p := by
  rintro rfl
  exact holds.notMem_rest (Multiset.mem_map_of_mem Prod.fst mem)

theorem empty : Holds (V := V) [] 0 where
  nodup := Multiset.nodup_zero
  mem_iff _ c := ⟨fun mem => absurd mem (Multiset.notMem_zero _),
    fun there => absurd there (Option.some_ne_none c).symm⟩

theorem malloc (holds : Holds m A) (c : Chunk V) :
    Holds (m ++ [some c]) (own m.length c + A) where
  nodup := by
    rw [own, Multiset.singleton_add, Multiset.map_cons, Multiset.nodup_cons]
    refine ⟨fun mem => ?_, holds.nodup⟩
    obtain ⟨⟨q, d⟩, there, rfl⟩ := Multiset.mem_map.mp mem
    exact absurd (Memory.lt_of_at ((holds.mem_iff _ _).mp there)) (Nat.lt_irrefl _)
  mem_iff q d := by
    rw [Memory.at_append, Multiset.mem_add, mem_own, holds.mem_iff]
    by_cases last : q = m.length
    · subst last
      rw [if_pos rfl]
      constructor
      · rintro (⟨-, rfl⟩ | there)
        · rfl
        · exact absurd (Memory.lt_of_at there) (Nat.lt_irrefl _)
      · intro same
        exact .inl ⟨rfl, (Option.some.inj same).symm⟩
    · rw [if_neg last]
      exact ⟨fun either => either.elim (fun new => absurd new.1 last) id, .inr⟩

theorem free (holds : Holds m (own p c + A)) : Holds (m.set p none) A where
  nodup := holds.nodup_rest
  mem_iff q d := by
    rw [Memory.at_set (Memory.lt_of_at holds.at_own)]
    by_cases same : q = p
    · subst same
      rw [if_pos rfl]
      exact ⟨fun mem => absurd rfl (holds.ne_of_mem mem), fun none => absurd none (by simp)⟩
    · rw [if_neg same, ← holds.mem_iff, Multiset.mem_add, mem_own]
      exact ⟨.inr, fun either => either.elim (fun here => absurd here.1 same) id⟩

theorem store (holds : Holds m (own p c + A)) (c' : Chunk V) :
    Holds (m.set p (some c')) (own p c' + A) where
  nodup := by
    rw [own, Multiset.singleton_add, Multiset.map_cons, Multiset.nodup_cons]
    exact ⟨holds.notMem_rest, holds.nodup_rest⟩
  mem_iff q d := by
    rw [Memory.at_set (Memory.lt_of_at holds.at_own), Multiset.mem_add, mem_own]
    by_cases same : q = p
    · subst same
      rw [if_pos rfl, Option.some.injEq]
      exact ⟨fun either => either.elim (fun here => here.2.symm)
        fun mem => absurd rfl (holds.ne_of_mem mem), fun same => .inl ⟨rfl, same.symm⟩⟩
    · rw [if_neg same, ← holds.mem_iff, Multiset.mem_add, mem_own]
      exact ⟨fun either => either.elim (fun here => absurd here.1 same) .inr,
        fun either => either.elim (fun here => absurd here.1 same) .inr⟩

end Holds

/-- How many cells are allocated. -/
def cells (A : Assertion V) : Nat := (A.map fun x => x.2.length).sum

@[simp] theorem cells_zero : cells (0 : Assertion V) = 0 := rfl

@[simp] theorem cells_own (p : Nat) (c : Chunk V) : cells (own p c) = c.length :=
  (congrArg Multiset.sum (Multiset.map_singleton _ _)).trans (Multiset.sum_singleton _)

@[simp] theorem cells_add (A B : Assertion V) : cells (A + B) = cells A + cells B := by
  rw [cells, Multiset.map_add, Multiset.sum_add]
  rfl

theorem cells_sum {n : Nat} (f : Fin n → Assertion V) : cells (∑ i, f i) = ∑ i, cells (f i) :=
  map_sum (⟨⟨cells, cells_zero⟩, cells_add⟩ : Assertion V →+ Nat) f Finset.univ

/-! ## Arrays -/

section Arrays

variable {n k : Nat} {g : α → V}

/-- An array of which every cell has been written. -/
def Chunk.full (f : Fin n → V) : Chunk V where
  length := n
  cells := fun i => some (f i)

/-- A chunk after the cells in `S` have been written. -/
def Chunk.overlay (c : Chunk V) (S : Finset (Fin n)) (f : Fin n → V) : Chunk V where
  length := c.length
  cells := fun j => if inside : j.val < n then
    if ⟨j, inside⟩ ∈ S then some (f ⟨j, inside⟩) else c.cells j else c.cells j

@[simp] theorem overlay_empty (c : Chunk V) (f : Fin n → V) : c.overlay ∅ f = c := by
  unfold Chunk.overlay
  congr
  funext j
  simp

@[simp] theorem overlay_univ (f : Fin n → V) :
    (Chunk.blank n).overlay Finset.univ f = Chunk.full f := by
  unfold Chunk.overlay Chunk.full Chunk.blank
  congr
  funext j
  simp

theorem read_overlay {c : Chunk V} {S : Finset (Fin n)} {f : Fin n → V} {i : Fin n}
    (place : k = i.val) (room : i.val < c.length) (mem : i ∈ S) :
    (c.overlay S f).read k = some (f i) := by
  subst place
  exact (dif_pos room).trans ((dif_pos i.isLt).trans (if_pos mem))

theorem read_full {f : Fin n → V} {i : Fin n} (place : k = i.val) :
    (Chunk.full f).read k = some (f i) := by
  rw [← overlay_univ]
  exact read_overlay place i.isLt (Finset.mem_univ i)

theorem write_overlay {c : Chunk V} {S : Finset (Fin n)} {a : Fin n → α} {i : Fin n}
    (place : k = i.val) (room : i.val < c.length) (v : α) :
    (c.overlay S fun j => g (a j)).write k (g v) =
      some (c.overlay (insert i S) fun j => g (Function.update a i v j)) := by
  subst place
  unfold Chunk.write
  rw [dif_pos (show i.val < (c.overlay S fun j => g (a j)).length from room)]
  unfold Chunk.overlay
  congr
  funext j
  by_cases same : j.val = i.val
  · obtain rfl : j = ⟨i.val, room⟩ := Fin.ext same
    simp
  · have apart : j ≠ ⟨i.val, room⟩ := fun eq => same (congrArg Fin.val eq)
    rw [Function.update_of_ne apart]
    by_cases inside : j.val < n
    · have other : (⟨j.val, inside⟩ : Fin n) ≠ i := fun eq => same (congrArg Fin.val eq)
      simp [inside, other]
    · simp [inside]

theorem write_single (v : V) :
    (Chunk.blank 1).write 0 v = some (@Chunk.full V 1 fun _ => v) := by
  rw [← overlay_empty (Chunk.blank 1) fun _ : Fin 1 => v]
  refine (write_overlay (c := Chunk.blank 1) (g := id) (i := (0 : Fin 1)) rfl Nat.one_pos
    v).trans ?_
  have whole : (insert 0 ∅ : Finset (Fin 1)) = Finset.univ := by decide
  rw [whole, overlay_univ]
  have same : Function.update (fun _ : Fin 1 => v) 0 v = fun _ => v := Function.update_eq_self _ _
  rw [same]
  rfl

/-- A write of the value that an array is to have. -/
theorem write_entry {c : Chunk V} {S : Finset (Fin n)} {a : Fin n → α} {i : Fin n}
    (place : k = i.val) (room : i.val < c.length) :
    (c.overlay S fun j => g (a j)).write k (g (a i)) =
      some (c.overlay (insert i S) fun j => g (a j)) := by
  rw [write_overlay place room, Function.update_eq_self]

theorem write_full {a : Fin n → α} {i : Fin n} (place : k = i.val) (v : α) :
    (Chunk.full fun j => g (a j)).write k (g v) =
      some (Chunk.full fun j => g (Function.update a i v j)) := by
  rw [← overlay_univ, write_overlay place i.isLt, Finset.insert_eq_of_mem (Finset.mem_univ i),
    overlay_univ]

/-- A write behind the cells that have been written so far. -/
theorem write_snoc {c : Chunk V} {a : Fin n → α} (room : n < c.length) (v : α) :
    (c.overlay Finset.univ fun j => g (a j)).write n (g v) =
      some (c.overlay Finset.univ fun j : Fin (n + 1) => g (@Fin.snoc n (fun _ => α) a v j)) := by
  unfold Chunk.write
  rw [dif_pos (show n < (c.overlay Finset.univ fun j => g (a j)).length from room)]
  unfold Chunk.overlay
  congr
  funext j
  rcases Nat.lt_trichotomy j.val n with before | here | after
  · have apart : j ≠ ⟨n, room⟩ := fun eq => before.ne (congrArg Fin.val eq)
    rw [Function.update_of_ne apart]
    simp [before, before.trans (Nat.lt_succ_self n), Fin.snoc]
  · obtain rfl : j = ⟨n, room⟩ := Fin.ext here
    simp [Fin.snoc]
  · have apart : j ≠ ⟨n, room⟩ := fun eq => after.ne' (congrArg Fin.val eq)
    rw [Function.update_of_ne apart]
    have past : ¬ j.val < n + 1 := Nat.not_lt_of_ge after
    simp [after.not_gt, past]

end Arrays

/-! ## Triples -/

/-- What a program does in memory that consists of `A` and a rest. The goal speaks of the rest
and of the outcome, which is `none` where the behaviour is undefined. -/
def Spec (A : Assertion V) (x : HeapM V α) (goal : Assertion V → Option (α × Memory V) → Prop) :
    Prop :=
  ∀ rest m, Holds m (A + rest) → goal rest (x m)

/-- The program ends without an error, and the memory then consists of what `Q` says of the
result and the same rest. -/
def Ends (Q : α → Assertion V → Prop) (rest : Assertion V) (outcome : Option (α × Memory V)) :
    Prop :=
  ∃ a m' B, outcome = some (a, m') ∧ Q a B ∧ Holds m' (B + rest)

abbrev Triple (A : Assertion V) (x : HeapM V α) (Q : α → Assertion V → Prop) : Prop :=
  Spec A x (Ends Q)

/-- The program runs into an error. -/
abbrev Fails (A : Assertion V) (x : HeapM V α) : Prop := Spec A x fun _ outcome => outcome = none

section Rules

variable {A B C : Assertion V} {x : HeapM V α} {f : α → HeapM V γ} {R : α → Assertion V → Prop}
  {Q : γ → Assertion V → Prop} {goal : Assertion V → Option (γ × Memory V) → Prop} {p : Nat}
  {c : Chunk V}

namespace Spec

/-- The rule of a call: the callee uses `A`, and `C` is kept for the caller. -/
theorem call (callee : Triple A x R) (parts : B = A + C)
    (next : ∀ a D, R a D → Spec (D + C) (f a) goal) : Spec B (x >>= f) goal := by
  intro rest m start
  subst parts
  rw [add_assoc] at start
  obtain ⟨a, m', D, ran, result, holds⟩ := callee (C + rest) m start
  rw [← add_assoc] at holds
  show goal rest ((x m).bind fun s => f s.1 s.2)
  rw [ran]
  exact next a D result rest m' holds

theorem bind (first : Triple A x R) (next : ∀ a B, R a B → Spec B (f a) goal) :
    Spec A (x >>= f) goal :=
  call first (add_zero A).symm fun a B result => by
    rw [add_zero]
    exact next a B result

theorem malloc_bind {n : Nat} {f : Nat → HeapM V γ}
    (next : ∀ p, Spec (own p (Chunk.blank n) + A) (f p) goal) : Spec A (malloc n >>= f) goal := by
  intro rest m start
  have holds := start.malloc (Chunk.blank n)
  rw [← add_assoc] at holds
  exact next m.length rest _ holds

theorem free_bind {f : Unit → HeapM V γ} (parts : B = own p c + A)
    (next : Spec A (f ()) goal) : Spec B (free (some p) >>= f) goal := by
  intro rest m start
  subst parts
  rw [add_assoc] at start
  show goal rest (((m.at p).bind _).bind _)
  rw [start.at_own]
  exact next rest _ start.free

/-- A pointer that may be null can be freed, with the chunk that it has if it is not. -/
theorem freeAt_bind {f : Unit → HeapM V γ} {q : Option Nat} (parts : B = ownAt q c + A)
    (next : Spec A (f ()) goal) : Spec B (free q >>= f) goal := by
  cases q with
  | none =>
    rw [parts, ownAt, zero_add]
    exact next
  | some p => exact free_bind parts next

theorem loadAs_bind {view : V → Option α} {i : Nat} {v : V} {a : α} (mem : (p, c) ∈ A)
    (read : c.read i = some v) (kind : view v = some a) (next : Spec A (f a) goal) :
    Spec A (loadAs view p i >>= f) goal := by
  intro rest m start
  have there := (start.mem_iff p c).mp (Multiset.mem_add.mpr (.inl mem))
  have value : loadAs view p i m = some (a, m) := by
    show (((m.at p).bind fun c => (c.read i).bind fun v => some (v, m)).bind
      fun s => (view s.1).map fun a => (a, s.2)) = some (a, m)
    rw [there, Option.bind_some, read, Option.bind_some, Option.bind_some, kind]
    rfl
  show goal rest ((loadAs view p i m).bind fun s => f s.1 s.2)
  rw [value]
  exact next rest m start

theorem store_bind {i : Nat} {v : V} {c' : Chunk V} {f : Unit → HeapM V γ}
    (parts : B = own p c + A) (write : c.write i v = some c')
    (next : Spec (own p c' + A) (f ()) goal) : Spec B (store p i v >>= f) goal := by
  intro rest m start
  subst parts
  rw [add_assoc] at start
  have stored := start.store c'
  rw [← add_assoc] at stored
  show goal rest ((((m.at p).bind fun c => (c.write i v).bind
    fun c' => some ((), m.set p (some c')))).bind fun s => f s.1 s.2)
  rw [start.at_own, Option.bind_some, write]
  exact next rest _ stored

theorem nonnull_bind {f : Nat → HeapM V γ} (next : Spec A (f p) goal) :
    Spec A (nonnull (some p) >>= f) goal := next

/-- The last command of a program. -/
theorem last {x : HeapM V γ} (spec : Spec A (x >>= Pure.pure) goal) : Spec A x goal := by
  rwa [bind_pure] at spec

end Spec

theorem Triple.pure {a : γ} (holds : Q a A) : Triple A (pure a) Q := fun _ m start =>
  ⟨a, m, A, rfl, holds, start⟩

theorem Triple.post {x : HeapM V γ} {R : γ → Assertion V → Prop} (triple : Triple A x R)
    (weaker : ∀ a B, R a B → Q a B) : Triple A x Q := by
  intro rest m start
  obtain ⟨a, m', B, ran, result, holds⟩ := triple rest m start
  exact ⟨a, m', B, ran, weaker a B result, holds⟩

/-- A write past the end of a chunk. -/
theorem Fails.store {i : Nat} {v : V} {f : Unit → HeapM V γ} (mem : (p, c) ∈ A)
    (past : c.length ≤ i) : Fails A (store p i v >>= f) := by
  intro rest m start
  have there := (start.mem_iff p c).mp (Multiset.mem_add.mpr (.inl mem))
  have outside : c.write i v = none := dif_neg (Nat.not_lt_of_le past)
  show (((m.at p).bind fun c => (c.write i v).bind
    fun c' => some ((), m.set p (some c')))).bind (fun s => f s.1 s.2) = none
  rw [there, Option.bind_some, outside]
  rfl

theorem Fails.frame (fails : Fails A x) (parts : B = A + C) : Fails B x := by
  intro rest m start
  rw [parts, add_assoc] at start
  exact fails (C + rest) m start

theorem Fails.bind (fails : Fails A x) : Fails A (x >>= f) := by
  intro rest m start
  show (x m).bind (fun s => f s.1 s.2) = none
  rw [fails rest m start]
  rfl

end Rules

/-! ## Loops -/

section Loops

variable {threads n : Nat} {σ τ : Type} {A : Assertion V}

theorem foldlM_simulates {body : Fin n → Fin threads → σ → HeapM V σ}
    {body' : Fin n → Fin threads → τ → τ} {I : Finset (Fin n) → τ → σ → Assertion V → Prop}
    (step : ∀ S i t state' state B, i ∉ S → I S state' state B →
      Triple B (body i t state) (I (insert i S) (body' i t state')))
    (order : List (Fin n × Fin threads)) (nodup : (order.map Prod.fst).Nodup)
    (S : Finset (Fin n)) (fresh : ∀ it ∈ order, it.1 ∉ S) (state' : τ) (state : σ)
    (start : I S state' state A) :
    Triple A (order.foldlM (fun state it => body it.1 it.2 state) state)
      (I (S ∪ (order.map Prod.fst).toFinset)
        (order.foldl (fun state it => body' it.1 it.2 state) state')) := by
  induction order generalizing S state' state A with
  | nil =>
    refine Triple.pure ?_
    simpa using start
  | cons it rest ih =>
    rw [List.map_cons, List.nodup_cons] at nodup
    have later : ∀ other ∈ rest, other.1 ∉ insert it.1 S := by
      intro other mem
      rw [Finset.mem_insert, not_or]
      refine ⟨fun same => ?_, fresh other (List.mem_cons_of_mem _ mem)⟩
      exact nodup.1 (same ▸ List.mem_map_of_mem mem)
    rw [List.foldlM_cons, List.foldl_cons, List.map_cons, List.toFinset_cons,
      Finset.union_insert, ← Finset.insert_union]
    refine Spec.bind (step S it.1 it.2 state' state A (fresh it List.mem_cons_self) start) ?_
    intro next B holds
    exact ih nodup.2 (insert it.1 S) later (body' it.1 it.2 state') next holds

/-- A parallel loop on the heap simulates a parallel loop without one, when every
iteration does. -/
theorem Triple.simulates (s : Schedule threads n) {body : Fin n → Fin threads → σ → HeapM V σ}
    (body' : Fin n → Fin threads → τ → τ) {I : Finset (Fin n) → τ → σ → Assertion V → Prop}
    {init : σ} (init' : τ) (start : I ∅ init' init A)
    (step : ∀ S i t state' state B, i ∉ S → I S state' state B →
      Triple B (body i t state) (I (insert i S) (body' i t state'))) :
    Triple A (runM s body init) (I Finset.univ (s.run body' init')) := by
  have all : (s.order.map Prod.fst).toFinset = Finset.univ := by
    refine Finset.eq_univ_of_forall fun i => ?_
    rw [List.mem_toFinset]
    exact s.exactlyOnce.mem_iff.mpr (List.mem_finRange i)
  have final := foldlM_simulates step s.order s.nodup_order ∅
    (fun _ _ => Finset.notMem_empty _) init' init start
  rwa [Finset.empty_union, all] at final

/-- A parallel loop of which an iteration runs into an error, whatever has run before it. -/
theorem Fails.runM (s : Schedule threads n) {body : Fin n → Fin threads → σ → HeapM V σ}
    {I : Finset (Fin n) → σ → Assertion V → Prop} (good : Fin n → Prop) {init : σ}
    (start : I ∅ init A)
    (step : ∀ S i t state B, i ∉ S → good i → I S state B →
      Triple B (body i t state) (I (insert i S)))
    (error : ∀ S i t state B, i ∉ S → ¬ good i → I S state B → Fails B (body i t state))
    {i : Fin n} (bad : ¬ good i) : Fails A (runM s body init) := by
  have runs : ∀ (order : List (Fin n × Fin threads)) (S : Finset (Fin n)) (state : σ)
      (A : Assertion V), (order.map Prod.fst).Nodup → (∀ it ∈ order, it.1 ∉ S) →
      i ∈ order.map Prod.fst → I S state A →
      Fails A (order.foldlM (fun state it => body it.1 it.2 state) state) := by
    intro order
    induction order with
    | nil => exact fun _ _ _ _ _ mem => absurd mem List.not_mem_nil
    | cons it rest ih =>
      intro S state A nodup fresh mem holds
      rw [List.foldlM_cons]
      rw [List.map_cons, List.nodup_cons] at nodup
      by_cases fine : good it.1
      · rw [List.map_cons, List.mem_cons] at mem
        have left : i ∈ rest.map Prod.fst := mem.resolve_left fun same => bad (same ▸ fine)
        refine Spec.bind (step S it.1 it.2 state A (fresh it List.mem_cons_self) fine holds) ?_
        intro next B holds
        refine ih (insert it.1 S) next B nodup.2 (fun other mem => ?_) left holds
        rw [Finset.mem_insert, not_or]
        exact ⟨fun same => nodup.1 (same ▸ List.mem_map_of_mem mem),
          fresh other (List.mem_cons_of_mem _ mem)⟩
      · exact Fails.bind (error S it.1 it.2 state A (fresh it List.mem_cons_self) fine holds)
  exact runs s.order ∅ init A s.nodup_order (fun _ _ => Finset.notMem_empty _)
    (s.exactlyOnce.mem_iff.mpr (List.mem_finRange i)) start

/-- A loop that fills an array. -/
theorem Triple.forLoop_store {p : Nat} (g : α → V) (f : Fin n → α) :
    Triple (own p (Chunk.blank n)) (forLoop n fun i => store p i (g (f i)))
      fun _ B => B = own p (Chunk.full fun i => g (f i)) := by
  refine (Triple.simulates _ (fun _ _ st => st)
    (I := fun S (_ : Unit) _ B => B = own p ((Chunk.blank n).overlay S fun i => g (f i))) () ?_
    ?_).post ?_
  · rw [overlay_empty]
  · rintro S i _ _ _ _ _ rfl
    refine Spec.last (Spec.store_bind (add_zero _).symm (write_entry rfl i.isLt)
      (Triple.pure ?_))
    exact add_zero _
  · rintro _ B rfl
    rw [overlay_univ]

end Loops

end Heap
