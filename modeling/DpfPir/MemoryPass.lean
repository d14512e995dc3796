import Mathlib.Data.List.FinRange
import Mathlib.Logic.Function.Basic
import Mathlib.Order.Basic
import Mathlib.Tactic.Common

/-!
# Passes over memory

Loops that fill a range of memory from another range, which may overlap it, cell by cell
or a few cells at a time.

Results:
1. `forIdx_image`: the rule for a loop over an index.
2. `fill_mapped`: a step that reads a few cells before it writes them extends the mapped
   range, as long as the destination does not start inside the rest of the source.
3. `pass_eq`: a pass cell by cell maps the whole range.
-/

namespace MemoryPass

/-! ## Loops -/

/-- `for (; idx < stop; idx += step) body`. The index is what is left in the variable. -/
def forIdx {σ : Type*} (step : Nat) (pos : 0 < step) (stop : Int) (body : Nat → σ → σ) (idx : Nat)
    (s : σ) : Nat × σ :=
  if (idx : Int) < stop then forIdx step pos stop body (idx + step) (body idx s) else (idx, s)
termination_by (stop - idx).toNat
decreasing_by omega

theorem forIdx_below {σ : Type*} {step : Nat} (pos : 0 < step) {stop : Int}
    (body : Nat → σ → σ) {idx : Nat} (below : (idx : Int) < stop) (s : σ) :
    forIdx step pos stop body idx s = forIdx step pos stop body (idx + step) (body idx s) := by
  rw [forIdx, if_pos below]

theorem forIdx_done {σ : Type*} {step : Nat} (pos : 0 < step) {stop : Int}
    (body : Nat → σ → σ) {idx : Nat} (done : stop ≤ idx) (s : σ) :
    forIdx step pos stop body idx s = (idx, s) := by
  rw [forIdx, if_neg (Int.not_lt.mpr done)]

/-- A negative bound stops the loop where zero does. -/
theorem forIdx_toNat {σ : Type*} {step : Nat} (pos : 0 < step) (stop : Int) (body : Nat → σ → σ)
    (idx : Nat) (s : σ) :
    forIdx step pos stop body idx s = forIdx step pos stop.toNat body idx s := by
  fun_induction forIdx step pos stop body idx s with
  | case1 idx s below ih => exact ih.trans (forIdx_below pos body (by omega) s).symm
  | case2 idx s above => exact (forIdx_done pos body (by omega) s).symm

/-- A loop whose body takes `image idx` to `image (idx + step)` ends in the last image. -/
theorem forIdx_image {σ : Type*} {step : Nat} (pos : 0 < step) (body : Nat → σ → σ)
    (image : Nat → σ) {stop idx : Nat} (whole : step ∣ stop - idx) (below : idx ≤ stop)
    (advance : ∀ k, k + step ≤ stop → body k (image k) = image (k + step)) :
    forIdx step pos stop body idx (image idx) = (stop, image stop) := by
  obtain ⟨steps, count⟩ := whole
  induction steps generalizing idx with
  | zero =>
    obtain rfl : idx = stop := by omega
    exact forIdx_done pos body le_rfl _
  | succ steps ih =>
    rw [Nat.mul_succ] at count
    rw [forIdx_below pos body (by omega), advance idx (by omega)]
    exact ih (by omega) (by omega)

/-! ## Ranges -/

variable {α : Type*}

/-- The first `n` cells of the destination hold the images of those of the source. -/
def mapped (src dst : Nat) (f : Nat → α → α) (n : Nat) (mem : Nat → α) : Nat → α :=
  fun a => if dst ≤ a ∧ a < dst + n then f (a - dst) (mem (src + (a - dst))) else mem a

/-- The stores of `lanes` cells from `dst` on. -/
def fill (dst lanes : Nat) (value : Nat → α) (mem : Nat → α) : Nat → α :=
  (List.range lanes).foldl (fun mem j => Function.update mem (dst + j) (value j)) mem

theorem fill_apply (dst lanes : Nat) (value : Nat → α) (mem : Nat → α) (a : Nat) :
    fill dst lanes value mem a =
      if dst ≤ a ∧ a < dst + lanes then value (a - dst) else mem a := by
  induction lanes with
  | zero => rw [if_neg (by omega)]; rfl
  | succ lanes ih =>
    unfold fill at ih ⊢
    rw [List.range_succ, List.foldl_append, List.foldl_cons, List.foldl_nil]
    by_cases last : a = dst + lanes
    · rw [last, Function.update_self, if_pos (by omega), Nat.add_sub_cancel_left]
    · rw [Function.update_of_ne last, ih]
      refine if_congr ?_ rfl rfl
      omega

theorem mapped_zero (src dst : Nat) (f : Nat → α → α) (mem : Nat → α) :
    mapped src dst f 0 mem = mem := by
  funext a
  exact if_neg (by omega)

theorem mapped_inside (src dst : Nat) (f : Nat → α → α) {n i : Nat} (mem : Nat → α)
    (inside : i < n) : mapped src dst f n mem (dst + i) = f i (mem (src + i)) := by
  unfold mapped
  rw [if_pos (by omega), Nat.add_sub_cancel_left]

theorem mapped_outside {src dst n a : Nat} (f : Nat → α → α) (mem : Nat → α)
    (outside : a < dst ∨ dst + n ≤ a) : mapped src dst f n mem a = mem a :=
  if_neg (by omega)

/-- A pass may write where it has read, not where it has still to read. -/
def Ahead (src dst n : Nat) : Prop := dst ≤ src ∨ src + n ≤ dst

/-- Cells that are still to be read hold what they held at the start. -/
theorem mapped_source {src dst n k j : Nat} (ahead : Ahead src dst n) (f : Nat → α → α)
    (mem : Nat → α) (unread : k ≤ j) (inside : j < n) :
    mapped src dst f k mem (src + j) = mem (src + j) := by
  refine if_neg ?_
  cases ahead with
  | inl before => omega
  | inr after => omega

/-- Reading `lanes` cells and then writing their images extends the mapped range. -/
theorem fill_mapped {src dst n k lanes : Nat} (ahead : Ahead src dst n) (f : Nat → α → α)
    (mem : Nat → α) (inside : k + lanes ≤ n) {value : Nat → α}
    (images : ∀ j < lanes, value j = f (k + j) (mapped src dst f k mem (src + (k + j)))) :
    fill (dst + k) lanes value (mapped src dst f k mem) = mapped src dst f (k + lanes) mem := by
  funext a
  rw [fill_apply]
  by_cases new : dst + k ≤ a ∧ a < dst + k + lanes
  · have number : k + (a - (dst + k)) = a - dst := by omega
    rw [if_pos new, images _ (by omega), mapped_source ahead f mem (by omega) (by omega), number]
    exact (if_pos (by omega)).symm
  · rw [if_neg new]
    refine if_congr ?_ rfl rfl
    omega

/-- `for (i = 0; i < n; ++i) dst[i] = f(i, src[i])`. -/
def pass (n src dst : Nat) (f : Nat → α → α) (mem : Nat → α) : Nat → α :=
  (forIdx 1 Nat.one_pos n (fun i mem => Function.update mem (dst + i) (f i (mem (src + i)))) 0
    mem).2

/-- A store of one image extends the mapped range by one cell. -/
theorem update_mapped {src dst n k : Nat} (ahead : Ahead src dst n) (f : Nat → α → α)
    (mem : Nat → α) (inside : k < n) {v : α}
    (image : v = f k (mapped src dst f k mem (src + k))) :
    Function.update (mapped src dst f k mem) (dst + k) v = mapped src dst f (k + 1) mem := by
  have images : ∀ j < 1, v = f (k + j) (mapped src dst f k mem (src + (k + j))) := by
    intro j single
    rwa [Nat.lt_one_iff.mp single]
  exact fill_mapped ahead f mem inside images

theorem pass_eq {n src dst : Nat} (ahead : Ahead src dst n) (f : Nat → α → α) (mem : Nat → α) :
    pass n src dst f mem = mapped src dst f n mem := by
  have advance : ∀ k, k + 1 ≤ n →
      Function.update (mapped src dst f k mem) (dst + k)
          (f k (mapped src dst f k mem (src + k))) = mapped src dst f (k + 1) mem :=
    fun k inside => update_mapped ahead f mem inside rfl
  have loop := forIdx_image Nat.one_pos
    (fun k mem => Function.update mem (dst + k) (f k (mem (src + k))))
    (fun k => mapped src dst f k mem) (Nat.one_dvd (n - 0)) (Nat.zero_le n) advance
  rw [mapped_zero] at loop
  exact congrArg Prod.snd loop

/-- Two passes in a row, the second in place. -/
theorem mapped_mapped (n src dst : Nat) (f g : Nat → α → α) (mem : Nat → α) :
    mapped dst dst g n (mapped src dst f n mem) = mapped src dst (fun i v => g i (f i v)) n mem := by
  funext a
  unfold mapped
  by_cases inside : dst ≤ a ∧ a < dst + n
  · have number : dst + (a - dst) = a := by omega
    rw [if_pos inside, if_pos inside, number, if_pos inside]
  · rw [if_neg inside, if_neg inside, if_neg inside]

end MemoryPass
