import DpfPir.InnerProd

/-!
# The second way to compute the authenticated answer

`compute_hato` (`dpf.cpp`, lines 625 to 643) is to compute the second component of
`inner_prod` on several threads. It masks products over 128 bits and sums over 64, and
its loop starts at row 1.

Results:
1. `hatoStep_eq`, `mergeHato_res`: every iteration is defined and adds its product to
   the thread that runs it, and the merge adds up the threads, all modulo `2 ^ w`.
2. `computeHato_eq`: the result is the inner product over all rows but the first.
3. `computeHato_eq_innerProd_iff`: so it is the second component of `inner_prod` if and
   only if the product of the first row vanishes.
-/

namespace DpfPir

open LittleEndian Words ParallelLoop

/-! ## The source function -/

/-- `(__uint128_t(1) << bitlength) - 1`; the shift is defined below the full width. -/
def wideMask (bitlength : Nat) : Option (BitVec 128) :=
  if bitlength < 128 then some ((1#128 <<< bitlength) - 1#128) else none

/-- One accumulation. The product is masked by itself before it is added. -/
def accumulateHato (wide : BitVec 128) (mask acc row entry : BitVec 64) : BitVec 64 :=
  ((acc.setWidth 128 + (row.setWidth 128 * entry.setWidth 128 &&& wide)) &&&
    mask.setWidth 128).setWidth 64

/-- The loop body of `compute_hato`, as it acts on `thread_hatovalue`. -/
def hatoStep (bitlength : Nat) (rotatedIndex : GroupElement) {nt databaseLen outLen : Nat}
    (db : Fin databaseLen → GroupElement) (out : Fin outLen → Fin 2 → GroupElement) (i : Nat)
    (threadId : Fin nt) (st : Option (Fin nt → BitVec 64)) : Option (Fin nt → BitVec 64) := do
  let threadHatovalue ← st
  let ind ← rotatedInd rotatedIndex i
  let wide ← wideMask bitlength
  let mask ← wordMask bitlength
  let row ← access out i
  let entry ← access db ind
  return Function.update threadHatovalue threadId
    (accumulateHato wide mask (threadHatovalue threadId) (row 1).value entry.value)

/-- The merge loop of `compute_hato`. -/
def mergeHato {nt : Nat} (mask : BitVec 64) (threadHatovalue : Fin nt → BitVec 64) : BitVec 64 :=
  merge (fun hatovalue thread => (hatovalue + thread) &&& mask) 0#64 threadHatovalue

/-- `compute_hato`. The loop runs from 1 on, so iteration `j` of the schedule is `i = j + 1`. -/
def computeHato {nt databaseSize : Nat} (s : Schedule nt (databaseSize - 1)) (bitlength : Nat)
    (rotatedIndex : GroupElement) {databaseLen outLen : Nat} (db : Fin databaseLen → GroupElement)
    (out : Fin outLen → Fin 2 → GroupElement) : Option GroupElement := do
  let threadHatovalue ← s.run
    (fun j => hatoStep bitlength rotatedIndex db out (j + 1)) (some fun _ => 0#64)
  let mask ← wordMask bitlength
  return GroupElement.ofValue (mergeHato mask threadHatovalue) bitlength

/-! ## The loop and the merge -/

theorem accumulateHato_toNat {w : Nat} (hw : w < 64) (acc row entry : BitVec 64) :
    (accumulateHato ((1#128 <<< w) - 1#128) ((1#64 <<< w) - 1#64) acc row entry).toNat =
      (acc.toNat + row.toNat * entry.toNat) % 2 ^ w := by
  have bound : 2 ^ w ≤ 2 ^ 64 := Nat.pow_le_pow_right (by decide) hw.le
  have product := toNat_wideSum 0#64 row entry
  have reduced := Nat.mod_lt (row.toNat * entry.toNat) (Nat.two_pow_pos w)
  have final := Nat.mod_lt (acc.toNat + row.toNat * entry.toNat) (Nat.two_pow_pos w)
  have small := acc.isLt
  rw [BitVec.setWidth_zero, BitVec.zero_add, BitVec.toNat_zero, Nat.zero_add] at product
  rw [accumulateHato, BitVec.toNat_setWidth, BitVec.toNat_and, BitVec.toNat_add, BitVec.toNat_and,
    product, mask_toNat (by omega), toNat_wideMask hw, Nat.and_two_pow_sub_one_eq_mod,
    Nat.and_two_pow_sub_one_eq_mod, BitVec.toNat_setWidth, Nat.mod_eq_of_lt (a := acc.toNat)
    (by omega), Nat.mod_eq_of_lt (a := acc.toNat + _) (by omega), Nat.add_mod_mod,
    Nat.mod_eq_of_lt (by omega)]

theorem accumulateHato_residue {w : Nat} (hw : w < 64) (acc row entry : BitVec 64) :
    residue w (accumulateHato ((1#128 <<< w) - 1#128) ((1#64 <<< w) - 1#64) acc row entry) =
      residue w acc + residue w row * residue w entry := by
  rw [residue, accumulateHato_toNat hw, natCast_mod_two_pow le_rfl, Nat.cast_add, Nat.cast_mul]
  rfl

section Hato

variable {n w nt : Nat} {rotatedIndex : GroupElement}

theorem hatoStep_eq (hn : n < 31) (hw : w < 64) (width : rotatedIndex.bitsize = n)
    (db : Fin (2 ^ n) → GroupElement) (out : Fin (2 ^ n) → Fin 2 → GroupElement) (i : Fin (2 ^ n))
    (threadId : Fin nt) (threadHatovalue : Fin nt → BitVec 64) :
    hatoStep w rotatedIndex db out i threadId (some threadHatovalue) =
      some (Function.update threadHatovalue threadId
        (accumulateHato ((1#128 <<< w) - 1#128) ((1#64 <<< w) - 1#64) (threadHatovalue threadId)
          (out i 1).value (db (rotate n rotatedIndex i)).value)) := by
  have wide : wideMask w = some ((1#128 <<< w) - 1#128) := by rw [wideMask, if_pos (by omega)]
  simp only [hatoStep, Option.bind_eq_bind, Option.bind_some]
  rw [rotatedInd_eq hn width, wide, wordMask_of_lt hw, access_of_lt out i.isLt]
  show (access db (rotate n rotatedIndex i).val).bind _ = _
  rw [access_of_lt db (rotate n rotatedIndex i).isLt]
  rfl

/-- The merge loop masks every sum, and adds up the residues of the threads. -/
theorem mergeHato_res (hw : w < 64) (threadHatovalue : Fin nt → BitVec 64) :
    residue w (mergeHato ((1#64 <<< w) - 1#64) threadHatovalue) =
      ∑ t, residue w (threadHatovalue t) := by
  have adds : ∀ a b : BitVec 64, residue w ((a + b) &&& ((1#64 <<< w) - 1#64)) =
      residue w a + residue w b := by
    intro a b
    exact (residue_lowBits hw (a + b)).trans (residue_add hw.le a b)
  have total := (merge_hom (fun hatovalue thread => (hatovalue + thread) &&& ((1#64 <<< w) - 1#64))
    (fun _ => True) (residue w) (fun _ _ _ => trivial) (fun a b _ => adds a b) 0#64 trivial
    threadHatovalue).2
  have zero : residue w 0#64 = 0 := by simp [residue]
  rw [mergeHato, total, zero, zero_add]

/-- The row of iteration `j`: the loop has left out the first one. -/
def rowOf (j : Fin (2 ^ n - 1)) : Fin (2 ^ n) := ⟨j + 1, by omega⟩

/-- After the loop the threads together hold all products but the first. -/
theorem hatoLoop_eq (hn : n < 31) (hw : w < 64) (width : rotatedIndex.bitsize = n)
    (s : Schedule nt (2 ^ n - 1)) (db : Fin (2 ^ n) → GroupElement)
    (out : Fin (2 ^ n) → Fin 2 → GroupElement) :
    ∃ acc, s.run (fun j => hatoStep w rotatedIndex db out (j + 1)) (some fun _ => 0#64) =
        some acc ∧
      ∑ t, residue w (acc t) =
        ∑ j, (out (rowOf j) 1).res w * (db (rotate n rotatedIndex (rowOf j))).res w := by
  refine s.run_induct (I := fun S st => ∃ acc : Fin nt → BitVec 64, st = some acc ∧
    ∑ t, residue w (acc t) =
      ∑ j ∈ S, (out (rowOf j) 1).res w * (db (rotate n rotatedIndex (rowOf j))).res w) ?_ ?_
  · exact ⟨fun _ => 0#64, rfl, by simp [residue]⟩
  · rintro S j t st fresh ⟨acc, rfl, sum⟩
    refine ⟨_, hatoStep_eq hn hw width db out (rowOf j) t acc, ?_⟩
    rw [sum_update_acc (residue w) acc t _ _ (accumulateHato_residue hw _ _ _), sum,
      Finset.sum_insert fresh, add_comm]
    rfl

/-- `compute_hato` is defined, and its result is the inner product with the rotated
database over all rows but the first, modulo `2 ^ w`. -/
theorem computeHato_eq (hn : n < 31) (hw : w < 64) (width : rotatedIndex.bitsize = n)
    (s : Schedule nt (2 ^ n - 1)) (db : Fin (2 ^ n) → GroupElement)
    (out : Fin (2 ^ n) → Fin 2 → GroupElement) :
    ∃ hato : GroupElement, computeHato s w rotatedIndex db out = some hato ∧ hato.bitsize = w ∧
      hato.res w = ∑ j, (out (rowOf j) 1).res w * (db (rotate n rotatedIndex (rowOf j))).res w := by
  obtain ⟨acc, run, sum⟩ := hatoLoop_eq hn hw width s db out
  refine ⟨GroupElement.ofValue (mergeHato ((1#64 <<< w) - 1#64) acc) w, ?_, rfl, ?_⟩
  · rw [computeHato, run, wordMask_of_lt hw]
    rfl
  · rw [GroupElement.res_ofValue hw.le, mergeHato_res hw, sum]

theorem sum_rows {M : Type*} [AddCommMonoid M] (f : Fin (2 ^ n) → M) :
    ∑ i, f i = f ⟨0, Nat.two_pow_pos n⟩ + ∑ j, f (rowOf j) := by
  have split : ∀ {k : Nat} (pos : 0 < k) (f : Fin k → M),
      ∑ i, f i = f ⟨0, pos⟩ + ∑ j : Fin (k - 1), f ⟨j + 1, by omega⟩ := by
    intro k pos f
    cases k with
    | zero => exact absurd pos (Nat.lt_irrefl 0)
    | succ k => exact Fin.sum_univ_succ f
  exact split (Nat.two_pow_pos n) f

end Hato

/-! ## Agreement with the inner product -/

/-- Up to the width 63 both functions are defined, and they agree if and only if the
product of the first row, which `compute_hato` leaves out, is a multiple of `2 ^ w`. -/
theorem computeHato_eq_innerProd_iff {n w nt : Nat} (hn : n ≤ 30) (hw : w ≤ 63)
    {rotatedIndex : GroupElement} (width : rotatedIndex.bitsize = n) (s : Schedule nt (2 ^ n - 1))
    (db : Fin (2 ^ n) → GroupElement) (out : Fin (2 ^ n) → Fin 2 → GroupElement) :
    ∃ hato o ohat : GroupElement,
      computeHato s w rotatedIndex db out = some hato ∧
      innerProd w (2 ^ n) rotatedIndex db out = some (o, ohat) ∧
      (hato = ohat ↔ 2 ^ w ∣ (out ⟨0, Nat.two_pow_pos n⟩ 1).value.toNat *
        (db (rotate n rotatedIndex ⟨0, Nat.two_pow_pos n⟩)).value.toNat) := by
  have short : n < 31 := by omega
  have below : w < 64 := by omega
  obtain ⟨hato, run, size, value⟩ := computeHato_eq short below width s db out
  obtain ⟨o, run', value'⟩ := innerProd_eq short below width db out
  obtain ⟨size', total⟩ := value' 1
  refine ⟨hato, o 0, o 1, run, run', ?_⟩
  rw [sum_rows, ← value] at total
  -- between elements of one width equality is equality of the residues
  have same : hato = o 1 ↔ hato.res w = (o 1).res w :=
    ⟨congrArg (GroupElement.res w), GroupElement.ext_res size size'⟩
  rw [same, total, right_eq_add, ← ZMod.natCast_eq_zero_iff, Nat.cast_mul]
  rfl

/-- Entries 3 and 5, and the rows of a server whose second share of the first is `first`. -/
def toyEntries : Fin (2 ^ 1) → GroupElement :=
  ![GroupElement.ofValue 3#64 8, GroupElement.ofValue 5#64 8]

def toyRows (first : BitVec 64) : Fin (2 ^ 1) → Fin 2 → GroupElement :=
  ![![GroupElement.ofValue 1#64 8, GroupElement.ofValue first 8],
    ![GroupElement.ofValue 1#64 8, GroupElement.ofValue 1#64 8]]

theorem computeHato_eq_innerProd_iff_toy :
    ∃ hato o ohat : GroupElement,
      computeHato (Schedule.static 2 (2 ^ 1 - 1) (by decide)) 8 (GroupElement.ofValue 0#64 1)
        toyEntries (toyRows 0#64) = some hato ∧
      innerProd 8 (2 ^ 1) (GroupElement.ofValue 0#64 1) toyEntries (toyRows 0#64) =
        some (o, ohat) ∧ hato = ohat := by
  have width : (GroupElement.ofValue 0#64 1).bitsize = 1 := rfl
  obtain ⟨hato, o, ohat, run, run', agree⟩ := computeHato_eq_innerProd_iff (n := 1) (w := 8)
    (by decide) (by decide) width (Schedule.static 2 (2 ^ 1 - 1) (by decide)) toyEntries
    (toyRows 0#64)
  exact ⟨hato, o, ohat, run, run', agree.mpr (dvd_zero _)⟩

/-- Without the first row the result is 5 in place of 3 + 5. -/
theorem computeHato_ne_innerProd :
    computeHato (Schedule.static 2 (2 ^ 1 - 1) (by decide)) 8 (GroupElement.ofValue 0#64 1)
      toyEntries (toyRows 1#64) ≠
    (innerProd 8 (2 ^ 1) (GroupElement.ofValue 0#64 1) toyEntries (toyRows 1#64)).map
      Prod.snd := by
  intro same
  have values := congrArg (Option.map GroupElement.value) same
  revert values
  decide

end DpfPir
