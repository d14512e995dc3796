import DpfPir.EvalAll

/-!
# Inner products with a rotated database

`inner_prod` and `compute_inner_prod_Zp` (`dpf.cpp`, lines 571 to 602): a server
multiplies its output shares with the database, read from the rotated index on.
An access outside an array and a shift beyond the width of a word have no defined
result, so these functions return an `Option`.

Results:
1. `rotatedInd_eq`: the masked index is the rotation modulo the number of entries.
2. `innerProd_eq`: the two accumulators are the inner products modulo
   `2 ^ bitlength`, although they run over 128-bit products and 64-bit masks.
3. `innerProd_defined`: a defined inner product has read inside both arrays only.
4. `exactInnerProd_iff`: up to the width 63 this is exact in every iteration, and at the
   width 64 the masks are undefined.
5. `computeInnerProdZp_eq`: the parallel loop over the blocks computes one inner
   product for each block.
-/

namespace DpfPir

open LittleEndian Words ParallelLoop

/-! ## The source functions -/

/-- Access to an array at a computed index. -/
def access {α : Type} {size : Nat} (a : Fin size → α) (i : Nat) : Option α :=
  if h : i < size then some (a ⟨i, h⟩) else none

/-- `(uint64_t(1) << bitlength) - 1`; the shift is defined below the full width. -/
def wordMask (bitlength : Nat) : Option (BitVec 64) :=
  if bitlength < 64 then some ((1#64 <<< bitlength) - 1#64) else none

/-- `(int(1) << bitsize) - 1`; defined below the sign bit of an `int`. -/
def intMask (bitsize : Nat) : Option (BitVec 32) :=
  if bitsize < 31 then some ((1#32 <<< bitsize) - 1#32) else none

/-- `int ind = (i + rotated_index.value) & mask`. The mask is not negative, so its
conversion to `uint64_t` fills it up with zeros, and `ind` is not negative either. -/
def rotatedInd (rotatedIndex : GroupElement) (i : Nat) : Option Nat := do
  let mask ← intMask rotatedIndex.bitsize
  return (((BitVec.ofNat 64 i + rotatedIndex.value) &&& mask.setWidth 64).setWidth 32).toNat

/-- One accumulation over `__uint128_t`. In both statements of the source `+` binds
tighter than `&`, so the sum is masked, twice. -/
def accumulate (mask acc row entry : BitVec 64) : BitVec 64 :=
  ((acc.setWidth 128 + row.setWidth 128 * entry.setWidth 128) &&& mask.setWidth 128 &&&
    mask.setWidth 128).setWidth 64

/-- The loop body of `inner_prod`. -/
def innerProdStep (bitlength : Nat) (rotatedIndex : GroupElement) {databaseLen outLen : Nat}
    (database : Fin databaseLen → GroupElement) (out : Fin outLen → Fin 2 → GroupElement)
    (acc : BitVec 64 × BitVec 64) (i : Nat) : Option (BitVec 64 × BitVec 64) := do
  let ind ← rotatedInd rotatedIndex i
  let mask ← wordMask bitlength
  let row ← access out i
  let entry ← access database ind
  return (accumulate mask acc.1 (row 0).value entry.value,
    accumulate mask acc.2 (row 1).value entry.value)

/-- `inner_prod`. -/
def innerProd (bitlength databaseSize : Nat) (rotatedIndex : GroupElement)
    {databaseLen outLen : Nat} (database : Fin databaseLen → GroupElement)
    (out : Fin outLen → Fin 2 → GroupElement) : Option (GroupElement × GroupElement) := do
  let values ← (List.range databaseSize).foldlM
    (innerProdStep bitlength rotatedIndex database out) (0#64, 0#64)
  return (GroupElement.ofValue values.1 bitlength, GroupElement.ofValue values.2 bitlength)

/-- The body of the loop over the blocks: `std::tie(o[i], hato[i]) = inner_prod(...)`. -/
def storeInnerProd {nt blocks : Nat}
    (prod : Fin blocks → Option (GroupElement × GroupElement)) (i : Fin blocks) (_ : Fin nt)
    (st : Option ((Fin blocks → GroupElement) × (Fin blocks → GroupElement))) :
    Option ((Fin blocks → GroupElement) × (Fin blocks → GroupElement)) := do
  let (o, hato) ← st
  let result ← prod i
  return (Function.update o i result.1, Function.update hato i result.2)

/-- `compute_inner_prod_Zp`. The arrays `o` and `hato` come from `malloc`; every cell
is written before it is read. -/
def computeInnerProdZp (m : Machine) (bitlength databaseSize : Nat) (rotatedIndex : GroupElement)
    {databaseLen outLen blocks : Nat} (db : Fin blocks → Fin databaseLen → GroupElement)
    (out : Fin outLen → Fin 2 → GroupElement) :
    Option ((Fin blocks → GroupElement) × (Fin blocks → GroupElement)) :=
  (m.schedule .blocks blocks).run
    (storeInnerProd fun i => innerProd bitlength databaseSize rotatedIndex (db i) out)
    (some (fun _ => GroupElement.ofValue 0#64 bitlength,
      fun _ => GroupElement.ofValue 0#64 bitlength))

/-! ## The masks and the rotated index -/

theorem wordMask_of_lt {w : Nat} (hw : w < 64) : wordMask w = some ((1#64 <<< w) - 1#64) := by
  rw [wordMask, if_pos hw]

theorem lt_of_wordMask {w : Nat} {mask : BitVec 64} (defined : wordMask w = some mask) :
    w < 64 := by
  unfold wordMask at defined
  split at defined
  · assumption
  · exact absurd defined (Option.some_ne_none mask).symm

theorem rotatedInd_eq {n : Nat} (hn : n < 31) {rotatedIndex : GroupElement}
    (width : rotatedIndex.bitsize = n) (i : Nat) :
    rotatedInd rotatedIndex i = some ((i + rotatedIndex.value.toNat) % 2 ^ n) := by
  have fits : 2 ^ n ≤ 2 ^ 31 := Nat.pow_le_pow_right (by decide) hn.le
  have wide : 2 ^ n ∣ 2 ^ 64 := Nat.pow_dvd_pow 2 (by omega)
  have mask : (((1#32 <<< n) - 1#32).setWidth 64).toNat = 2 ^ n - 1 := by
    rw [BitVec.toNat_setWidth, mask_toNat (by omega), Nat.mod_eq_of_lt (by omega)]
  have small : (i + rotatedIndex.value.toNat) % 2 ^ n < 2 ^ n := Nat.mod_lt _ (Nat.two_pow_pos n)
  rw [rotatedInd, width, intMask, if_pos hn]
  show some _ = _
  rw [BitVec.toNat_setWidth, BitVec.toNat_and, mask, Nat.and_two_pow_sub_one_eq_mod,
    BitVec.toNat_add, Nat.mod_mod_of_dvd _ wide, BitVec.toNat_ofNat, Nat.add_mod,
    Nat.mod_mod_of_dvd _ wide, ← Nat.add_mod, Nat.mod_eq_of_lt (by omega)]

/-! ## Accumulation -/

theorem residue_setWidth {w v n : Nat} (hv : v ≤ n) (x : BitVec v) :
    residue w (x.setWidth n) = residue w x := by
  have bound : x.toNat < 2 ^ n := lt_of_lt_of_le x.isLt (Nat.pow_le_pow_right (by decide) hv)
  rw [residue, residue, BitVec.toNat_setWidth, Nat.mod_eq_of_lt bound]

/-- A 64-bit accumulator and the product of two 64-bit words together fit into
`__uint128_t`. -/
theorem wideSum_lt (acc row entry : BitVec 64) :
    acc.toNat + row.toNat * entry.toNat < 2 ^ 128 := by
  have product : row.toNat * entry.toNat ≤ (2 ^ 64 - 1) * (2 ^ 64 - 1) :=
    Nat.mul_le_mul (Nat.le_sub_one_of_lt row.isLt) (Nat.le_sub_one_of_lt entry.isLt)
  have small := acc.isLt
  omega

theorem toNat_wideSum (acc row entry : BitVec 64) :
    (acc.setWidth 128 + row.setWidth 128 * entry.setWidth 128).toNat =
      acc.toNat + row.toNat * entry.toNat := by
  have widened : ∀ x : BitVec 64, (x.setWidth 128).toNat = x.toNat := by
    intro x
    rw [BitVec.toNat_setWidth, Nat.mod_eq_of_lt (x.isLt.trans (by decide))]
  have fits := wideSum_lt acc row entry
  rw [BitVec.toNat_add, BitVec.toNat_mul, widened, widened, widened,
    Nat.mod_eq_of_lt (lt_of_le_of_lt (Nat.le_add_left _ _) fits), Nat.mod_eq_of_lt fits]

theorem toNat_wideMask {w : Nat} (hw : w < 64) :
    (((1#64 <<< w) - 1#64).setWidth 128).toNat = 2 ^ w - 1 := by
  have bound : 2 ^ w ≤ 2 ^ 64 := Nat.pow_le_pow_right (by decide) hw.le
  rw [BitVec.toNat_setWidth, mask_toNat hw, Nat.mod_eq_of_lt (by omega)]

/-- One accumulation is exact up to the reduction to `w` bits. -/
theorem accumulate_toNat {w : Nat} (hw : w < 64) (acc row entry : BitVec 64) :
    (accumulate ((1#64 <<< w) - 1#64) acc row entry).toNat =
      (acc.toNat + row.toNat * entry.toNat) % 2 ^ w := by
  have bound : 2 ^ w ≤ 2 ^ 64 := Nat.pow_le_pow_right (by decide) hw.le
  have reduced := Nat.mod_lt (acc.toNat + row.toNat * entry.toNat) (Nat.two_pow_pos w)
  rw [accumulate, BitVec.toNat_setWidth, BitVec.toNat_and, BitVec.toNat_and, toNat_wideSum,
    toNat_wideMask hw, Nat.and_two_pow_sub_one_eq_mod, Nat.and_two_pow_sub_one_eq_mod, Nat.mod_mod,
    Nat.mod_eq_of_lt (reduced.trans_le bound)]

theorem accumulate_residue {w : Nat} (hw : w < 64) (acc row entry : BitVec 64) :
    residue w (accumulate ((1#64 <<< w) - 1#64) acc row entry) =
      residue w acc + residue w row * residue w entry := by
  rw [residue, accumulate_toNat hw, natCast_mod_two_pow le_rfl, Nat.cast_add, Nat.cast_mul]
  rfl

/-! ## The loop over the entries -/

/-- The entry that meets row `i` when the database is read from the rotated index on. -/
def rotate (n : Nat) (rotatedIndex : GroupElement) (i : Fin (2 ^ n)) : Fin (2 ^ n) :=
  ⟨(i + rotatedIndex.value.toNat) % 2 ^ n, Nat.mod_lt _ (Nat.two_pow_pos n)⟩

theorem access_of_lt {α : Type} {size : Nat} (a : Fin size → α) {i : Nat} (hi : i < size) :
    access a i = some (a ⟨i, hi⟩) := by
  rw [access, dif_pos hi]

theorem lt_of_access {α : Type} {size : Nat} {a : Fin size → α} {i : Nat} {x : α}
    (defined : access a i = some x) : i < size := by
  unfold access at defined
  split at defined
  · assumption
  · exact absurd defined (Option.some_ne_none x).symm

section Loop

variable {n w : Nat} {rotatedIndex : GroupElement}

theorem innerProdStep_eq (hn : n < 31) (hw : w < 64) (width : rotatedIndex.bitsize = n)
    (database : Fin (2 ^ n) → GroupElement) (out : Fin (2 ^ n) → Fin 2 → GroupElement)
    (acc : BitVec 64 × BitVec 64) (i : Fin (2 ^ n)) :
    innerProdStep w rotatedIndex database out acc i =
      some (accumulate ((1#64 <<< w) - 1#64) acc.1 (out i 0).value
          (database (rotate n rotatedIndex i)).value,
        accumulate ((1#64 <<< w) - 1#64) acc.2 (out i 1).value
          (database (rotate n rotatedIndex i)).value) := by
  rw [innerProdStep, rotatedInd_eq hn width, wordMask_of_lt hw, access_of_lt out i.isLt]
  show (access database (rotate n rotatedIndex i).val).bind _ = _
  rw [access_of_lt database (rotate n rotatedIndex i).isLt]
  rfl

/-- The product that iteration `k` adds to component `e`. -/
def rowProduct (w n : Nat) (rotatedIndex : GroupElement) (database : Fin (2 ^ n) → GroupElement)
    (out : Fin (2 ^ n) → Fin 2 → GroupElement) (e : Fin 2) (k : Nat) : ZMod (2 ^ w) :=
  if hk : k < 2 ^ n then
    (out ⟨k, hk⟩ e).res w * (database (rotate n rotatedIndex ⟨k, hk⟩)).res w
  else 0

/-- After `k` iterations the accumulators hold the first `k` products. -/
theorem innerProd_prefix (hn : n < 31) (hw : w < 64) (width : rotatedIndex.bitsize = n)
    (database : Fin (2 ^ n) → GroupElement) (out : Fin (2 ^ n) → Fin 2 → GroupElement) {k : Nat}
    (hk : k ≤ 2 ^ n) :
    ∃ acc, (List.range k).foldlM (innerProdStep w rotatedIndex database out) (0#64, 0#64) =
        some acc ∧
      residue w acc.1 = ∑ i ∈ Finset.range k, rowProduct w n rotatedIndex database out 0 i ∧
      residue w acc.2 = ∑ i ∈ Finset.range k, rowProduct w n rotatedIndex database out 1 i := by
  refine foldlM_range (fun k (acc : BitVec 64 × BitVec 64) =>
      residue w acc.1 = ∑ i ∈ Finset.range k, rowProduct w n rotatedIndex database out 0 i ∧
      residue w acc.2 = ∑ i ∈ Finset.range k, rowProduct w n rotatedIndex database out 1 i) ?_ k ?_
  · simp [residue]
  · rintro i hi acc ⟨sum0, sum1⟩
    have row : i < 2 ^ n := hi.trans_le hk
    refine ⟨_, innerProdStep_eq hn hw width database out acc ⟨i, row⟩, ?_, ?_⟩
    · rw [accumulate_residue hw, sum0, Finset.sum_range_succ]
      simp only [rowProduct, dif_pos row]
      rfl
    · rw [accumulate_residue hw, sum1, Finset.sum_range_succ]
      simp only [rowProduct, dif_pos row]
      rfl

theorem sum_rowProduct (database : Fin (2 ^ n) → GroupElement)
    (out : Fin (2 ^ n) → Fin 2 → GroupElement) (e : Fin 2) :
    ∑ k ∈ Finset.range (2 ^ n), rowProduct w n rotatedIndex database out e k =
      ∑ i, (out i e).res w * (database (rotate n rotatedIndex i)).res w := by
  rw [Finset.sum_range]
  exact Finset.sum_congr rfl fun i _ => dif_pos i.isLt

/-- `inner_prod` over a database of `2 ^ n` entries is defined, and its components
are the inner products with the rotated database modulo `2 ^ w`. -/
theorem innerProd_eq (hn : n < 31) (hw : w < 64) (width : rotatedIndex.bitsize = n)
    (database : Fin (2 ^ n) → GroupElement) (out : Fin (2 ^ n) → Fin 2 → GroupElement) :
    ∃ o : Fin 2 → GroupElement,
      innerProd w (2 ^ n) rotatedIndex database out = some (o 0, o 1) ∧
      ∀ e, (o e).bitsize = w ∧ (o e).res w =
        ∑ i, (out i e).res w * (database (rotate n rotatedIndex i)).res w := by
  obtain ⟨values, run, sum0, sum1⟩ := innerProd_prefix hn hw width database out le_rfl
  refine ⟨![GroupElement.ofValue values.1 w, GroupElement.ofValue values.2 w], ?_,
    Fin.forall_fin_two.mpr ⟨⟨rfl, ?_⟩, rfl, ?_⟩⟩
  · rw [innerProd, run]
    rfl
  · rw [← sum_rowProduct, ← sum0]
    exact GroupElement.res_ofValue hw.le _
  · rw [← sum_rowProduct, ← sum1]
    exact GroupElement.res_ofValue hw.le _

/-- `inner_prod` is defined, also when the number of rows is given in other words. -/
theorem innerProd_isDefined (hn : n < 31) (hw : w < 64) (width : rotatedIndex.bitsize = n)
    {rows : Nat} (enough : rows = 2 ^ n) (database : Fin (2 ^ n) → GroupElement)
    (out : Fin rows → Fin 2 → GroupElement) :
    ∃ o hato, innerProd w (2 ^ n) rotatedIndex database out = some (o, hato) ∧
      o.bitsize = w ∧ hato.bitsize = w := by
  subst enough
  obtain ⟨o, run, value⟩ := innerProd_eq hn hw width database out
  exact ⟨o 0, o 1, run, (value 0).1, (value 1).1⟩

end Loop

/-- A defined inner product has computed an index below the database's length in
every iteration, and has read a row that exists. -/
theorem innerProd_defined {w databaseSize databaseLen outLen : Nat} {rotatedIndex : GroupElement}
    {database : Fin databaseLen → GroupElement} {out : Fin outLen → Fin 2 → GroupElement}
    {result : GroupElement × GroupElement}
    (defined : innerProd w databaseSize rotatedIndex database out = some result) :
    ∀ i, i < databaseSize → i < outLen ∧
      ∃ ind, rotatedInd rotatedIndex i = some ind ∧ ind < databaseLen := by
  intro i hi
  rw [innerProd, Option.bind_eq_bind, Option.bind_eq_some_iff] at defined
  obtain ⟨values, run, -⟩ := defined
  obtain ⟨acc, next, step⟩ := of_foldlM_range databaseSize run i hi
  simp only [innerProdStep, Option.bind_eq_bind, Option.bind_eq_some_iff] at step
  obtain ⟨ind, index, mask, -, row, outer, entry, inner, -⟩ := step
  exact ⟨lt_of_access outer, ind, index, lt_of_access inner⟩

/-! ## The range of widths -/

/-- `inner_prod` returns the rotated inner products modulo `2 ^ w`, and on the way to them
no iteration is undefined and no sum or product leaves its type. The index is computed in
`uint64_t`, and each of the two accumulations in `__uint128_t`. -/
structure ExactInnerProd (w n : Nat) (rotatedIndex : GroupElement)
    (database : Fin (2 ^ n) → GroupElement) (out : Fin (2 ^ n) → Fin 2 → GroupElement) :
    Prop where
  result : ∃ o : Fin 2 → GroupElement,
    innerProd w (2 ^ n) rotatedIndex database out = some (o 0, o 1) ∧
    ∀ e, (o e).bitsize = w ∧ (o e).value.toNat =
      (∑ i, (out i e).value.toNat * (database (rotate n rotatedIndex i)).value.toNat) % 2 ^ w
  index : ∀ i : Fin (2 ^ n), i + rotatedIndex.value.toNat < 2 ^ 64
  sums : ∀ i : Fin (2 ^ n), ∃ acc next : BitVec 64 × BitVec 64,
    (List.range i).foldlM (innerProdStep w rotatedIndex database out) (0#64, 0#64) = some acc ∧
    innerProdStep w rotatedIndex database out acc i = some next ∧
    ∀ e, (![acc.1, acc.2] e).toNat +
        (out i e).value.toNat * (database (rotate n rotatedIndex i)).value.toNat < 2 ^ 128 ∧
      (![next.1, next.2] e).toNat = ((![acc.1, acc.2] e).toNat +
        (out i e).value.toNat * (database (rotate n rotatedIndex i)).value.toNat) % 2 ^ w

/-- The components of `inner_prod` as numbers. -/
theorem innerProd_toNat {n w : Nat} {rotatedIndex : GroupElement} (hn : n < 31) (hw : w < 64)
    (width : rotatedIndex.bitsize = n) (database : Fin (2 ^ n) → GroupElement)
    (out : Fin (2 ^ n) → Fin 2 → GroupElement) :
    ∃ o : Fin 2 → GroupElement,
      innerProd w (2 ^ n) rotatedIndex database out = some (o 0, o 1) ∧
      ∀ e, (o e).bitsize = w ∧ (o e).value.toNat =
        (∑ i, (out i e).value.toNat * (database (rotate n rotatedIndex i)).value.toNat) %
          2 ^ w := by
  obtain ⟨o, run, value⟩ := innerProd_eq hn hw width database out
  refine ⟨o, run, fun e => ⟨(value e).1, GroupElement.toNat_of_res (value e).1 ?_⟩⟩
  rw [(value e).2, Nat.cast_sum]
  exact Finset.sum_congr rfl fun i _ => (Nat.cast_mul _ _).symm

/-- The mask is defined below the full width only. -/
theorem lt_of_innerProdStep {w databaseLen outLen : Nat} {rotatedIndex : GroupElement}
    {database : Fin databaseLen → GroupElement} {out : Fin outLen → Fin 2 → GroupElement}
    {acc next : BitVec 64 × BitVec 64} {i : Nat}
    (step : innerProdStep w rotatedIndex database out acc i = some next) : w < 64 := by
  simp only [innerProdStep, Option.bind_eq_bind, Option.bind_eq_some_iff] at step
  obtain ⟨ind, -, mask, defined, -⟩ := step
  exact lt_of_wordMask defined

/-- `inner_prod` is exact up to the width 63. The width 64, for which `GroupElement`
makes a case of its own, is beyond its masks. -/
theorem exactInnerProd_iff {n w : Nat} (hn : n ≤ 30) {rotatedIndex : GroupElement}
    (width : rotatedIndex.bitsize = n) (database : Fin (2 ^ n) → GroupElement)
    (out : Fin (2 ^ n) → Fin 2 → GroupElement) :
    ExactInnerProd w n rotatedIndex database out ↔ w ≤ 63 := by
  constructor
  · rintro ⟨-, -, sums⟩
    obtain ⟨acc, next, -, step, -⟩ := sums ⟨0, Nat.two_pow_pos n⟩
    exact Nat.le_of_lt_succ (lt_of_innerProdStep step)
  · intro hw
    have short : n < 31 := by omega
    have below : w < 64 := by omega
    have entries : 2 ^ n ≤ 2 ^ 30 := Nat.pow_le_pow_right (by decide) hn
    refine ⟨innerProd_toNat short below width database out, ?_, ?_⟩
    · intro i
      have rotation : rotatedIndex.value.toNat < 2 ^ n := width ▸ rotatedIndex.reduced
      omega
    · intro i
      obtain ⟨acc, before, -⟩ := innerProd_prefix short below width database out i.isLt.le
      refine ⟨acc, _, before, innerProdStep_eq short below width database out acc i, ?_⟩
      refine Fin.forall_fin_two.mpr ⟨⟨wideSum_lt _ _ _, ?_⟩, wideSum_lt _ _ _, ?_⟩
      · exact accumulate_toNat below acc.1 (out i 0).value _
      · exact accumulate_toNat below acc.2 (out i 1).value _

theorem exactInnerProd_iff_toy :
    ExactInnerProd 63 1 (GroupElement.ofValue 1#64 1)
      ![GroupElement.ofValue 3#64 63, GroupElement.ofValue 5#64 63]
      fun _ => ![GroupElement.ofValue 1#64 63, GroupElement.ofValue 7#64 63] :=
  (exactInnerProd_iff (n := 1) (w := 63) (by decide) rfl _ _).mpr (by decide)

/-- One entry of 64 bits: the mask shifts by the full width of its word. -/
theorem not_exactInnerProd_full :
    ¬ ExactInnerProd 64 0 (GroupElement.ofValue 0#64 0) (fun _ => GroupElement.ofValue 1#64 64)
      fun _ => ![GroupElement.ofValue 1#64 64, GroupElement.ofValue 1#64 64] := by
  rintro ⟨⟨o, run, -⟩, -, -⟩
  have undefined : innerProd 64 (2 ^ 0) (GroupElement.ofValue 0#64 0)
      (fun _ : Fin (2 ^ 0) => GroupElement.ofValue 1#64 64)
      (fun _ : Fin (2 ^ 0) => ![GroupElement.ofValue 1#64 64, GroupElement.ofValue 1#64 64]) =
      none := rfl
  rw [undefined] at run
  exact absurd run (Option.some_ne_none _).symm

/-! ## The loop over the blocks -/

/-- When every block's inner product is defined, the parallel loop stores them all. -/
theorem computeInnerProdZp_eq (m : Machine) {w databaseSize databaseLen outLen blocks : Nat}
    {rotatedIndex : GroupElement} {db : Fin blocks → Fin databaseLen → GroupElement}
    {out : Fin outLen → Fin 2 → GroupElement} {o hato : Fin blocks → GroupElement}
    (prod : ∀ j, innerProd w databaseSize rotatedIndex (db j) out = some (o j, hato j)) :
    computeInnerProdZp m w databaseSize rotatedIndex db out = some (o, hato) := by
  have run : ∃ a b, computeInnerProdZp m w databaseSize rotatedIndex db out = some (a, b) ∧
      ∀ j ∈ Finset.univ, a j = o j ∧ b j = hato j := by
    refine (m.schedule .blocks blocks).run_induct
      (I := fun S st => ∃ a b : Fin blocks → GroupElement, st = some (a, b) ∧
        ∀ j ∈ S, a j = o j ∧ b j = hato j) ?_ ?_
    · exact ⟨_, _, rfl, fun j mem => absurd mem (Finset.notMem_empty j)⟩
    · rintro S i t st fresh ⟨a, b, rfl, stored⟩
      refine ⟨Function.update a i (o i), Function.update b i (hato i), ?_, ?_⟩
      · simp only [storeInnerProd, prod]
        rfl
      · intro j mem
        by_cases same : j = i
        · rw [same, Function.update_self, Function.update_self]
          exact ⟨rfl, rfl⟩
        · rw [Function.update_of_ne same, Function.update_of_ne same]
          exact stored j (Finset.mem_of_mem_insert_of_ne mem same)
  obtain ⟨a, b, final, stored⟩ := run
  rw [final]
  have first : a = o := funext fun j => (stored j (Finset.mem_univ j)).1
  have second : b = hato := funext fun j => (stored j (Finset.mem_univ j)).2
  rw [first, second]

/-- When no block's inner product is defined, the parallel loop is not either. -/
theorem computeInnerProdZp_eq_none (m : Machine) {w databaseSize databaseLen outLen blocks : Nat}
    (some_block : 0 < blocks) {rotatedIndex : GroupElement}
    {db : Fin blocks → Fin databaseLen → GroupElement} {out : Fin outLen → Fin 2 → GroupElement}
    (prod : ∀ j, innerProd w databaseSize rotatedIndex (db j) out = none) :
    computeInnerProdZp m w databaseSize rotatedIndex db out = none := by
  have run : (Finset.univ : Finset (Fin blocks)).Nonempty →
      computeInnerProdZp m w databaseSize rotatedIndex db out = none := by
    refine (m.schedule .blocks blocks).run_induct (I := fun S st => S.Nonempty → st = none) ?_ ?_
    · intro empty
      exact absurd empty Finset.not_nonempty_empty
    · intro S i t st fresh before nonempty
      simp only [storeInnerProd, prod]
      cases st with
      | none => rfl
      | some arrays => rfl
  exact run ⟨⟨0, some_block⟩, Finset.mem_univ _⟩

end DpfPir
