import Mathlib.Data.BitVec
import Mathlib.Data.ZMod.Basic
import Mathlib.Algebra.BigOperators.Fin

/-!
# Words as group elements

Machine words carry two group structures that this development sums over:
addition modulo a power of two, and bitwise exclusive or.

Results:
1. `lowBits_toNat`: masking a word to its `w` low bits is reduction modulo `2 ^ w`.
2. `residue_add`, `residue_sub`, `residue_mul`: the residue of a word modulo
   `2 ^ w` commutes with the wrapping operations of the wider word.
3. `Xor`: words under exclusive or form a commutative group in which every
   element is its own inverse.
4. `sum_sub_sum_of_agree`: two families that agree except at one index have sums
   that differ by the difference at that index.
5. `lane_ofLanes`, `ofLanes_lane`: a register is its four lanes.
-/

namespace Words

/-! ## Low bits and residues -/

/-- The `w` low bits of a word, as C code computes them by a mask. -/
def lowBits {m : Nat} (w : Nat) (v : BitVec m) : BitVec m :=
  v &&& ((1#m <<< w) - 1#m)

theorem one_shiftLeft_toNat {m w : Nat} (hw : w < m) : (1#m <<< w).toNat = 2 ^ w := by
  have hm : 1 < 2 ^ m := Nat.one_lt_two_pow (by omega)
  have hlt : 2 ^ w < 2 ^ m := Nat.pow_lt_pow_right (by omega) hw
  rw [BitVec.toNat_shiftLeft, BitVec.toNat_ofNat, Nat.mod_eq_of_lt hm, Nat.one_shiftLeft,
    Nat.mod_eq_of_lt hlt]

theorem mask_toNat {m w : Nat} (hw : w < m) : ((1#m <<< w) - 1#m).toNat = 2 ^ w - 1 := by
  have hm : 1 < 2 ^ m := Nat.one_lt_two_pow (by omega)
  have hlt : 2 ^ w < 2 ^ m := Nat.pow_lt_pow_right (by omega) hw
  have hpos : 0 < 2 ^ w := Nat.two_pow_pos w
  have shifted : (1#m <<< w).toNat = 2 ^ w := one_shiftLeft_toNat hw
  have one : (1#m).toNat = 1 := by rw [BitVec.toNat_ofNat, Nat.mod_eq_of_lt hm]
  have carried : 2 ^ m - 1 + 2 ^ w = 2 ^ w - 1 + 2 ^ m := by omega
  rw [BitVec.toNat_sub, shifted, one, carried, Nat.add_mod_right, Nat.mod_eq_of_lt (by omega)]

theorem lowBits_toNat {m w : Nat} (hw : w < m) (v : BitVec m) :
    (lowBits w v).toNat = v.toNat % 2 ^ w := by
  rw [lowBits, BitVec.toNat_and, mask_toNat hw, Nat.and_two_pow_sub_one_eq_mod]

/-- The residue of a word modulo `2 ^ w`. -/
def residue {m : Nat} (w : Nat) (v : BitVec m) : ZMod (2 ^ w) := (v.toNat : ZMod (2 ^ w))

theorem natCast_mod_two_pow {w m : Nat} (hw : w ≤ m) (n : Nat) :
    ((n % 2 ^ m : Nat) : ZMod (2 ^ w)) = (n : ZMod (2 ^ w)) := by
  rw [ZMod.natCast_eq_natCast_iff]
  exact (Nat.mod_modEq n (2 ^ m)).of_dvd (Nat.pow_dvd_pow 2 hw)

theorem natCast_two_pow {w m : Nat} (hw : w ≤ m) : ((2 ^ m : Nat) : ZMod (2 ^ w)) = 0 := by
  rw [ZMod.natCast_eq_zero_iff]
  exact Nat.pow_dvd_pow 2 hw

theorem residue_add {m w : Nat} (hw : w ≤ m) (a b : BitVec m) :
    residue w (a + b) = residue w a + residue w b := by
  rw [residue, BitVec.toNat_add, natCast_mod_two_pow hw, Nat.cast_add]; rfl

theorem residue_mul {m w : Nat} (hw : w ≤ m) (a b : BitVec m) :
    residue w (a * b) = residue w a * residue w b := by
  rw [residue, BitVec.toNat_mul, natCast_mod_two_pow hw, Nat.cast_mul]; rfl

theorem residue_sub {m w : Nat} (hw : w ≤ m) (a b : BitVec m) :
    residue w (a - b) = residue w a - residue w b := by
  have hb : b.toNat ≤ 2 ^ m := b.isLt.le
  rw [residue, BitVec.toNat_sub, natCast_mod_two_pow hw, Nat.cast_add, Nat.cast_sub hb,
    natCast_two_pow hw, zero_sub, neg_add_eq_sub]
  rfl

theorem residue_lowBits {m w : Nat} (hw : w < m) (v : BitVec m) :
    residue w (lowBits w v) = residue w v := by
  rw [residue, lowBits_toNat hw, natCast_mod_two_pow le_rfl]; rfl

/-- Words below `2 ^ w` are determined by their residue. -/
theorem eq_of_residue {m w : Nat} {a b : BitVec m} (ha : a.toNat < 2 ^ w) (hb : b.toNat < 2 ^ w)
    (h : residue w a = residue w b) : a = b := by
  have same := (ZMod.natCast_eq_natCast_iff' a.toNat b.toNat (2 ^ w)).mp h
  rw [Nat.mod_eq_of_lt ha, Nat.mod_eq_of_lt hb] at same
  exact BitVec.eq_of_toNat_eq same

/-! ## Exclusive or -/

/-- Words of `m` bits with exclusive or as addition. -/
def Xor (m : Nat) := BitVec m

namespace Xor

variable {m : Nat}

instance : Add (Xor m) := ⟨fun a b => BitVec.xor a b⟩

instance : Zero (Xor m) := ⟨0#m⟩

instance : Neg (Xor m) := ⟨fun a => a⟩

instance : DecidableEq (Xor m) := inferInstanceAs (DecidableEq (BitVec m))

instance : AddCommGroup (Xor m) where
  nsmul := nsmulRec
  zsmul := zsmulRec
  add_assoc a b c := BitVec.xor_assoc a b c
  zero_add a := BitVec.zero_xor
  add_zero a := BitVec.xor_zero
  add_comm a b := BitVec.xor_comm a b
  neg_add_cancel a := BitVec.xor_self

/-- A word seen as an element of the exclusive-or group. -/
def of (v : BitVec m) : Xor m := v

/-- The word of an element of the exclusive-or group. -/
def word (x : Xor m) : BitVec m := x

@[simp] theorem word_of (v : BitVec m) : (of v).word = v := rfl

theorem of_xor (a b : BitVec m) : of (a ^^^ b) = of a + of b := rfl

theorem of_zero : of (0#m) = 0 := rfl

/-- A sum of words is what a loop over `^` computes. -/
theorem sum_eq_foldl {n : Nat} (f : Fin n → BitVec m) :
    (∑ i, of (f i)).word = (List.finRange n).foldl (fun acc i => acc ^^^ f i) 0#m := by
  have fold : ∀ (l : List (Fin n)) (acc : BitVec m),
      l.foldl (fun acc i => acc ^^^ f i) acc = (of acc + (l.map fun i => of (f i)).sum).word := by
    intro l
    induction l with
    | nil =>
      intro acc
      rw [List.map_nil, List.sum_nil, add_zero]
      rfl
    | cons i l ih =>
      intro acc
      rw [List.foldl_cons, ih, List.map_cons, List.sum_cons, ← add_assoc]
      rfl
  rw [fold, of_zero, zero_add, Fin.sum_univ_def]

theorem add_self (x : Xor m) : x + x = 0 := BitVec.xor_self

end Xor

/-! ## Sums that differ at one index -/

theorem sum_sub_sum_of_agree {ι M : Type*} [Fintype ι] [DecidableEq ι] [AddCommGroup M]
    {f g : ι → M} (p : ι) (agree : ∀ i, i ≠ p → f i = g i) :
    (∑ i, f i) - ∑ i, g i = f p - g p := by
  rw [← Finset.sum_sub_distrib]
  refine Finset.sum_eq_single_of_mem p (Finset.mem_univ p) ?_
  intro i _ hi
  rw [agree i hi, sub_self]

/-! ## Lanes -/

/-- Lanes are indexed by `Fin 4`. With `inferInstance` every definition that has a numeral of
this type would get an auxiliary proof of its own; by this name they all have the same term. -/
instance fourNeZero : NeZero 4 := ⟨four_ne_zero⟩

/-- Lane `i` of a register of four lanes, counted from the low end. -/
def lane (n : Nat) (b : BitVec (n + n + n + n)) (i : Fin 4) : BitVec n := b.extractLsb' (n * i) n

def ofLanes {n : Nat} (w : Fin 4 → BitVec n) : BitVec (n + n + n + n) := w 3 ++ w 2 ++ w 1 ++ w 0

theorem getLsbD_lane {n : Nat} (b : BitVec (n + n + n + n)) (i : Fin 4) {k : Nat}
    (inside : k < n) : (lane n b i).getLsbD k = b.getLsbD (n * i + k) := by
  rw [lane, BitVec.getLsbD_extractLsb', decide_eq_true inside, Bool.true_and]

/-- Bit `k` of a word is a bit of the lane it falls into. -/
theorem getLsbD_ofLanes {n : Nat} (w : Fin 4 → BitVec n) (i : Fin 4) {k : Nat} (inside : k < n) :
    (ofLanes w).getLsbD (n * i + k) = (w i).getLsbD k := by
  unfold ofLanes
  rw [BitVec.getLsbD_append, BitVec.getLsbD_append, BitVec.getLsbD_append]
  match i with
  | 0 =>
    rw [if_pos (by simpa using inside)]
    simp
  | 1 =>
    rw [if_neg (by simp), if_pos (by simpa using inside)]
    simp
  | 2 =>
    rw [if_neg (by simp; omega), if_neg (by simp; omega), if_pos (by simp; omega)]
    congr 1
    simp; omega
  | 3 =>
    rw [if_neg (by simp; omega), if_neg (by simp; omega), if_neg (by simp; omega)]
    congr 1
    simp; omega

theorem lane_ofLanes {n : Nat} (w : Fin 4 → BitVec n) : lane n (ofLanes w) = w := by
  funext i
  refine BitVec.eq_of_getLsbD_eq fun k inside => ?_
  rw [getLsbD_lane _ i inside, getLsbD_ofLanes w i inside]

theorem ofLanes_lane {n : Nat} (b : BitVec (n + n + n + n)) : ofLanes (lane n b) = b := by
  refine BitVec.eq_of_getLsbD_eq fun k inside => ?_
  have pos : 0 < n := by omega
  have split : n * (k / n) + k % n = k := Nat.div_add_mod k n
  have number : k / n < 4 := Nat.div_lt_of_lt_mul (by omega)
  have bit := getLsbD_ofLanes (lane n b) ⟨k / n, number⟩ (Nat.mod_lt k pos)
  rwa [getLsbD_lane b _ (Nat.mod_lt k pos), split] at bit

theorem lane_xor {n : Nat} (a b : BitVec (n + n + n + n)) (i : Fin 4) :
    lane n (a ^^^ b) i = lane n a i ^^^ lane n b i :=
  BitVec.extractLsb'_xor

/-- A shift by a whole lane moves every lane up by one. -/
theorem lane_shiftLeft {n : Nat} (b : BitVec (n + n + n + n)) :
    lane n (b <<< n) = ![0#n, lane n b 0, lane n b 1, lane n b 2] := by
  have up : ∀ j : Fin 4, ∀ k, k < n → j < 3 →
      (b <<< n).getLsbD (n * (j + 1) + k) = b.getLsbD (n * j + k) := by
    intro j k inside short
    have room : n * (j + 1) ≤ n * 3 := Nat.mul_le_mul_left n short
    have back : n * (j + 1) + k - n = n * j + k := by
      rw [Nat.mul_succ]
      omega
    rw [BitVec.getLsbD_shiftLeft, back, decide_eq_true (by omega), Bool.true_and,
      decide_eq_false (by rw [Nat.mul_succ]; omega), Bool.not_false, Bool.true_and]
  funext i
  refine BitVec.eq_of_getLsbD_eq fun k inside => ?_
  rw [getLsbD_lane _ _ inside]
  match i with
  | 0 => simp [BitVec.getLsbD_shiftLeft, inside]
  | 1 => exact (up 0 k inside (by decide)).trans (getLsbD_lane b 0 inside).symm
  | 2 => exact (up 1 k inside (by decide)).trans (getLsbD_lane b 1 inside).symm
  | 3 => exact (up 2 k inside (by decide)).trans (getLsbD_lane b 2 inside).symm

end Words
