import Mathlib.Data.Nat.ModEq
import Mathlib.Data.List.OfFn
import Mathlib.Tactic.Ring

/-!
# Little-endian bytes

The byte layout of unsigned integers: `toBytes k n` is the first `k` bytes of
`n` as a little-endian machine stores it, `ofBytes` is the integer that a load
of those bytes gives back.

Results:
1. `ofBytes_toBytes`: storing `k` bytes and loading them keeps `n` modulo `256 ^ k`.
2. `ofBytes_append`: a load over a longer buffer only adds multiples of `256 ^ k`,
   so `ofBytes_append_mod` drops everything after the first `k` bytes.
-/

namespace LittleEndian

abbrev Byte := BitVec 8

/-- The first `k` bytes of `n`, lowest byte first. -/
def toBytes : Nat → Nat → List Byte
  | 0, _ => []
  | k + 1, n => BitVec.ofNat 8 n :: toBytes k (n / 256)

/-- The integer stored in a list of bytes, lowest byte first. -/
def ofBytes : List Byte → Nat
  | [] => 0
  | b :: bs => b.toNat + 256 * ofBytes bs

@[simp] theorem ofBytes_nil : ofBytes [] = 0 := rfl

@[simp] theorem length_toBytes (k n : Nat) : (toBytes k n).length = k := by
  induction k generalizing n with
  | zero => rfl
  | succ k ih => simp [toBytes, ih]

/-- A store of `k` bytes followed by a load keeps the value modulo `256 ^ k`. -/
theorem ofBytes_toBytes (k n : Nat) : ofBytes (toBytes k n) = n % 256 ^ k := by
  induction k generalizing n with
  | zero => simp [toBytes, Nat.mod_one]
  | succ k ih =>
    have low : (BitVec.ofNat 8 n).toNat = n % 256 := by simp
    rw [toBytes, ofBytes, ih, low, Nat.pow_succ, Nat.mul_comm (256 ^ k) 256, Nat.mod_mul]

theorem toBytes_add (k l n : Nat) : toBytes (k + l) n = toBytes k n ++ toBytes l (n / 256 ^ k) := by
  induction k generalizing n with
  | zero => simp [toBytes]
  | succ k ih =>
    rw [Nat.succ_add, toBytes, ih, toBytes, Nat.div_div_eq_div_mul, List.cons_append, Nat.pow_succ,
      Nat.mul_comm (256 ^ k) 256]

/-- The `l` bytes from byte `k` on. -/
theorem ofBytes_field {k l m : Nat} (inside : k + l ≤ m) (n : Nat) :
    ofBytes (((toBytes m n).drop k).take l) = n / 256 ^ k % 256 ^ l := by
  obtain ⟨rest, rfl⟩ := Nat.exists_eq_add_of_le inside
  rw [Nat.add_assoc, toBytes_add, List.drop_left' (length_toBytes k n), toBytes_add,
    List.take_left' (length_toBytes l _), ofBytes_toBytes]

theorem ofBytes_append (xs ys : List Byte) :
    ofBytes (xs ++ ys) = ofBytes xs + 256 ^ xs.length * ofBytes ys := by
  induction xs with
  | nil => simp
  | cons x xs ih =>
    simp only [List.cons_append, ofBytes, ih, List.length_cons, Nat.pow_succ]
    ring

/-- The bytes after the first `xs.length` do not reach the value modulo a width
that those first bytes hold. -/
theorem ofBytes_append_mod {xs ys : List Byte} {w : Nat} (hw : w ≤ 8 * xs.length) :
    ofBytes (xs ++ ys) % 2 ^ w = ofBytes xs % 2 ^ w := by
  have hdvd : 2 ^ w ∣ 256 ^ xs.length * ofBytes ys := by
    have h256 : 256 ^ xs.length = 2 ^ (8 * xs.length) := by
      rw [Nat.pow_mul]
    exact Dvd.dvd.mul_right (h256 ▸ Nat.pow_dvd_pow 2 hw) _
  rw [ofBytes_append, Nat.add_mod, Nat.mod_eq_zero_of_dvd hdvd, Nat.add_zero, Nat.mod_mod]

/-! ## Loads from a buffer -/

/-- The `k` bytes at `offset` of a buffer. Past the end of the buffer the memory
holds `beyond`. -/
def readAt (src : List Byte) (beyond : Nat → Byte) (offset k : Nat) : List Byte :=
  (List.range k).map fun i => src.getD (offset + i) (beyond (offset + i))

@[simp] theorem length_readAt (src : List Byte) (beyond : Nat → Byte) (offset k : Nat) :
    (readAt src beyond offset k).length = k := by
  simp [readAt]

theorem readAt_add (src : List Byte) (beyond : Nat → Byte) (offset a b : Nat) :
    readAt src beyond offset (a + b) =
      readAt src beyond offset a ++ readAt src beyond (offset + a) b := by
  simp only [readAt, List.range_add, List.map_append, List.map_map]
  congr 2
  funext i
  simp [Nat.add_assoc]

/-- Inside the buffer a read does not see the memory that follows it. -/
theorem readAt_inside {src : List Byte} {offset k : Nat} (inside : offset + k ≤ src.length)
    (beyond : Nat → Byte) : readAt src beyond offset k = (src.drop offset).take k := by
  refine List.ext_getElem (by simp; omega) ?_
  intro i hi _
  have hk : i < k := by simpa using hi
  have bound : offset + i < src.length := by omega
  simp [readAt, List.getD_eq_getElem?_getD, List.getElem?_eq_getElem bound]

/-- A load of `k + extra` bytes of which the first `k` lie in the buffer agrees,
modulo a width that `k` bytes hold, with those `k` bytes alone. -/
theorem ofBytes_readAt_mod {src : List Byte} {offset k extra w : Nat}
    (inside : offset + k ≤ src.length) (hw : w ≤ 8 * k) (beyond : Nat → Byte) :
    ofBytes (readAt src beyond offset (k + extra)) % 2 ^ w =
      ofBytes ((src.drop offset).take k) % 2 ^ w := by
  rw [readAt_add, ofBytes_append_mod (by simpa using hw), readAt_inside inside]

end LittleEndian
