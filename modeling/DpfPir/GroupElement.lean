import DpfPir.Words

/-!
# Group elements

`GroupElement` of `group_element.h`: a 64-bit value together with the width to
which every operator reduces it. The operators that the protocol uses are
translated one by one. Each keeps the width of its left operand.

Results:
1. `mod_toNat`, `ofValue_toNat`: both reductions of the source (the mask of `mod`
   and the remainder of the constructor) are reduction modulo `2 ^ bitsize`.
2. `res_add`, `res_sub`: up to width 64 the operators are the ring operations of
   the residues modulo `2 ^ w`, so `ext_res` proves equations between group
   elements by ring reasoning.
-/

namespace DpfPir

open Words

/-- `struct GroupElement`. The field `reduced` is what the constructor and `mod`
establish: an element never holds a value beyond its width. -/
@[ext] structure GroupElement where
  bitsize : Nat
  value : BitVec 64
  reduced : value.toNat < 2 ^ bitsize

namespace GroupElement

theorem shift_umod_lt (value : BitVec 64) (bitsize : Nat) :
    (if bitsize ≠ 64 then value % (1#64 <<< bitsize) else value).toNat < 2 ^ bitsize := by
  rcases Nat.lt_or_ge bitsize 64 with narrow | wide
  · rw [if_pos narrow.ne, BitVec.toNat_umod, one_shiftLeft_toNat narrow]
    exact Nat.mod_lt _ (Nat.two_pow_pos _)
  · refine lt_of_lt_of_le ?_ (Nat.pow_le_pow_right (by omega) wide)
    exact BitVec.isLt _

theorem mask_lt (value : BitVec 64) (bitsize : Nat) :
    (if bitsize ≠ 64 then lowBits bitsize value else value).toNat < 2 ^ bitsize := by
  rcases Nat.lt_or_ge bitsize 64 with narrow | wide
  · rw [if_pos narrow.ne, lowBits_toNat narrow]
    exact Nat.mod_lt _ (Nat.two_pow_pos _)
  · refine lt_of_lt_of_le ?_ (Nat.pow_le_pow_right (by omega) wide)
    exact BitVec.isLt _

/-- The constructor `GroupElement(uint64_t value, int bitsize)`. -/
def ofValue (value : BitVec 64) (bitsize : Nat) : GroupElement where
  bitsize := bitsize
  value := if bitsize ≠ 64 then value % (1#64 <<< bitsize) else value
  reduced := shift_umod_lt value bitsize

/-- The tail of every operator: the result takes a width and a 64-bit value, and
`mod` masks the value to the width. -/
def mod (bitsize : Nat) (value : BitVec 64) : GroupElement where
  bitsize := bitsize
  value := if bitsize ≠ 64 then lowBits bitsize value else value
  reduced := mask_lt value bitsize

instance : Add GroupElement := ⟨fun a b => mod a.bitsize (a.value + b.value)⟩

instance : Sub GroupElement := ⟨fun a b => mod a.bitsize (a.value - b.value)⟩

/-- `operator==` compares the values and ignores the widths. -/
instance : BEq GroupElement := ⟨fun a b => a.value == b.value⟩

theorem value_ofValue (value : BitVec 64) (w : Nat) :
    (ofValue value w).value = if w ≠ 64 then value % (1#64 <<< w) else value := rfl

theorem value_mod (w : Nat) (value : BitVec 64) :
    (mod w value).value = if w ≠ 64 then lowBits w value else value := rfl

@[simp] theorem value_zero (w : Nat) : (ofValue 0#64 w).value = 0#64 := by
  rw [value_ofValue, BitVec.zero_umod, ite_self]

@[simp] theorem bitsize_ofValue (value : BitVec 64) (w : Nat) :
    (ofValue value w).bitsize = w := rfl

@[simp] theorem bitsize_add (a b : GroupElement) : (a + b).bitsize = a.bitsize := rfl

theorem beq_iff (a b : GroupElement) : (a == b) = true ↔ a.value = b.value := by
  show (a.value == b.value) = true ↔ a.value = b.value
  exact beq_iff_eq

theorem bne_iff (a b : GroupElement) : (a != b) = true ↔ a.value ≠ b.value := by
  rw [bne, Bool.not_eq_true', ← Bool.not_eq_true, beq_iff]

/-- Between elements of one width `operator==` is equality. -/
theorem beq_iff_eq_of_bitsize {a b : GroupElement} (same : a.bitsize = b.bitsize) :
    (a == b) = true ↔ a = b := by
  rw [beq_iff]
  exact ⟨fun h => GroupElement.ext same h, fun h => h ▸ rfl⟩

theorem mod_toNat {w : Nat} (hw : w ≤ 64) (value : BitVec 64) :
    (mod w value).value.toNat = value.toNat % 2 ^ w := by
  rcases Nat.lt_or_eq_of_le hw with narrow | rfl
  · rw [value_mod, if_pos narrow.ne, lowBits_toNat narrow]
  · exact (Nat.mod_eq_of_lt value.isLt).symm

theorem ofValue_toNat {w : Nat} (hw : w ≤ 64) (value : BitVec 64) :
    (ofValue value w).value.toNat = value.toNat % 2 ^ w := by
  rcases Nat.lt_or_eq_of_le hw with narrow | rfl
  · rw [value_ofValue, if_pos narrow.ne, BitVec.toNat_umod, one_shiftLeft_toNat narrow]
  · exact (Nat.mod_eq_of_lt value.isLt).symm

/-- Reading an element back at its own width changes nothing. -/
theorem ofValue_value {g : GroupElement} (hw : g.bitsize ≤ 64) :
    ofValue g.value g.bitsize = g := by
  refine GroupElement.ext rfl (BitVec.eq_of_toNat_eq ?_)
  rw [ofValue_toNat hw, Nat.mod_eq_of_lt g.reduced]

/-! ## Residues -/

/-- The residue of an element modulo `2 ^ w`. -/
def res (w : Nat) (g : GroupElement) : ZMod (2 ^ w) := residue w g.value

theorem res_mod {w : Nat} (hw : w ≤ 64) (value : BitVec 64) :
    (mod w value).res w = residue w value := by
  rw [res, residue, mod_toNat hw, natCast_mod_two_pow le_rfl]; rfl

theorem res_ofValue {w : Nat} (hw : w ≤ 64) (value : BitVec 64) :
    (ofValue value w).res w = residue w value := by
  rw [res, residue, ofValue_toNat hw, natCast_mod_two_pow le_rfl]; rfl

theorem res_zero (v w : Nat) : (ofValue 0#64 v).res w = 0 := by
  rw [res, value_zero]; simp [residue]

theorem res_one {w : Nat} (hw : w ≤ 64) : (ofValue 1#64 w).res w = 1 := by
  rw [res_ofValue hw]; simp [residue]

/-- A sum in a greater width than `w` is still right modulo `2 ^ w`. -/
theorem res_add_of_le {w : Nat} {a : GroupElement} (low : w ≤ a.bitsize) (high : a.bitsize ≤ 64)
    (b : GroupElement) : (a + b).res w = a.res w + b.res w := by
  show residue w (mod a.bitsize (a.value + b.value)).value = _
  rw [residue, mod_toNat high, natCast_mod_two_pow low]
  exact residue_add (low.trans high) a.value b.value

theorem res_add {w : Nat} (hw : w ≤ 64) {a : GroupElement} (ha : a.bitsize = w)
    (b : GroupElement) : (a + b).res w = a.res w + b.res w :=
  res_add_of_le ha.ge (ha.trans_le hw) b

theorem res_sub {w : Nat} (hw : w ≤ 64) {a : GroupElement} (ha : a.bitsize = w)
    (b : GroupElement) : (a - b).res w = a.res w - b.res w := by
  subst ha
  exact (res_mod hw (a.value - b.value)).trans (residue_sub hw a.value b.value)

/-- Elements of width `w` are determined by their residue. -/
theorem ext_res {w : Nat} {a b : GroupElement} (ha : a.bitsize = w) (hb : b.bitsize = w)
    (h : a.res w = b.res w) : a = b :=
  GroupElement.ext (ha.trans hb.symm)
    (eq_of_residue (w := w) (ha ▸ a.reduced) (hb ▸ b.reduced) h)

/-- The value of an element whose residue is that of a number. -/
theorem toNat_of_res {w : Nat} {g : GroupElement} (width : g.bitsize = w) {x : Nat}
    (value : g.res w = x) : g.value.toNat = x % 2 ^ w := by
  have same := (ZMod.natCast_eq_natCast_iff' g.value.toNat x (2 ^ w)).mp value
  rwa [Nat.mod_eq_of_lt (width ▸ g.reduced)] at same

theorem beq_iff_res {w : Nat} {a b : GroupElement} (ha : a.bitsize = w) (hb : b.bitsize = w) :
    (a == b) = true ↔ a.res w = b.res w := by
  rw [beq_iff_eq_of_bitsize (ha.trans hb.symm)]
  exact ⟨fun h => h ▸ rfl, ext_res ha hb⟩

end GroupElement

end DpfPir
