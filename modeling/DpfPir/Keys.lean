import Mathlib.Data.Fin.VecNotation
import Mathlib.Data.List.FinRange
import DpfPir.LittleEndian
import DpfPir.GroupElement

/-!
# Keys and input check packs

The data that the dealer, the servers and the client exchange (`keys.h`), and the
client's test `check_xor` (`keys.cpp`).

An array that the source allocates with the announced length is a function on
that many indices, so its length is part of the type of the record. `int` fields
are 32-bit words in two's complement, `uint8_t` fields are bytes.
-/

namespace DpfPir

open LittleEndian

/-- Pairs are indexed by `Fin 2`: parties, children, outputs. The numerals of this type share
an instance by name, as those of `Fin 4` do. -/
instance twoNeZero : NeZero 2 := ⟨two_ne_zero⟩

/-- `block`: a 128-bit SSE register. -/
abbrev Block := BitVec 128

/-- `struct dpf_key`. -/
@[ext] structure DpfKey where
  height : Nat
  Bout : BitVec 32
  s : Block
  t : Byte
  sigma : Fin height → Block
  tau0 : Fin height → Byte
  tau1 : Fin height → Byte
  gamma : Fin 2 → GroupElement

/-- `struct input_check_pack`: what one server reports to the client. -/
@[ext] structure InputCheckPack where
  index : GroupElement
  payload : GroupElement
  size : Nat
  zs : Fin 2 → Fin size → Block
  zt : Fin 2 → Fin size → Byte
  sigma : Fin size → Block
  tau : Fin 2 → Fin size → Byte
  T : BitVec 32
  W : Fin 2 → GroupElement
  gamma : Fin 2 → GroupElement

/-- `struct input_check_pack_2`: what the dealer reports to the client. -/
@[ext] structure InputCheckPack2 where
  index : Fin 2 → GroupElement
  payload : Fin 2 → GroupElement
  size : Nat
  zs0 : Fin 2 → Fin size → Block
  zs1 : Fin 2 → Fin size → Block
  zt0 : Fin 2 → Fin size → Byte
  zt1 : Fin 2 → Fin size → Byte
  sigma : Fin size → Block
  tau : Fin 2 → Fin size → Byte
  T : Fin 2 → BitVec 32
  W : Fin 2 → Fin 2 → GroupElement
  gamma : Fin 2 → GroupElement

/-- `eq` on blocks: all bits of the difference are zero. -/
def eqBlock (lhs rhs : Block) : Bool :=
  let neq := lhs ^^^ rhs
  (neq &&& neq) == 0#128

/-- `(value >> shift) & 1` as a `uint8_t`: one bit of the path to a leaf. -/
def pathBit (value : BitVec 64) (shift : Nat) : Byte :=
  ((value >>> shift) &&& 1#64).setWidth 8

/-- A `uint8_t` that holds 0 or 1, used as an index into a two-element array. -/
def bitIndex (b : Byte) : Fin 2 := if b = 0#8 then 0 else 1

/-- The tests that `check_xor` makes at level `i`. -/
def checkLevel (x0 x1 : InputCheckPack) (x2 : InputCheckPack2)
    (h01 : x0.size = x1.size) (h12 : x1.size = x2.size) (i : Fin x1.size) : Bool :=
  let i0 := i.cast h01.symm
  let i2 := i.cast h12
  let rj := pathBit (x0.index + x1.index).value (x0.size - 1 - i)
  eqBlock (x0.zs 0 i0) (x2.zs0 0 i2) &&
  eqBlock (x1.zs 0 i) (x2.zs1 0 i2) &&
  eqBlock (x0.zs 1 i0) (x2.zs0 1 i2) &&
  eqBlock (x1.zs 1 i) (x2.zs1 1 i2) &&
  eqBlock (x0.sigma i0) (x2.sigma i2) &&
  eqBlock (x1.sigma i) (x2.sigma i2) &&
  eqBlock (x2.sigma i2) (x0.zs (bitIndex (1#8 ^^^ rj)) i0 ^^^ x1.zs (bitIndex (1#8 ^^^ rj)) i) &&
  x0.zt 0 i0 == x2.zt0 0 i2 &&
  x1.zt 0 i == x2.zt1 0 i2 &&
  x0.zt 1 i0 == x2.zt0 1 i2 &&
  x1.zt 1 i == x2.zt1 1 i2 &&
  x0.tau 0 i0 == x2.tau 0 i2 &&
  x0.tau 1 i0 == x2.tau 1 i2 &&
  x1.tau 0 i == x2.tau 0 i2 &&
  x1.tau 1 i == x2.tau 1 i2 &&
  x2.tau 0 i2 == (x0.zt 0 i0 ^^^ x1.zt 0 i ^^^ rj ^^^ 1#8) &&
  x2.tau 1 i2 == (x0.zt 1 i0 ^^^ x1.zt 1 i ^^^ rj)

/-- The shares of the two outputs at the queried leaf: 1 and the payload. -/
def betaShares (bw : Nat) (payload0 payload1 : GroupElement) : Fin 2 → Fin 2 → GroupElement :=
  ![![GroupElement.ofValue 0#64 bw, payload0], ![GroupElement.ofValue 1#64 bw, payload1]]

/-- The tests on the final correction word. -/
def checkFinal (bw : Nat) (x0 x1 : InputCheckPack) (x2 : InputCheckPack2) : Bool :=
  let beta := betaShares bw x0.payload x1.payload
  x0.W 0 == x2.W 0 0 &&
  x1.W 0 == x2.W 1 0 &&
  x0.W 1 == x2.W 0 1 &&
  x1.W 1 == x2.W 1 1 &&
  x0.gamma 0 == x2.gamma 0 &&
  x1.gamma 0 == x2.gamma 0 &&
  x0.gamma 1 == x2.gamma 1 &&
  x1.gamma 1 == x2.gamma 1 &&
  if x0.T.slt x1.T then
    x0.gamma 0 == x0.W 0 - beta 0 0 - beta 1 0 - x1.W 0 &&
    x0.gamma 1 == x0.W 1 - beta 0 1 - beta 1 1 - x1.W 1
  else
    x0.gamma 0 == beta 0 0 + beta 1 0 - x0.W 0 + x1.W 0 &&
    x0.gamma 1 == beta 0 1 + beta 1 1 - x0.W 1 + x1.W 1

/-- `check_xor`: the client's test of the two servers' packs against the dealer's. -/
def checkXor (bw : Nat) (x0 x1 : InputCheckPack) (x2 : InputCheckPack2) : Bool :=
  if x0.index != x2.index 0 || x1.index != x2.index 1 then false
  else if x0.payload != x2.payload 0 || x1.payload != x2.payload 1 then false
  else if sizes : x0.size = x1.size ∧ x1.size = x2.size then
    let out := (List.finRange x1.size).foldl
      (fun out i => out && checkLevel x0 x1 x2 sizes.1 sizes.2 i) true
    -- one of the two totals is enough
    if x0.T == x2.T 0 || x1.T == x2.T 1 then out && checkFinal bw x0 x1 x2 else false
  else false

/-! ## Bits and blocks -/

theorem eqBlock_iff (lhs rhs : Block) : eqBlock lhs rhs = true ↔ lhs = rhs := by
  simp [eqBlock]

/-- The direction that `pathBit` encodes. -/
def pathDir (value : BitVec 64) (shift : Nat) : Fin 2 :=
  ⟨value.toNat / 2 ^ shift % 2, Nat.mod_lt _ (by decide)⟩

theorem pathBit_eq (value : BitVec 64) (shift : Nat) :
    pathBit value shift = BitVec.ofNat 8 (pathDir value shift) := by
  have one : (1#64).toNat = 2 ^ 1 - 1 := rfl
  refine BitVec.eq_of_toNat_eq ?_
  rw [pathBit, BitVec.toNat_setWidth, BitVec.toNat_and, BitVec.toNat_ushiftRight,
    Nat.shiftRight_eq_div_pow, one, Nat.and_two_pow_sub_one_eq_mod, BitVec.toNat_ofNat]
  rfl

@[simp] theorem bitIndex_dir (d : Fin 2) : bitIndex (BitVec.ofNat 8 d) = d := by
  revert d; decide

@[simp] theorem bitIndex_other (d : Fin 2) : bitIndex (1#8 ^^^ BitVec.ofNat 8 d) = d + 1 := by
  revert d; decide

end DpfPir
