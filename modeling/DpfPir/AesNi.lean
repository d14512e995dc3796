import DpfPir.Keys
import DpfPir.RoundCipher
import DpfPir.Words

/-!
# The AES instructions

The SSE intrinsics that `AES.cpp` is written in. They are not in the repository: each
definition states what the instruction set's documentation says of the intrinsic.

Results:
1. `gmul_ginv`: the table of inverses inverts the product of the field of bytes.
2. `invSbox_sbox`, `sbox_invSbox`: the substitutions of bytes undo each other.
3. `invMixColumn_mixColumn`, `mixColumn_invMixColumn`: so do the two mixings of a column,
   as circulants over the endomorphisms of the bytes.
4. `aesLayers`: the instructions as the layers of a round cipher.
-/

namespace DpfPir

open LittleEndian Words RoundCipher

/-! ## The field of bytes -/

/-- The product with the root of `x ^ 8 + x ^ 4 + x ^ 3 + x + 1`. -/
def xtime (b : Byte) : Byte := if b.msb then b <<< 1 ^^^ 0x1b#8 else b <<< 1

def gmulBits : Nat → Byte → Byte → Byte
  | 0, _, _ => 0#8
  | k + 1, a, b => (if b.getLsbD 0 then a else 0#8) ^^^ gmulBits k (xtime a) (b >>> 1)

/-- The product of the field of bytes. -/
def gmul (a b : Byte) : Byte := gmulBits 8 a b

/-- Byte `b`, counted from the low end, is the inverse of `b`. -/
def inverses : BitVec 2048 :=
  0x1c411acda07d9cdd8c0346683438235bb31e505de3d74e08adcf0ec6ebd60db1#256 ++
  0x6b90f89dd5c48b94eae2dbc563ae077ae6acfc1b045327a90fe4d4daa32f280b#256 ++
  0x5786bcbd3d768ea571787511ef1fe00c62d2e7ce4a12c8264865b88fc32e7cfb#256 ++
  0x9a89dcf9889f142a72848ad86d326adea4b902f7d9959e9b56be7396807f7e83#256 ++
  0x8281faa106d070b63cbab5108597b7793b219333df9147f44336a649d3af5e16#256 ++
  0x1761ec51f0223e18bf87244cca055ced09e9255413ab64a769f5312d6737fe1d#256 ++
  0x1959bb776f2035f2426639f36c92452cc2a2443015980ac1c9a84d55f15a6e3a#256 ++
  0xb2ee40ffccfd3f585f602b994baab474c7e5e1b0c0294fe8d17b52cbf68d0100#256

/-- The inverse of a byte, and 0 for 0. -/
def ginv (b : Byte) : Byte := inverses.extractLsb' (8 * b.toNat) 8

theorem gmul_ginv : ∀ b, b ≠ 0#8 → gmul b (ginv b) = 1#8 := by decide +kernel

theorem ginv_ginv : ∀ b, ginv (ginv b) = b := by decide +kernel

/-! ## Substitutions -/

def affine (b : Byte) : Byte :=
  b ^^^ b.rotateLeft 1 ^^^ b.rotateLeft 2 ^^^ b.rotateLeft 3 ^^^ b.rotateLeft 4 ^^^ 0x63#8

def invAffine (b : Byte) : Byte :=
  b.rotateLeft 1 ^^^ b.rotateLeft 3 ^^^ b.rotateLeft 6 ^^^ 0x05#8

theorem invAffine_affine : ∀ b, invAffine (affine b) = b := by decide +kernel

theorem affine_invAffine : ∀ b, affine (invAffine b) = b := by decide +kernel

def sbox (b : Byte) : Byte := affine (ginv b)

def invSbox (b : Byte) : Byte := ginv (invAffine b)

theorem invSbox_sbox (b : Byte) : invSbox (sbox b) = b := by
  rw [invSbox, sbox, invAffine_affine, ginv_ginv]

theorem sbox_invSbox (b : Byte) : sbox (invSbox b) = b := by
  rw [sbox, invSbox, ginv_ginv, affine_invAffine]

example : sbox 0x53#8 = 0xed#8 := by decide

/-! ## Mixing a column -/

def mixColumn (a : Fin 4 → Byte) : Fin 4 → Byte := fun r =>
  gmul (a r) 0x02#8 ^^^ gmul (a (r + 1)) 0x03#8 ^^^ a (r + 2) ^^^ a (r + 3)

def invMixColumn (a : Fin 4 → Byte) : Fin 4 → Byte := fun r =>
  gmul (a r) 0x0e#8 ^^^ gmul (a (r + 1)) 0x0b#8 ^^^ gmul (a (r + 2)) 0x0d#8 ^^^
    gmul (a (r + 3)) 0x09#8

theorem xtime_xor (a b : Byte) : xtime (a ^^^ b) = xtime a ^^^ xtime b := by
  unfold xtime
  rw [BitVec.msb_xor, BitVec.shiftLeft_xor_distrib]
  cases a.msb <;> cases b.msb
  · rfl
  · exact BitVec.xor_assoc _ _ _
  · show (a <<< 1 ^^^ b <<< 1) ^^^ 0x1b#8 = (a <<< 1 ^^^ 0x1b#8) ^^^ b <<< 1
    rw [BitVec.xor_assoc, BitVec.xor_comm (b <<< 1), BitVec.xor_assoc]
  · show a <<< 1 ^^^ b <<< 1 = (a <<< 1 ^^^ 0x1b#8) ^^^ (b <<< 1 ^^^ 0x1b#8)
    rw [BitVec.xor_comm (b <<< 1), ← BitVec.xor_assoc, BitVec.xor_assoc (a <<< 1), BitVec.xor_self,
      BitVec.xor_zero]

/-- `xtime` as an endomorphism of the bytes under exclusive or. -/
def xtimeHom : AddMonoid.End (Xor 8) where
  toFun b := Xor.of (xtime b.word)
  map_zero' := by
    show xtime 0#8 = 0#8
    decide
  map_add' a b := xtime_xor a.word b.word

theorem two_eq_zero : (2 : AddMonoid.End (Xor 8)) = 0 := by
  rw [← one_add_one_eq_two]
  exact AddMonoidHom.ext fun b => Xor.add_self b

/-- The constants of the mixing are polynomials in `xtime`. -/
theorem mixColumn_eq (a : Fin 4 → Byte) :
    mixColumn a = circulate (mixing xtimeHom) (fun r => Xor.of (a r)) := by
  funext r
  rw [circulate, Fin.sum_univ_four, add_zero]
  show gmul (a r) 0x02#8 ^^^ gmul (a (r + 1)) 0x03#8 ^^^ a (r + 2) ^^^ a (r + 3) =
    xtime (a r) ^^^ (xtime (a (r + 1)) ^^^ a (r + 1)) ^^^ a (r + 2) ^^^ a (r + 3)
  simp [gmul, gmulBits, BitVec.xor_comm]

theorem invMixColumn_eq (a : Fin 4 → Byte) :
    invMixColumn a = circulate (unmixing xtimeHom) (fun r => Xor.of (a r)) := by
  funext r
  rw [circulate, Fin.sum_univ_four, add_zero]
  show gmul (a r) 0x0e#8 ^^^ gmul (a (r + 1)) 0x0b#8 ^^^ gmul (a (r + 2)) 0x0d#8 ^^^
      gmul (a (r + 3)) 0x09#8 =
    (xtime (xtime (xtime (a r))) ^^^ xtime (xtime (a r)) ^^^ xtime (a r)) ^^^
      (xtime (xtime (xtime (a (r + 1)))) ^^^ xtime (a (r + 1)) ^^^ a (r + 1)) ^^^
      (xtime (xtime (xtime (a (r + 2)))) ^^^ xtime (xtime (a (r + 2))) ^^^ a (r + 2)) ^^^
      (xtime (xtime (xtime (a (r + 3)))) ^^^ a (r + 3))
  simp [gmul, gmulBits, BitVec.xor_comm]

theorem invMixColumn_mixColumn (a : Fin 4 → Byte) : invMixColumn (mixColumn a) = a := by
  rw [invMixColumn_eq, mixColumn_eq]
  exact circulate_inverse (fun s => (unmixing_mixing two_eq_zero xtimeHom s).1) a

theorem mixColumn_invMixColumn (a : Fin 4 → Byte) : mixColumn (invMixColumn a) = a := by
  rw [mixColumn_eq, invMixColumn_eq]
  exact circulate_inverse (fun s => (unmixing_mixing two_eq_zero xtimeHom s).2) a

theorem mixColumn_xor (a b : Fin 4 → Byte) :
    mixColumn (fun r => a r ^^^ b r) = fun r => mixColumn a r ^^^ mixColumn b r := by
  simp only [mixColumn_eq]
  exact circulate_add (mixing xtimeHom) (fun r => Xor.of (a r)) (fun r => Xor.of (b r))

theorem invMixColumn_xor (a b : Fin 4 → Byte) :
    invMixColumn (fun r => a r ^^^ b r) = fun r => invMixColumn a r ^^^ invMixColumn b r := by
  simp only [invMixColumn_eq]
  exact circulate_add (unmixing xtimeHom) (fun r => Xor.of (a r)) (fun r => Xor.of (b r))

/-! ## The state -/

/-- A register as four columns of four bytes. -/
abbrev AesState := Fin 4 → Fin 4 → Byte

def aesState (b : Block) : AesState := fun c => lane 8 (lane 32 b c)

def ofAesState (s : AesState) : Block := ofLanes fun c => (ofLanes (s c) : BitVec 32)

@[simp] theorem aesState_ofAesState (s : AesState) : aesState (ofAesState s) = s := by
  funext c
  have column : lane 32 (ofAesState s) c = ofLanes (s c) :=
    congrFun (@lane_ofLanes 32 fun c => ofLanes (s c)) c
  exact (congrArg (lane 8) column).trans (@lane_ofLanes 8 (s c))

@[simp] theorem ofAesState_aesState (b : Block) : ofAesState (aesState b) = b := by
  have columns : (fun c => ofLanes (aesState b c)) = lane 32 b :=
    funext fun c => @ofLanes_lane 8 (lane 32 b c)
  exact (congrArg (@ofLanes 32) columns).trans (@ofLanes_lane 32 b)

theorem aesState_xor (a b : Block) :
    aesState (a ^^^ b) = fun c r => aesState a c r ^^^ aesState b c r := by
  funext c r
  exact (congrArg (fun w => lane 8 w r) (@lane_xor 32 a b c)).trans
    (@lane_xor 8 (lane 32 a c) (lane 32 b c) r)

theorem ofAesState_xor (s t : AesState) :
    ofAesState (fun c r => s c r ^^^ t c r) = ofAesState s ^^^ ofAesState t := by
  have sum := aesState_xor (ofAesState s) (ofAesState t)
  rw [aesState_ofAesState, aesState_ofAesState] at sum
  rw [← sum, ofAesState_aesState]

def subBytes (s : AesState) : AesState := fun c r => sbox (s c r)

def invSubBytes (s : AesState) : AesState := fun c r => invSbox (s c r)

/-- Row `r` moves `r` columns down. -/
def shiftRows (s : AesState) : AesState := fun c r => s (c + r) r

def invShiftRows (s : AesState) : AesState := fun c r => s (c - r) r

def mixColumns (s : AesState) : AesState := fun c => mixColumn (s c)

def invMixColumns (s : AesState) : AesState := fun c => invMixColumn (s c)

/-! ## The instructions -/

/-- `_mm_aesenc_si128`. -/
def mmAesencSi128 (a roundKey : Block) : Block :=
  ofAesState (mixColumns (subBytes (shiftRows (aesState a)))) ^^^ roundKey

/-- `_mm_aesenclast_si128`. -/
def mmAesenclastSi128 (a roundKey : Block) : Block :=
  ofAesState (subBytes (shiftRows (aesState a))) ^^^ roundKey

/-- `_mm_aesdec_si128`. -/
def mmAesdecSi128 (a roundKey : Block) : Block :=
  ofAesState (invMixColumns (invSubBytes (invShiftRows (aesState a)))) ^^^ roundKey

/-- `_mm_aesdeclast_si128`. -/
def mmAesdeclastSi128 (a roundKey : Block) : Block :=
  ofAesState (invSubBytes (invShiftRows (aesState a))) ^^^ roundKey

/-- `_mm_aesimc_si128`. -/
def mmAesimcSi128 (a : Block) : Block := ofAesState (invMixColumns (aesState a))

def subWord (w : BitVec 32) : BitVec 32 := ofLanes fun r => sbox (lane 8 w r)

/-- The bytes of a word one place down. -/
def rotWord (w : BitVec 32) : BitVec 32 := ofLanes fun r => lane 8 w (r + 1)

/-- `_mm_aeskeygenassist_si128`. -/
def mmAeskeygenassistSi128 (a : Block) (imm8 : BitVec 8) : Block :=
  ofLanes ![subWord (lane 32 a 1), rotWord (subWord (lane 32 a 1)) ^^^ imm8.setWidth 32,
    subWord (lane 32 a 3), rotWord (subWord (lane 32 a 3)) ^^^ imm8.setWidth 32]

/-- `_MM_SHUFFLE`. -/
def mmShuffle (z y x w : BitVec 8) : BitVec 8 := z <<< 6 ||| y <<< 4 ||| x <<< 2 ||| w

/-- `_mm_shuffle_epi32`: bits `2 i` and `2 i + 1` of the operand select lane `i`. -/
def mmShuffleEpi32 (a : Block) (imm8 : BitVec 8) : Block :=
  ofLanes fun i => lane 32 a (imm8.extractLsb' (2 * i) 2).toFin

/-- `_mm_slli_si128`: a shift by bytes. -/
def mmSlliSi128 (a : Block) (imm8 : Nat) : Block := a <<< (8 * imm8)

/-- `_mm_set1_epi64x`. -/
def mmSet1Epi64x (a : BitVec 64) : Block := a ++ a

/-! ## The layers -/

/-- The instructions as the layers of a round cipher on registers. -/
def aesLayers : Layers (Xor 128) where
  sub v := Xor.of (ofAesState (subBytes (shiftRows (aesState v.word))))
  unsub v := Xor.of (ofAesState (invSubBytes (invShiftRows (aesState v.word))))
  mix v := Xor.of (ofAesState (mixColumns (aesState v.word)))
  unmix v := Xor.of (ofAesState (invMixColumns (aesState v.word)))
  unsub_sub v := by
    rw [Xor.word_of, aesState_ofAesState]
    have undone : invSubBytes (invShiftRows (subBytes (shiftRows (aesState v.word)))) =
        aesState v.word := by
      funext c r
      show invSbox (sbox (aesState v.word (c - r + r) r)) = aesState v.word c r
      rw [invSbox_sbox, sub_add_cancel]
    rw [undone, ofAesState_aesState]
    rfl
  sub_unsub v := by
    rw [Xor.word_of, aesState_ofAesState]
    have undone : subBytes (shiftRows (invSubBytes (invShiftRows (aesState v.word)))) =
        aesState v.word := by
      funext c r
      show sbox (invSbox (aesState v.word (c + r - r) r)) = aesState v.word c r
      rw [sbox_invSbox, add_sub_cancel_right]
    rw [undone, ofAesState_aesState]
    rfl
  unmix_mix v := by
    rw [Xor.word_of, aesState_ofAesState]
    have undone : invMixColumns (mixColumns (aesState v.word)) = aesState v.word :=
      funext fun c => invMixColumn_mixColumn (aesState v.word c)
    rw [undone, ofAesState_aesState]
    rfl
  mix_unmix v := by
    rw [Xor.word_of, aesState_ofAesState]
    have undone : mixColumns (invMixColumns (aesState v.word)) = aesState v.word :=
      funext fun c => mixColumn_invMixColumn (aesState v.word c)
    rw [undone, ofAesState_aesState]
    rfl
  mix_add a b := by
    have columns : mixColumns (aesState (a.word ^^^ b.word)) = fun c r =>
        mixColumns (aesState a.word) c r ^^^ mixColumns (aesState b.word) c r := by
      rw [aesState_xor]
      exact funext fun c => mixColumn_xor (aesState a.word c) (aesState b.word c)
    exact (congrArg ofAesState columns).trans (ofAesState_xor _ _)
  unmix_add a b := by
    have columns : invMixColumns (aesState (a.word ^^^ b.word)) = fun c r =>
        invMixColumns (aesState a.word) c r ^^^ invMixColumns (aesState b.word) c r := by
      rw [aesState_xor]
      exact funext fun c => invMixColumn_xor (aesState a.word c) (aesState b.word c)
    exact (congrArg ofAesState columns).trans (ofAesState_xor _ _)
  add_self := Xor.add_self

end DpfPir
