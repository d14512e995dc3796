import DpfPir.AesNi

/-!
# The block cipher

The classes `AES` and `AESDec` (`AES.cpp`): the key schedule and the encryption and
decryption of one block.

Results:
1. `ecbDecBlock_ecbEncBlock`: with the same key, `AESDec` undoes `AES` and `AES` undoes
   `AESDec`, on every block.
2. `ecbEncBlock_eq_standard`: `AES` is AES-128 as the standard states it, with the key
   expansion word by word and the layers of a round in the standard's order.
-/

namespace DpfPir

open LittleEndian Words RoundCipher

/-! ## The classes -/

def keyGenHelper (key keyRcon : Block) : Block :=
  let keyRcon := mmShuffleEpi32 keyRcon (mmShuffle 3#8 3#8 3#8 3#8)
  let key := key ^^^ mmSlliSi128 key 4
  let key := key ^^^ mmSlliSi128 key 4
  let key := key ^^^ mmSlliSi128 key 4
  key ^^^ keyRcon

/-- Round keys are indexed by `Fin 11`. The numerals of this type share an instance by name,
as those of `Fin 4` do. -/
instance elevenNeZero : NeZero 11 := ⟨Nat.succ_ne_zero 10⟩

structure AES where
  mRoundKey : Fin 11 → Block

structure AESDec where
  mRoundKey : Fin 11 → Block

/-- `AES::setKey`. -/
def AES.setKey (userKey : Block) : AES :=
  let k0 := userKey
  let k1 := keyGenHelper k0 (mmAeskeygenassistSi128 k0 0x01#8)
  let k2 := keyGenHelper k1 (mmAeskeygenassistSi128 k1 0x02#8)
  let k3 := keyGenHelper k2 (mmAeskeygenassistSi128 k2 0x04#8)
  let k4 := keyGenHelper k3 (mmAeskeygenassistSi128 k3 0x08#8)
  let k5 := keyGenHelper k4 (mmAeskeygenassistSi128 k4 0x10#8)
  let k6 := keyGenHelper k5 (mmAeskeygenassistSi128 k5 0x20#8)
  let k7 := keyGenHelper k6 (mmAeskeygenassistSi128 k6 0x40#8)
  let k8 := keyGenHelper k7 (mmAeskeygenassistSi128 k7 0x80#8)
  let k9 := keyGenHelper k8 (mmAeskeygenassistSi128 k8 0x1b#8)
  let k10 := keyGenHelper k9 (mmAeskeygenassistSi128 k9 0x36#8)
  ⟨![k0, k1, k2, k3, k4, k5, k6, k7, k8, k9, k10]⟩

/-- `AES::ecbEncBlock`. -/
def AES.ecbEncBlock (aes : AES) (plaintext : Block) : Block :=
  let cyphertext := plaintext ^^^ aes.mRoundKey 0
  let cyphertext := mmAesencSi128 cyphertext (aes.mRoundKey 1)
  let cyphertext := mmAesencSi128 cyphertext (aes.mRoundKey 2)
  let cyphertext := mmAesencSi128 cyphertext (aes.mRoundKey 3)
  let cyphertext := mmAesencSi128 cyphertext (aes.mRoundKey 4)
  let cyphertext := mmAesencSi128 cyphertext (aes.mRoundKey 5)
  let cyphertext := mmAesencSi128 cyphertext (aes.mRoundKey 6)
  let cyphertext := mmAesencSi128 cyphertext (aes.mRoundKey 7)
  let cyphertext := mmAesencSi128 cyphertext (aes.mRoundKey 8)
  let cyphertext := mmAesencSi128 cyphertext (aes.mRoundKey 9)
  mmAesenclastSi128 cyphertext (aes.mRoundKey 10)

/-- `AESDec::setKey`. -/
def AESDec.setKey (userKey : Block) : AESDec :=
  let v0 := userKey
  let v1 := keyGenHelper v0 (mmAeskeygenassistSi128 v0 0x01#8)
  let v2 := keyGenHelper v1 (mmAeskeygenassistSi128 v1 0x02#8)
  let v3 := keyGenHelper v2 (mmAeskeygenassistSi128 v2 0x04#8)
  let v4 := keyGenHelper v3 (mmAeskeygenassistSi128 v3 0x08#8)
  let v5 := keyGenHelper v4 (mmAeskeygenassistSi128 v4 0x10#8)
  let v6 := keyGenHelper v5 (mmAeskeygenassistSi128 v5 0x20#8)
  let v7 := keyGenHelper v6 (mmAeskeygenassistSi128 v6 0x40#8)
  let v8 := keyGenHelper v7 (mmAeskeygenassistSi128 v7 0x80#8)
  let v9 := keyGenHelper v8 (mmAeskeygenassistSi128 v8 0x1b#8)
  let v10 := keyGenHelper v9 (mmAeskeygenassistSi128 v9 0x36#8)
  ⟨![v10, mmAesimcSi128 v9, mmAesimcSi128 v8, mmAesimcSi128 v7, mmAesimcSi128 v6,
    mmAesimcSi128 v5, mmAesimcSi128 v4, mmAesimcSi128 v3, mmAesimcSi128 v2, mmAesimcSi128 v1, v0]⟩

/-- `AESDec::ecbDecBlock`. -/
def AESDec.ecbDecBlock (aes : AESDec) (cyphertext : Block) : Block :=
  let plaintext := cyphertext ^^^ aes.mRoundKey 0
  let plaintext := mmAesdecSi128 plaintext (aes.mRoundKey 1)
  let plaintext := mmAesdecSi128 plaintext (aes.mRoundKey 2)
  let plaintext := mmAesdecSi128 plaintext (aes.mRoundKey 3)
  let plaintext := mmAesdecSi128 plaintext (aes.mRoundKey 4)
  let plaintext := mmAesdecSi128 plaintext (aes.mRoundKey 5)
  let plaintext := mmAesdecSi128 plaintext (aes.mRoundKey 6)
  let plaintext := mmAesdecSi128 plaintext (aes.mRoundKey 7)
  let plaintext := mmAesdecSi128 plaintext (aes.mRoundKey 8)
  let plaintext := mmAesdecSi128 plaintext (aes.mRoundKey 9)
  mmAesdeclastSi128 plaintext (aes.mRoundKey 10)

/-! ## Decryption -/

/-- The round keys between the first and the last. -/
def innerKeys (key : Fin 11 → Block) : List (Xor 128) :=
  [key 1, key 2, key 3, key 4, key 5, key 6, key 7, key 8, key 9].map Xor.of

/-- One instruction is one round of the layers. -/
theorem mmAesencSi128_eq : (fun a key : Xor 128 => Xor.of (mmAesencSi128 a.word key.word)) =
    aesLayers.round := by
  funext a key
  show _ = Xor.of (ofAesState (mixColumns (aesState (ofAesState _)))) + key
  rw [aesState_ofAesState]
  rfl

theorem mmAesdecSi128_eq : (fun a key : Xor 128 => Xor.of (mmAesdecSi128 a.word key.word)) =
    aesLayers.inverse.round := by
  funext a key
  show _ = Xor.of (ofAesState (invMixColumns (aesState (ofAesState _)))) + key
  rw [aesState_ofAesState]
  rfl

theorem ecbEncBlock_layers (aes : AES) (plaintext : Block) :
    Xor.of (aes.ecbEncBlock plaintext) =
      aesLayers.encrypt (Xor.of (aes.mRoundKey 0)) (innerKeys aes.mRoundKey)
        (Xor.of (aes.mRoundKey 10)) (Xor.of plaintext) := by
  unfold Layers.encrypt
  rw [← mmAesencSi128_eq]
  rfl

theorem ecbDecBlock_layers (aes : AESDec) (cyphertext : Block) :
    Xor.of (aes.ecbDecBlock cyphertext) =
      aesLayers.inverse.encrypt (Xor.of (aes.mRoundKey 0)) (innerKeys aes.mRoundKey)
        (Xor.of (aes.mRoundKey 10)) (Xor.of cyphertext) := by
  unfold Layers.encrypt
  rw [← mmAesdecSi128_eq]
  rfl

/-- The inner keys of `AESDec` are those of `AES` in reverse, unmixed. -/
theorem innerKeys_setKey (userKey : Block) :
    innerKeys (AESDec.setKey userKey).mRoundKey =
      (innerKeys (AES.setKey userKey).mRoundKey).reverse.map aesLayers.unmix :=
  rfl

/-- `AESDec` and `AES` with one key undo each other. -/
theorem ecbDecBlock_ecbEncBlock (userKey b : Block) :
    (AESDec.setKey userKey).ecbDecBlock ((AES.setKey userKey).ecbEncBlock b) = b ∧
    (AES.setKey userKey).ecbEncBlock ((AESDec.setKey userKey).ecbDecBlock b) = b := by
  have ends : (AESDec.setKey userKey).mRoundKey 0 = (AES.setKey userKey).mRoundKey 10 ∧
      (AESDec.setKey userKey).mRoundKey 10 = (AES.setKey userKey).mRoundKey 0 := ⟨rfl, rfl⟩
  constructor
  · refine (ecbDecBlock_layers _ _).trans ?_
    rw [innerKeys_setKey, ends.1, ends.2, ecbEncBlock_layers]
    exact aesLayers.undo_encrypt _ _ _ _
  · refine (ecbEncBlock_layers _ _).trans ?_
    rw [ecbDecBlock_layers, innerKeys_setKey, ends.1, ends.2]
    exact aesLayers.encrypt_undo _ _ _ _

/-! ## The standard -/

/-- The round constants, from the first round on. -/
def rcon : Nat → Byte
  | 0 => 1#8
  | round + 1 => xtime (rcon round)

/-- Word `i` of the expanded key. -/
def keyWord (key : Block) : Nat → BitVec 32
  | 0 => lane 32 key 0
  | 1 => lane 32 key 1
  | 2 => lane 32 key 2
  | 3 => lane 32 key 3
  | i + 4 =>
    keyWord key i ^^^
      if i % 4 = 0 then subWord (rotWord (keyWord key (i + 3))) ^^^ (rcon (i / 4)).setWidth 32
      else keyWord key (i + 3)

def addRoundKey (word : Nat → BitVec 32) (round : Nat) (s : AesState) : AesState :=
  fun c r => s c r ^^^ lane 8 (word (4 * round + c)) r

def standardRound (word : Nat → BitVec 32) (s : AesState) (round : Nat) : AesState :=
  addRoundKey word round (mixColumns (shiftRows (subBytes s)))

/-- AES-128 as the standard states it: ten rounds, of which the last does not mix. -/
def standardCipher (key plaintext : Block) : Block :=
  let s := addRoundKey (keyWord key) 0 (aesState plaintext)
  let s := [1, 2, 3, 4, 5, 6, 7, 8, 9].foldl (standardRound (keyWord key)) s
  ofAesState (addRoundKey (keyWord key) 10 (shiftRows (subBytes s)))

/-! ## The key schedule -/

theorem xor_xor_middle {n : Nat} (a b c : BitVec n) : (a ^^^ b) ^^^ (b ^^^ c) = a ^^^ c := by
  rw [BitVec.xor_assoc, ← BitVec.xor_assoc b, BitVec.xor_self, BitVec.zero_xor]

theorem subWord_rotWord (w : BitVec 32) : subWord (rotWord w) = rotWord (subWord w) := by
  unfold subWord rotWord
  refine congrArg (@ofLanes 8) (funext fun r => ?_)
  rw [@lane_ofLanes 8, @lane_ofLanes 8]

/-- `key ^ (key << 32)`, lane by lane. -/
theorem lane_xor_slli (key : Block) :
    lane 32 (key ^^^ mmSlliSi128 key 4) =
      ![lane 32 key 0, lane 32 key 1 ^^^ lane 32 key 0, lane 32 key 2 ^^^ lane 32 key 1,
        lane 32 key 3 ^^^ lane 32 key 2] := by
  have shifted : lane 32 (mmSlliSi128 key 4) = _ := @lane_shiftLeft 32 key
  funext c
  rw [@lane_xor 32, shifted]
  match c with
  | 0 => exact BitVec.xor_zero
  | 1 => rfl
  | 2 => rfl
  | 3 => rfl

/-- The helper adds the selected lane to the running sums of the key. -/
theorem lane_keyGenHelper (key assist : Block) :
    lane 32 (keyGenHelper key assist) =
      ![lane 32 key 0 ^^^ lane 32 assist 3,
        lane 32 key 1 ^^^ (lane 32 key 0 ^^^ lane 32 assist 3),
        lane 32 key 2 ^^^ (lane 32 key 1 ^^^ (lane 32 key 0 ^^^ lane 32 assist 3)),
        lane 32 key 3 ^^^ (lane 32 key 2 ^^^ (lane 32 key 1 ^^^ (lane 32 key 0 ^^^
          lane 32 assist 3)))] := by
  have selected : lane 32 (mmShuffleEpi32 assist (mmShuffle 3#8 3#8 3#8 3#8)) =
      fun _ => lane 32 assist 3 := by
    have third : ∀ i : Fin 4, ((mmShuffle 3#8 3#8 3#8 3#8).extractLsb' (2 * i) 2).toFin = 3 := by
      decide
    refine (@lane_ofLanes 32 _).trans (funext fun i => ?_)
    rw [third i]
  have back : ∀ a b : BitVec 32, (a ^^^ b) ^^^ b = a := by
    intro a b
    rw [BitVec.xor_assoc, BitVec.xor_self, BitVec.xor_zero]
  unfold keyGenHelper
  funext c
  rw [@lane_xor 32, selected, lane_xor_slli, lane_xor_slli, lane_xor_slli]
  match c with
  | 0 => rfl
  | 1 =>
    show ((lane 32 key 1 ^^^ lane 32 key 0) ^^^ lane 32 key 0) ^^^ lane 32 key 0 ^^^ _ = _
    rw [back]
    ac_rfl
  | 2 =>
    show ((lane 32 key 2 ^^^ lane 32 key 1) ^^^ (lane 32 key 1 ^^^ lane 32 key 0)) ^^^
      ((lane 32 key 1 ^^^ lane 32 key 0) ^^^ lane 32 key 0) ^^^ _ = _
    rw [xor_xor_middle]
    ac_rfl
  | 3 =>
    show ((lane 32 key 3 ^^^ lane 32 key 2) ^^^ (lane 32 key 2 ^^^ lane 32 key 1)) ^^^
      ((lane 32 key 2 ^^^ lane 32 key 1) ^^^ (lane 32 key 1 ^^^ lane 32 key 0)) ^^^ _ = _
    rw [xor_xor_middle]
    ac_rfl

/-- One call of the helper makes the next four words. -/
theorem keyGenHelper_words {userKey key : Block} {round : Nat}
    (words : ∀ c : Fin 4, lane 32 key c = keyWord userKey (4 * round + c)) (c : Fin 4) :
    lane 32 (keyGenHelper key (mmAeskeygenassistSi128 key (rcon round))) c =
      keyWord userKey (4 * (round + 1) + c) := by
  have last : lane 32 key 3 = keyWord userKey (4 * round + 3) := words 3
  have assist : lane 32 (mmAeskeygenassistSi128 key (rcon round)) 3 =
      subWord (rotWord (keyWord userKey (4 * round + 3))) ^^^ (rcon round).setWidth 32 := by
    refine (congrFun (@lane_ofLanes 32 _) 3).trans ?_
    rw [subWord_rotWord, ← last]
    rfl
  have first : keyWord userKey (4 * round + 4) =
      lane 32 key 0 ^^^ lane 32 (mmAeskeygenassistSi128 key (rcon round)) 3 := by
    rw [keyWord, if_pos (Nat.mul_mod_right 4 round), Nat.mul_div_cancel_left _ (by decide),
      assist, words 0]
    rfl
  have next : ∀ d : Fin 4, d ≠ 0 → keyWord userKey (4 * round + d + 4) =
      lane 32 key d ^^^ keyWord userKey (4 * round + d + 3) := by
    intro d positive
    have inner : (4 * round + d) % 4 ≠ 0 := by
      have nonzero : (d : Nat) ≠ 0 := fun zero => positive (Fin.ext zero)
      omega
    rw [keyWord, if_neg inner, words d]
  have second : keyWord userKey (4 * round + 5) = _ := next 1 (by decide)
  have third : keyWord userKey (4 * round + 6) = _ := next 2 (by decide)
  have fourth : keyWord userKey (4 * round + 7) = _ := next 3 (by decide)
  rw [lane_keyGenHelper, ← first]
  match c with
  | 0 => rfl
  | 1 => exact second.symm
  | 2 => exact (third.trans (congrArg _ second)).symm
  | 3 => exact (fourth.trans (congrArg _ (third.trans (congrArg _ second)))).symm

/-- The constants written out in `setKey` are the round constants. -/
theorem setKey_succ (userKey : Block) (round : Fin 10) :
    (AES.setKey userKey).mRoundKey round.succ =
      keyGenHelper ((AES.setKey userKey).mRoundKey round.castSucc)
        (mmAeskeygenassistSi128 ((AES.setKey userKey).mRoundKey round.castSucc) (rcon round)) := by
  fin_cases round <;> rfl

/-- The round keys are the expanded key, four words each. -/
theorem setKey_words (userKey : Block) (round : Fin 11) (c : Fin 4) :
    lane 32 ((AES.setKey userKey).mRoundKey round) c = keyWord userKey (4 * round + c) := by
  induction round using Fin.induction generalizing c with
  | zero =>
    match c with
    | 0 => rfl
    | 1 => rfl
    | 2 => rfl
    | 3 => rfl
  | succ round ih =>
    rw [setKey_succ, Fin.val_succ]
    exact keyGenHelper_words ih c

/-! ## The cipher of the standard -/

theorem aesState_addRoundKey {word : Nat → BitVec 32} {round : Nat} {key : Block}
    (words : ∀ c : Fin 4, lane 32 key c = word (4 * round + c)) (s : AesState) :
    aesState (ofAesState s ^^^ key) = addRoundKey word round s := by
  rw [aesState_xor, aesState_ofAesState]
  funext c r
  exact congrArg (fun w => s c r ^^^ lane 8 w r) (words c)

/-- The instruction shifts the rows first, the standard substitutes the bytes first. -/
theorem aesState_mmAesencSi128 {word : Nat → BitVec 32} {round : Nat} {key : Block}
    (words : ∀ c : Fin 4, lane 32 key c = word (4 * round + c)) (a : Block) :
    aesState (mmAesencSi128 a key) = standardRound word (aesState a) round :=
  aesState_addRoundKey words _

theorem aesState_rounds (userKey : Block) (rounds : List (Fin 11)) (a : Block) :
    aesState (rounds.foldl
        (fun a round => mmAesencSi128 a ((AES.setKey userKey).mRoundKey round)) a) =
      (rounds.map Fin.val).foldl (standardRound (keyWord userKey)) (aesState a) := by
  induction rounds generalizing a with
  | nil => rfl
  | cons round rest ih =>
    rw [List.foldl_cons, ih, aesState_mmAesencSi128 (setKey_words userKey round)]
    rfl

/-- The class `AES` computes AES-128. -/
theorem ecbEncBlock_eq_standard (userKey plaintext : Block) :
    (AES.setKey userKey).ecbEncBlock plaintext = standardCipher userKey plaintext := by
  have whitened := aesState_addRoundKey (setKey_words userKey 0) (aesState plaintext)
  rw [ofAesState_aesState] at whitened
  have rounds := aesState_rounds userKey [1, 2, 3, 4, 5, 6, 7, 8, 9]
    (plaintext ^^^ (AES.setKey userKey).mRoundKey 0)
  rw [whitened] at rounds
  have last := aesState_addRoundKey (setKey_words userKey 10)
  calc (AES.setKey userKey).ecbEncBlock plaintext
      = ofAesState (aesState ((AES.setKey userKey).ecbEncBlock plaintext)) :=
        (ofAesState_aesState _).symm
    _ = standardCipher userKey plaintext := by
        refine congrArg ofAesState ((last _).trans ?_)
        exact congrArg (fun s => addRoundKey (keyWord userKey) 10 (shiftRows (subBytes s))) rounds

/-- The worked example of the standard. -/
example : (AES.setKey 0x3c4fcf098815f7aba6d2ae2816157e2b#128).ecbEncBlock
    0x340737e0a29831318d305a88a8f64332#128 = 0x320b6a19978511dcfb09dc021d842539#128 := by
  decide +kernel

end DpfPir
