import DpfPir.Aes
import DpfPir.Expansion
import DpfPir.MemoryPass

/-!
# Many blocks

The entry points of `AES` and `MultiKeyAES` that encrypt several blocks at once
(`AES.cpp`, `AES.h`). They keep eight blocks in flight, or walk over the destination once
for each round, and the destination may be the source.

Results:
1. `ecbEncBlocks_cells`: any number of blocks, in chunks of eight and a remainder, are the
   encryptions one by one, and nothing else is written.
2. `ecbEncLanes_cells`: the same for the round-by-round walks, with a key for each lane.
3. `ecbEncCounterMode_cells`: counter mode encrypts the base and its successors modulo
   `2 ^ 64`, as many as the length says when it is read as a signed 32-bit number.
4. `ecbEncFourBlocks_aesCipher`, `ecbEncBlocks_aesCipher`: what the tree calls of `AES`.
-/

namespace DpfPir

open LittleEndian MemoryPass

/-- Memory as a `block *` addresses it. -/
abbrev BlockMemory := Nat → Block

/-! ## Chunks of eight -/

/-- The rounds on all the lanes of `temp`. -/
def AES.encTemp (aes : AES) (temp : Nat → Block) : Nat → Block :=
  let temp := fun j => temp j ^^^ aes.mRoundKey 0
  let temp := fun j => mmAesencSi128 (temp j) (aes.mRoundKey 1)
  let temp := fun j => mmAesencSi128 (temp j) (aes.mRoundKey 2)
  let temp := fun j => mmAesencSi128 (temp j) (aes.mRoundKey 3)
  let temp := fun j => mmAesencSi128 (temp j) (aes.mRoundKey 4)
  let temp := fun j => mmAesencSi128 (temp j) (aes.mRoundKey 5)
  let temp := fun j => mmAesencSi128 (temp j) (aes.mRoundKey 6)
  let temp := fun j => mmAesencSi128 (temp j) (aes.mRoundKey 7)
  let temp := fun j => mmAesencSi128 (temp j) (aes.mRoundKey 8)
  let temp := fun j => mmAesencSi128 (temp j) (aes.mRoundKey 9)
  fun j => mmAesenclastSi128 (temp j) (aes.mRoundKey 10)

/-- The rounds on one cell of the destination, with a store after each. -/
def AES.encCell (aes : AES) (plaintext : Block) (cell : Nat) (mem : BlockMemory) : BlockMemory :=
  let mem := Function.update mem cell (plaintext ^^^ aes.mRoundKey 0)
  let mem := Function.update mem cell (mmAesencSi128 (mem cell) (aes.mRoundKey 1))
  let mem := Function.update mem cell (mmAesencSi128 (mem cell) (aes.mRoundKey 2))
  let mem := Function.update mem cell (mmAesencSi128 (mem cell) (aes.mRoundKey 3))
  let mem := Function.update mem cell (mmAesencSi128 (mem cell) (aes.mRoundKey 4))
  let mem := Function.update mem cell (mmAesencSi128 (mem cell) (aes.mRoundKey 5))
  let mem := Function.update mem cell (mmAesencSi128 (mem cell) (aes.mRoundKey 6))
  let mem := Function.update mem cell (mmAesencSi128 (mem cell) (aes.mRoundKey 7))
  let mem := Function.update mem cell (mmAesencSi128 (mem cell) (aes.mRoundKey 8))
  let mem := Function.update mem cell (mmAesencSi128 (mem cell) (aes.mRoundKey 9))
  Function.update mem cell (mmAesenclastSi128 (mem cell) (aes.mRoundKey 10))

theorem encTemp_eq (aes : AES) (temp : Nat → Block) (j : Nat) :
    aes.encTemp temp j = aes.ecbEncBlock (temp j) := rfl

theorem encCell_eq (aes : AES) (plaintext : Block) (cell : Nat) (mem : BlockMemory) :
    aes.encCell plaintext cell mem =
      Function.update mem cell (aes.ecbEncBlock plaintext) := by
  simp only [AES.encCell, AES.ecbEncBlock, Function.update_self, Function.update_idem]

/-- `AES::ecbEncBlocks`. -/
def AES.ecbEncBlocks (aes : AES) (plaintexts blockLength cyphertext : Nat) (mem : BlockMemory) :
    BlockMemory :=
  let length := blockLength - blockLength % 8
  let (idx, mem) := forIdx 8 (by decide) length (fun idx mem =>
    fill (cyphertext + idx) 8 (aes.encTemp fun j => mem (plaintexts + (idx + j))) mem) 0 mem
  (forIdx 1 Nat.one_pos blockLength (fun idx mem =>
    aes.encCell (mem (plaintexts + idx)) (cyphertext + idx) mem) idx mem).2

theorem ecbEncBlocks_eq (aes : AES) {plaintexts blockLength cyphertext : Nat}
    (ahead : Ahead plaintexts cyphertext blockLength) (mem : BlockMemory) :
    aes.ecbEncBlocks plaintexts blockLength cyphertext mem =
      mapped plaintexts cyphertext (fun _ => aes.ecbEncBlock) blockLength mem := by
  let image := fun idx => mapped plaintexts cyphertext (fun _ => aes.ecbEncBlock) idx mem
  let chunk := fun idx (mem : BlockMemory) =>
    fill (cyphertext + idx) 8 (aes.encTemp fun j => mem (plaintexts + (idx + j))) mem
  let single := fun idx (mem : BlockMemory) =>
    aes.encCell (mem (plaintexts + idx)) (cyphertext + idx) mem
  have chunks : ∀ idx, idx + 8 ≤ blockLength - blockLength % 8 →
      chunk idx (image idx) = image (idx + 8) := fun idx room =>
    fill_mapped ahead _ mem (by omega) fun j _ => encTemp_eq aes _ j
  have singles : ∀ idx, idx + 1 ≤ blockLength → single idx (image idx) = image (idx + 1) := by
    intro idx room
    exact (encCell_eq aes _ _ _).trans (update_mapped ahead _ mem room rfl)
  have eights : 8 ∣ blockLength - blockLength % 8 - 0 := Nat.dvd_sub_mod blockLength
  have whole := forIdx_image (by decide) chunk image eights (Nat.zero_le _) chunks
  have rest := forIdx_image Nat.one_pos single image
    (Nat.one_dvd _) (Nat.sub_le blockLength (blockLength % 8)) singles
  have start : image 0 = mem := mapped_zero _ _ _ mem
  rw [start] at whole
  show (forIdx 1 _ blockLength single
    (forIdx 8 _ (blockLength - blockLength % 8 : Nat) chunk 0 mem).1
    (forIdx 8 _ (blockLength - blockLength % 8 : Nat) chunk 0 mem).2).2 = image blockLength
  rw [whole, rest]

/-- Any number of blocks are encrypted one by one, and no other block is written. The
destination may be the source, or start before it. -/
theorem ecbEncBlocks_cells (aes : AES) {plaintexts blockLength cyphertext : Nat}
    (ahead : Ahead plaintexts cyphertext blockLength) (mem : BlockMemory) :
    (∀ i < blockLength, aes.ecbEncBlocks plaintexts blockLength cyphertext mem (cyphertext + i) =
      aes.ecbEncBlock (mem (plaintexts + i))) ∧
    ∀ a, a < cyphertext ∨ cyphertext + blockLength ≤ a →
      aes.ecbEncBlocks plaintexts blockLength cyphertext mem a = mem a := by
  rw [ecbEncBlocks_eq aes ahead]
  exact ⟨fun i inside => mapped_inside _ _ _ mem inside,
    fun a outside => mapped_outside _ mem outside⟩

/-- Ten blocks in place: a chunk of eight and two more. -/
theorem ecbEncBlocks_cells_ten :
    (AES.setKey 0#128).ecbEncBlocks 5 10 5 (fun a => BitVec.ofNat 128 a) (5 + 9) =
      (AES.setKey 0#128).ecbEncBlock 14#128 :=
  (ecbEncBlocks_cells (AES.setKey 0#128) (Or.inl le_rfl) (fun a => BitVec.ofNat 128 a)).1 9
    (by decide)

/-! ## Lanes -/

/-- The walks over `n` cells, one for each round, with a key for each lane. -/
def ecbEncLanes (n : Nat) (aess : Nat → AES) (plaintexts cyphertext : Nat) (mem : BlockMemory) :
    BlockMemory :=
  let enc := fun round => pass n cyphertext cyphertext
    fun i v => mmAesencSi128 v ((aess i).mRoundKey round)
  let mem := pass n plaintexts cyphertext (fun i v => v ^^^ (aess i).mRoundKey 0) mem
  let mem := enc 1 mem
  let mem := enc 2 mem
  let mem := enc 3 mem
  let mem := enc 4 mem
  let mem := enc 5 mem
  let mem := enc 6 mem
  let mem := enc 7 mem
  let mem := enc 8 mem
  let mem := enc 9 mem
  pass n cyphertext cyphertext (fun i v => mmAesenclastSi128 v ((aess i).mRoundKey 10)) mem

/-- `AES::ecbEncTwoBlocks`. -/
def AES.ecbEncTwoBlocks (aes : AES) := ecbEncLanes 2 fun _ => aes

/-- `AES::ecbEncFourBlocks`. -/
def AES.ecbEncFourBlocks (aes : AES) := ecbEncLanes 4 fun _ => aes

/-- `AES::ecbEnc16Blocks`. -/
def AES.ecbEnc16Blocks (aes : AES) := ecbEncLanes 16 fun _ => aes

/-- `template<int N> class MultiKeyAES`. -/
structure MultiKeyAES (N : Nat) where
  mAESs : Vector AES N

def MultiKeyAES.setKeys {N : Nat} (keys : Vector Block N) : MultiKeyAES N where
  mAESs := keys.map AES.setKey

/-- `MultiKeyAES::ecbEncNBlocks`. No lane after the last is read. -/
def MultiKeyAES.ecbEncNBlocks {N : Nat} (multi : MultiKeyAES N) :=
  ecbEncLanes N fun i => multi.mAESs[i]?.getD (AES.setKey 0#128)

theorem ecbEncLanes_eq {n : Nat} (aess : Nat → AES) {plaintexts cyphertext : Nat}
    (ahead : Ahead plaintexts cyphertext n) (mem : BlockMemory) :
    ecbEncLanes n aess plaintexts cyphertext mem =
      mapped plaintexts cyphertext (fun i => (aess i).ecbEncBlock) n mem := by
  have inPlace : Ahead cyphertext cyphertext n := Or.inl le_rfl
  unfold ecbEncLanes
  simp only [pass_eq ahead, pass_eq inPlace, mapped_mapped]
  rfl

/-- The walks encrypt lane by lane, each lane with its own key, and write no other
block. -/
theorem ecbEncLanes_cells {n : Nat} (aess : Nat → AES) {plaintexts cyphertext : Nat}
    (ahead : Ahead plaintexts cyphertext n) (mem : BlockMemory) :
    (∀ i < n, ecbEncLanes n aess plaintexts cyphertext mem (cyphertext + i) =
      (aess i).ecbEncBlock (mem (plaintexts + i))) ∧
    ∀ a, a < cyphertext ∨ cyphertext + n ≤ a →
      ecbEncLanes n aess plaintexts cyphertext mem a = mem a := by
  rw [ecbEncLanes_eq aess ahead]
  exact ⟨fun i inside => mapped_inside _ _ _ mem inside,
    fun a outside => mapped_outside _ mem outside⟩

/-- Four blocks one cell down. -/
theorem ecbEncLanes_cells_four :
    (AES.setKey 1#128).ecbEncFourBlocks 3 2 (fun a => BitVec.ofNat 128 a) (2 + 3) =
      (AES.setKey 1#128).ecbEncBlock 6#128 :=
  (ecbEncLanes_cells (fun _ => AES.setKey 1#128) (Or.inl (by decide : 2 ≤ 3))
    (fun a => BitVec.ofNat 128 a)).1 3 (by decide)

/-- Every lane of `MultiKeyAES` is `AES` with the key of the lane. -/
theorem ecbEncNBlocks_setKeys {N : Nat} (keys : Vector Block N) {plaintext cyphertext : Nat}
    (ahead : Ahead plaintext cyphertext N) (mem : BlockMemory) {i : Nat} (inside : i < N) :
    (MultiKeyAES.setKeys keys).ecbEncNBlocks plaintext cyphertext mem (cyphertext + i) =
      (AES.setKey keys[i]).ecbEncBlock (mem (plaintext + i)) := by
  rw [MultiKeyAES.ecbEncNBlocks, ecbEncLanes_eq _ ahead, mapped_inside _ _ _ mem inside]
  have lane : (MultiKeyAES.setKeys keys).mAESs[i]? = some (AES.setKey keys[i]) := by
    rw [Vector.getElem?_eq_getElem inside, MultiKeyAES.setKeys, Vector.getElem_map]
  rw [lane, Option.getD_some]

/-! ## Counter mode -/

/-- `i32(x)`. -/
def i32 (x : BitVec 64) : Int := (x.setWidth 32).toInt

/-- `AES::ecbEncCounterMode`. The loops share the index and the base. -/
def AES.ecbEncCounterMode (aes : AES) (baseIdx blockLength : BitVec 64) (cyphertext : Nat)
    (mem : BlockMemory) : BlockMemory :=
  let length := i32 (blockLength - blockLength % 8#64)
  let (idx, st) := forIdx 8 (by decide) length (fun idx (st : BitVec 64 × BlockMemory) =>
    (st.1 + 8#64, fill (cyphertext + idx) 8
      (aes.encTemp fun j => mmSet1Epi64x (st.1 + BitVec.ofNat 64 j)) st.2)) 0 (baseIdx, mem)
  (forIdx 1 Nat.one_pos (i32 blockLength) (fun idx (st : BitVec 64 × BlockMemory) =>
    (st.1 + 1#64, aes.encCell (mmSet1Epi64x st.1) (cyphertext + idx) st.2)) idx st).2.2

/-- The number of blocks that counter mode writes. -/
def counterLength (blockLength : BitVec 64) : Nat := (i32 blockLength).toNat

theorem counterLength_eq (blockLength : BitVec 64) :
    counterLength blockLength =
      if blockLength.toNat % 2 ^ 32 < 2 ^ 31 then blockLength.toNat % 2 ^ 32 else 0 := by
  unfold counterLength i32
  rw [BitVec.toInt_eq_toNat_cond, BitVec.toNat_setWidth]
  split <;> split <;> omega

/-- The chunks of eight stop below the blocks that are written. -/
theorem i32_chunks (blockLength : BitVec 64) :
    (i32 (blockLength - blockLength % 8#64)).toNat =
      counterLength blockLength - counterLength blockLength % 8 := by
  have low : (blockLength - blockLength % 8#64).toNat =
      blockLength.toNat - blockLength.toNat % 8 := by
    rw [BitVec.toNat_sub_of_le, BitVec.toNat_umod]
    · rfl
    · rw [BitVec.le_def, BitVec.toNat_umod]
      exact Nat.mod_le _ _
  have chunks := counterLength_eq (blockLength - blockLength % 8#64)
  rw [low] at chunks
  rw [counterLength_eq]
  refine chunks.trans ?_
  split <;> split <;> omega

theorem ecbEncCounterMode_eq (aes : AES) (baseIdx blockLength : BitVec 64) (cyphertext : Nat)
    (mem : BlockMemory) :
    aes.ecbEncCounterMode baseIdx blockLength cyphertext mem =
      mapped cyphertext cyphertext
        (fun i _ => aes.ecbEncBlock (mmSet1Epi64x (baseIdx + BitVec.ofNat 64 i)))
        (counterLength blockLength) mem := by
  let counter := fun i (_ : Block) =>
    aes.ecbEncBlock (mmSet1Epi64x (baseIdx + BitVec.ofNat 64 i))
  let image := fun idx =>
    (baseIdx + BitVec.ofNat 64 idx, mapped cyphertext cyphertext counter idx mem)
  let chunk := fun idx (st : BitVec 64 × BlockMemory) =>
    (st.1 + 8#64, fill (cyphertext + idx) 8
      (aes.encTemp fun j => mmSet1Epi64x (st.1 + BitVec.ofNat 64 j)) st.2)
  let single := fun idx (st : BitVec 64 × BlockMemory) =>
    (st.1 + 1#64, aes.encCell (mmSet1Epi64x st.1) (cyphertext + idx) st.2)
  have inPlace : Ahead cyphertext cyphertext (counterLength blockLength) := Or.inl le_rfl
  -- the base runs along with the index
  have next : ∀ idx step, baseIdx + BitVec.ofNat 64 idx + BitVec.ofNat 64 step =
      baseIdx + BitVec.ofNat 64 (idx + step) := by
    intro idx step
    rw [BitVec.add_assoc, BitVec.ofNat_add]
  have chunks : ∀ idx, idx + 8 ≤ counterLength blockLength - counterLength blockLength % 8 →
      chunk idx (image idx) = image (idx + 8) := by
    intro idx room
    refine Prod.ext (next idx 8) (fill_mapped inPlace counter mem (by omega) fun j _ => ?_)
    rw [encTemp_eq]
    show aes.ecbEncBlock (mmSet1Epi64x (baseIdx + BitVec.ofNat 64 idx + BitVec.ofNat 64 j)) = _
    rw [next]
  have singles : ∀ idx, idx + 1 ≤ counterLength blockLength →
      single idx (image idx) = image (idx + 1) := by
    intro idx room
    refine Prod.ext (next idx 1) ((encCell_eq aes _ _ _).trans ?_)
    exact update_mapped inPlace counter mem room rfl
  have eights : 8 ∣ counterLength blockLength - counterLength blockLength % 8 - 0 :=
    Nat.dvd_sub_mod _
  have whole := forIdx_image (by decide) chunk image eights (Nat.zero_le _) chunks
  have rest := forIdx_image Nat.one_pos single image (Nat.one_dvd _)
    (Nat.sub_le (counterLength blockLength) (counterLength blockLength % 8)) singles
  have start : image 0 = (baseIdx, mem) :=
    Prod.ext (BitVec.add_zero _) (mapped_zero cyphertext cyphertext counter mem)
  rw [start] at whole
  show (forIdx 1 _ (i32 blockLength) single
    (forIdx 8 _ (i32 (blockLength - blockLength % 8#64)) chunk 0 (baseIdx, mem)).1
    (forIdx 8 _ (i32 (blockLength - blockLength % 8#64)) chunk 0 (baseIdx, mem)).2).2.2 =
      (image (counterLength blockLength)).2
  rw [forIdx_toNat _ (i32 (blockLength - blockLength % 8#64)), i32_chunks, whole, forIdx_toNat]
  exact congrArg (fun st => st.2.2) rest

/-- Counter mode writes the encryptions of the base and its successors modulo `2 ^ 64`, each
in both halves of its block. It reads the length as a signed 32-bit number, writes that
many blocks, none when it is negative, and nothing else. -/
theorem ecbEncCounterMode_cells (aes : AES) (baseIdx blockLength : BitVec 64) (cyphertext : Nat)
    (mem : BlockMemory) :
    (∀ i < (blockLength.setWidth 32).toInt.toNat,
      aes.ecbEncCounterMode baseIdx blockLength cyphertext mem (cyphertext + i) =
        aes.ecbEncBlock (mmSet1Epi64x (baseIdx + BitVec.ofNat 64 i))) ∧
    ∀ a, a < cyphertext ∨ cyphertext + (blockLength.setWidth 32).toInt.toNat ≤ a →
      aes.ecbEncCounterMode baseIdx blockLength cyphertext mem a = mem a := by
  rw [ecbEncCounterMode_eq]
  exact ⟨fun i inside => mapped_inside _ _ _ mem inside,
    fun a outside => mapped_outside _ mem outside⟩

/-! ## The calls of the tree -/

/-- The cipher that the repository instantiates the tree with. -/
def aesCipher : Cipher := fun key plaintext => (AES.setKey key).ecbEncBlock plaintext

/-- The call in `prg_eval_all_and_xor`, with `k_block` as the plaintexts. -/
theorem ecbEncFourBlocks_aesCipher (key : Block) {plaintexts cyphertext : Nat}
    (ahead : Ahead plaintexts cyphertext 4) {mem : BlockMemory}
    (kBlock : ∀ j : Fin 4, mem (plaintexts + j) = toBlock 0#64 (BitVec.ofNat 64 j)) (j : Fin 4) :
    (AES.setKey key).ecbEncFourBlocks plaintexts cyphertext mem (cyphertext + j) =
      ecbEncFourBlocks aesCipher key j := by
  rw [AES.ecbEncFourBlocks, ecbEncLanes_eq _ ahead, mapped_inside _ _ _ mem j.isLt, kBlock j]
  rfl

/-- The call in `convert`: the buffer `ct` holds what the group elements are cut out of. -/
theorem ecbEncBlocks_aesCipher (key : Block) {pt numblocks ct : Nat} (ahead : Ahead pt ct numblocks)
    {mem : BlockMemory}
    (counts : ∀ i < numblocks, mem (pt + i) = toBlock 0#64 (BitVec.ofNat 64 i)) :
    (List.range numblocks).map
        (fun i => (AES.setKey key).ecbEncBlocks pt numblocks ct mem (ct + i)) =
      (List.range numblocks).map fun i => aesCipher key (toBlock 0#64 (BitVec.ofNat 64 i)) := by
  refine List.map_congr_left fun i listed => ?_
  have inside := List.mem_range.mp listed
  rw [ecbEncBlocks_eq _ ahead, mapped_inside _ _ _ mem inside, counts i inside]
  rfl

end DpfPir
