import DpfPir.CorrectionTree
import DpfPir.Keys
import DpfPir.ParallelLoop

/-!
# Node expansion

The pseudorandom generator of the tree: `convert`, which derives group elements
from a seed, and `prg_eval_all_and_xor`, which expands a whole layer and sums the
expansions (`dpf.cpp`, lines 36 to 141). AES is a parameter: any function of a
key and a plaintext.

Results:
1. `convert_fields`: the group elements are cut out of the block, or of its
   encryptions, at bytes of their own, and do not depend on the memory that follows.
2. `prgEvalAllAndXor_nodes`, `prgEvalAllAndXor_zs` and their companions for the
   control bits: for every schedule of the parallel loop the children are the
   expansions of their parents and the sums are the plain sums over the layer.
3. `aesGenerator`: the generator that instantiates the trees with correction words.
-/

namespace DpfPir

open LittleEndian Words ParallelLoop CorrectionTree

/-- The parallel loops of `dpf.cpp`. -/
inductive Loop
  | expand (party : Fin 2) (level : Nat)
  | correct (party : Fin 2) (level : Nat)
  | leaves (party : Fin 2)
  | blocks

/-- What a function of `dpf.cpp` takes from the machine it runs on: the number of
threads `nt`, the schedule of each parallel loop, and the memory that follows
its local buffers. -/
structure Machine where
  nt : Nat
  schedule : Loop → (n : Nat) → Schedule nt n
  beyond : Nat → Byte

/-- `schedule(static, 1)` on `nt` threads, with zeros after every buffer. -/
def Machine.static (nt : Nat) (pos : 0 < nt) : Machine where
  nt := nt
  schedule := fun _ n => Schedule.static nt n pos
  beyond := fun _ => 0#8

/-- AES: a ciphertext block for each key and plaintext block. -/
abbrev Cipher := Block → Block → Block

def toBlock (high low : BitVec 64) : Block := high ++ low

/-- The lowest bit of a block. -/
def lsb (b : Block) : Byte := (b.setWidth 64 &&& 1#64).setWidth 8

/-! ## Group elements from a seed -/

def bytesize (bitsize : Nat) : Nat :=
  if bitsize % 8 = 0 then bitsize / 8 else bitsize / 8 + 1

/-- `*(uint64_t *)(bptr + offset)` over a buffer and the memory that follows it. -/
def loadWord (bptr : List Byte) (beyond : Nat → Byte) (offset : Nat) : BitVec 64 :=
  BitVec.ofNat 64 (ofBytes (readAt bptr beyond offset 8))

/-- `convert`: the elements are cut out of the block itself when it is long
enough, and out of its encryptions of 0, 1, 2, ... otherwise. -/
def convert (aes : Cipher) (beyond : Nat → Byte) (outBitwidth noOfGroupElements : Nat)
    (inpBlock : Block) : Fin noOfGroupElements → GroupElement :=
  let bys := bytesize outBitwidth
  let totalbys := bys * noOfGroupElements
  if totalbys ≤ 16 then
    let bptr := toBytes 16 inpBlock.toNat
    fun i => GroupElement.ofValue (loadWord bptr beyond (i * bys)) outBitwidth
  else
    let numblocks := if totalbys % 16 = 0 then totalbys / 16 else totalbys / 16 + 1
    let ct := (List.range numblocks).map fun i => aes inpBlock (toBlock 0#64 (BitVec.ofNat 64 i))
    let bptr := ct.flatMap fun c => toBytes 16 c.toNat
    fun i => GroupElement.ofValue (loadWord bptr beyond (i * bys)) outBitwidth

theorem bytesize_eq (w : Nat) : bytesize w = (w + 7) / 8 := by
  unfold bytesize
  split <;> omega

@[simp] theorem bitsize_convert (aes : Cipher) (beyond : Nat → Byte) (w n : Nat) (b : Block)
    (i : Fin n) : (convert aes beyond w n b i).bitsize = w := by
  unfold convert
  simp only
  split <;> rfl

/-- A load of 8 bytes of which the first `k` lie in the buffer and hold the width. -/
theorem toNat_ofValue_loadWord {bptr : List Byte} {offset k w : Nat}
    (inside : offset + k ≤ bptr.length) (short : k ≤ 8) (enough : w ≤ 8 * k)
    (beyond : Nat → Byte) :
    (GroupElement.ofValue (loadWord bptr beyond offset) w).value.toNat =
      ofBytes ((bptr.drop offset).take k) % 2 ^ w := by
  have hw : w ≤ 64 := by omega
  have window : ofBytes (readAt bptr beyond offset (k + (8 - k))) % 2 ^ w = _ :=
    ofBytes_readAt_mod inside enough beyond
  rw [Nat.add_sub_of_le short] at window
  rw [GroupElement.ofValue_toNat hw, loadWord, BitVec.toNat_ofNat,
    Nat.mod_mod_of_dvd _ (Nat.pow_dvd_pow 2 hw), window]

/-- The bytes that `n` elements of width `w` are cut out of: the block itself, or its
encryptions of 0, 1, 2, ... An element takes as many bytes as its width needs. -/
def convertSource (aes : Cipher) (w n : Nat) (b : Block) : List Byte :=
  if n * ((w + 7) / 8) ≤ 16 then toBytes 16 b.toNat
  else (List.range ((n * ((w + 7) / 8) + 15) / 16)).flatMap fun j =>
    toBytes 16 (aes b (toBlock 0#64 (BitVec.ofNat 64 j))).toNat

theorem convert_eq (aes : Cipher) (beyond : Nat → Byte) (w n : Nat) (b : Block) (i : Fin n) :
    convert aes beyond w n b i =
      GroupElement.ofValue (loadWord (convertSource aes w n b) beyond (i * ((w + 7) / 8))) w := by
  have total : (w + 7) / 8 * n = n * ((w + 7) / 8) := Nat.mul_comm _ _
  have blocks : ∀ bytes : Nat,
      (if bytes % 16 = 0 then bytes / 16 else bytes / 16 + 1) = (bytes + 15) / 16 := by
    intro bytes
    split <;> omega
  unfold convert convertSource
  simp only [bytesize_eq, total, blocks, List.flatMap_map]
  split <;> rfl

theorem length_convertSource (aes : Cipher) (w n : Nat) (b : Block) :
    n * ((w + 7) / 8) ≤ (convertSource aes w n b).length := by
  unfold convertSource
  split
  · rw [length_toBytes]
    assumption
  · simp only [List.length_flatMap, length_toBytes, List.map_const', List.length_range,
      List.sum_replicate, smul_eq_mul]
    omega

/-- The bytes of an element lie inside the source. -/
theorem convertSource_inside (aes : Cipher) (w : Nat) {n : Nat} (b : Block) (i : Fin n) :
    i * ((w + 7) / 8) + (w + 7) / 8 ≤ (convertSource aes w n b).length := by
  have next : (i + 1) * ((w + 7) / 8) ≤ n * ((w + 7) / 8) := Nat.mul_le_mul_right _ i.isLt
  rw [Nat.add_mul, Nat.one_mul] at next
  exact next.trans (length_convertSource aes w n b)

theorem convert_toNat (aes : Cipher) (beyond : Nat → Byte) {w n : Nat} (hw : w ≤ 64) (b : Block)
    (i : Fin n) :
    (convert aes beyond w n b i).value.toNat =
      ofBytes (((convertSource aes w n b).drop (i * ((w + 7) / 8))).take ((w + 7) / 8)) %
        2 ^ w := by
  rw [convert_eq]
  exact toNat_ofValue_loadWord (convertSource_inside aes w b i) (by omega) (by omega) beyond

/-- The memory behind the source does not reach the result. -/
theorem convert_inside (aes : Cipher) (beyond beyond' : Nat → Byte) {w : Nat} (hw : w ≤ 64)
    (n : Nat) (b : Block) : convert aes beyond w n b = convert aes beyond' w n b := by
  funext i
  refine GroupElement.ext ?_ (BitVec.eq_of_toNat_eq ?_)
  · rw [bitsize_convert, bitsize_convert]
  · rw [convert_toNat aes beyond hw, convert_toNat aes beyond' hw]

/-- `convert` cuts independent fields out of its source: the bytes of each element lie
inside the source, no two elements share a byte, and an element is the little-endian
integer of its bytes modulo `2 ^ w`, whatever follows the source in memory. -/
theorem convert_fields (aes : Cipher) {w : Nat} (hw : w ≤ 64) (n : Nat) (b : Block) :
    (∀ i : Fin n, i * ((w + 7) / 8) + (w + 7) / 8 ≤ (convertSource aes w n b).length) ∧
    (∀ i j : Fin n, i ≠ j →
      Disjoint (Finset.Ico (i * ((w + 7) / 8)) (i * ((w + 7) / 8) + (w + 7) / 8))
        (Finset.Ico (j * ((w + 7) / 8)) (j * ((w + 7) / 8) + (w + 7) / 8))) ∧
    (∀ beyond i, (convert aes beyond w n b i).bitsize = w ∧
      (convert aes beyond w n b i).value.toNat =
        ofBytes (((convertSource aes w n b).drop (i * ((w + 7) / 8))).take ((w + 7) / 8)) %
          2 ^ w) ∧
    ∀ beyond beyond', convert aes beyond w n b = convert aes beyond' w n b := by
  refine ⟨convertSource_inside aes w b, ?_, ?_, ?_⟩
  · intro i j apart
    rw [Finset.disjoint_left]
    intro byte left right
    rw [Finset.mem_Ico] at left right
    -- the number of the element is the quotient of the byte by the bytes of an element
    have number : ∀ k : Fin n, k * ((w + 7) / 8) ≤ byte →
        byte < k * ((w + 7) / 8) + (w + 7) / 8 → byte / ((w + 7) / 8) = k := by
      intro k low high
      rw [Nat.div_eq_iff (by omega)]
      omega
    exact apart (Fin.ext ((number i left.1 left.2).symm.trans (number j right.1 right.2)))
  · intro beyond i
    exact ⟨bitsize_convert aes beyond w n b i, convert_toNat aes beyond hw b i⟩
  · intro beyond beyond'
    exact convert_inside aes beyond beyond' hw n b

/-- Nine elements of ten bits are cut out of two encryptions. The last one is loaded
from the start of the second, and nothing of the memory behind that. -/
theorem convert_fields_ten :
    (convert (fun k p => k + p) (fun _ => 0xff#8) 10 9 0x123456789abcdef0fedcba9876543210#128
      8).value.toNat = ofBytes [0x11#8, 0x32#8] % 2 ^ 10 :=
  ((convert_fields (fun k p => k + p) (by decide) 9 0x123456789abcdef0fedcba9876543210#128).2.2.1
    (fun _ => 0xff#8) 8).2

/-! ## The expansion of a layer -/

/-- `struct dpf_layer` after `prg_eval_all_and_xor`, indexed by its `size`. The
counter `level` is read by profiling output only and is left out, and `prevt` is
an alias of the caller's `hatt`, which the caller passes on itself. -/
@[ext] structure DpfLayer (size : Nat) where
  nodes : Fin size → Block
  currt : Fin size → Byte
  zs : Fin 2 → Block
  zt : Fin 2 → Byte

/-- The four ciphertexts of the plaintexts 0, 1, 2, 3. -/
def ecbEncFourBlocks (aes : Cipher) (k : Block) : Fin 4 → Block :=
  fun j => aes k (toBlock 0#64 (BitVec.ofNat 64 j))

/-- The stores `a[2*i] = x; a[2*i+1] = y`. -/
def storePair {α : Type} {size : Nat} (a : Fin (size * 2) → α) (i : Fin size) (x y : α) :
    Fin (size * 2) → α :=
  Function.update (Function.update a (childIndex i 0) x) (childIndex i 1) y

/-- The arrays that the expansion loop writes. -/
structure ExpansionState (nt size : Nat) where
  outputNodes : Fin (size * 2) → Block
  outputT : Fin (size * 2) → Byte
  threadZs : Fin nt → Fin 2 → Block
  threadZt : Fin nt → Fin 2 → Byte

/-- The body of the expansion loop: node `i` on thread `threadId`. -/
def expandNode {nt size : Nat} (aes : Cipher) (keynodes : Fin size → Block) (i : Fin size)
    (threadId : Fin nt) (st : ExpansionState nt size) : ExpansionState nt size :=
  let ctt := ecbEncFourBlocks aes (keynodes i)
  { outputNodes := storePair st.outputNodes i (ctt 0) (ctt 2)
    outputT := storePair st.outputT i (lsb (ctt 1)) (lsb (ctt 3))
    threadZs := Function.update st.threadZs threadId
      ![st.threadZs threadId 0 ^^^ ctt 0, st.threadZs threadId 1 ^^^ ctt 2]
    threadZt := Function.update st.threadZt threadId
      ![st.threadZt threadId 0 ^^^ lsb (ctt 1), st.threadZt threadId 1 ^^^ lsb (ctt 3)] }

/-- The arrays before the loop. The two output arrays come from `malloc`; every
cell is written before it is read. -/
def ExpansionState.init (nt size : Nat) : ExpansionState nt size where
  outputNodes := fun _ => 0#128
  outputT := fun _ => 0#8
  threadZs := fun _ _ => 0#128
  threadZt := fun _ _ => 0#8

/-- `prg_eval_all_and_xor`. -/
def prgEvalAllAndXor (m : Machine) (loop : Loop) (aes : Cipher) {size : Nat}
    (keynodes : Fin size → Block) : DpfLayer (size * 2) :=
  let st := (m.schedule loop size).run (expandNode aes keynodes) (ExpansionState.init m.nt size)
  { nodes := st.outputNodes
    currt := st.outputT
    zs := merge (fun zs thread b => zs b ^^^ thread b) (fun _ => 0#128) st.threadZs
    zt := merge (fun zt thread b => zt b ^^^ thread b) (fun _ => 0#8) st.threadZt }

/-! ## The generator -/

/-- The child seed in direction `d`: ciphertext 0 on the left, 2 on the right. -/
def childSeed (aes : Cipher) (k : Block) (d : Fin 2) : Block :=
  ![ecbEncFourBlocks aes k 0, ecbEncFourBlocks aes k 2] d

/-- The child bit in direction `d`, from ciphertexts 1 and 3. -/
def childBit (aes : Cipher) (k : Block) (d : Fin 2) : Byte :=
  ![lsb (ecbEncFourBlocks aes k 1), lsb (ecbEncFourBlocks aes k 3)] d

theorem lsb_cases (b : Block) : lsb b = 0#8 ∨ lsb b = 1#8 := by
  have bit : (lsb b).toNat = b.toNat % 2 := by
    have one : (1#64).toNat = 2 ^ 1 - 1 := rfl
    rw [lsb, BitVec.toNat_setWidth, BitVec.toNat_and, one, Nat.and_two_pow_sub_one_eq_mod,
      BitVec.toNat_setWidth]
    omega
  rcases Nat.mod_two_eq_zero_or_one b.toNat with even | odd
  · exact Or.inl (BitVec.eq_of_toNat_eq (bit.trans even))
  · exact Or.inr (BitVec.eq_of_toNat_eq (bit.trans odd))

theorem childBit_cases (aes : Cipher) (k : Block) (d : Fin 2) :
    childBit aes k d = 0#8 ∨ childBit aes k d = 1#8 := by
  match d with
  | 0 => exact lsb_cases _
  | 1 => exact lsb_cases _

/-- The generator that the keys are built on: seeds and bits under exclusive or. -/
def aesGenerator (aes : Cipher) : Generator (Xor 128) (Xor 8) where
  seed s d := Xor.of (childSeed aes s.word d)
  bit s d := Xor.of (childBit aes s.word d)
  one := Xor.of 1#8
  one_ne_zero := by
    show (1#8 : BitVec 8) ≠ 0#8
    decide
  seed_self s := BitVec.xor_self
  bit_self b := BitVec.xor_self
  bit_cases s d := childBit_cases aes s.word d

/-! ## The loop computes the generator -/

theorem storePair_self {α : Type} {size : Nat} (a : Fin (size * 2) → α) (i : Fin size)
    (x y : α) (d : Fin 2) : storePair a i x y (childIndex i d) = ![x, y] d := by
  unfold storePair
  match d with
  | 0 =>
    have other : childIndex i 0 ≠ childIndex i 1 := by
      simp [childIndex]
    rw [Function.update_of_ne other, Function.update_self]
    rfl
  | 1 => rw [Function.update_self]; rfl

theorem storePair_of_ne {α : Type} {size : Nat} (a : Fin (size * 2) → α) {i k : Fin size}
    (x y : α) (d : Fin 2) (ne : k ≠ i) :
    storePair a i x y (childIndex k d) = a (childIndex k d) := by
  have apart : ∀ e : Fin 2, childIndex k d ≠ childIndex i e := by
    intro e same
    exact ne (by simpa using congrArg Fin.divNat same)
  rw [storePair, Function.update_of_ne (apart 1), Function.update_of_ne (apart 0)]

/-- Seen as an array of pairs of children, `storePair` stores one pair. -/
theorem storePair_children {α : Type} {size : Nat} (a : Fin (size * 2) → α) (i : Fin size)
    (x y : α) :
    (fun (k : Fin size) (d : Fin 2) => storePair a i x y (childIndex k d)) =
      Function.update (fun k d => a (childIndex k d)) i ![x, y] := by
  funext k d
  by_cases same : k = i
  · rw [same, storePair_self, Function.update_self]
  · rw [storePair_of_ne a x y d same, Function.update_of_ne same]

section Layer

variable (m : Machine) (loop : Loop) (aes : Cipher) {size : Nat} (keynodes : Fin size → Block)

theorem prgEvalAllAndXor_nodes (j : Fin (size * 2)) :
    (prgEvalAllAndXor m loop aes keynodes).nodes j =
      childSeed aes (keynodes j.divNat) j.modNat := by
  have cells := (m.schedule loop size).run_store (expandNode aes keynodes)
    (fun st (i : Fin size) (d : Fin 2) => st.outputNodes (childIndex i d))
    (fun i => childSeed aes (keynodes i))
    (fun i t st => storePair_children st.outputNodes i _ _)
    (ExpansionState.init m.nt size)
  have cell := congrFun (congrFun cells j.divNat) j.modNat
  rwa [childIndex_divNat_modNat] at cell

theorem prgEvalAllAndXor_currt (j : Fin (size * 2)) :
    (prgEvalAllAndXor m loop aes keynodes).currt j =
      childBit aes (keynodes j.divNat) j.modNat := by
  have cells := (m.schedule loop size).run_store (expandNode aes keynodes)
    (fun st (i : Fin size) (d : Fin 2) => st.outputT (childIndex i d))
    (fun i => childBit aes (keynodes i))
    (fun i t st => storePair_children st.outputT i _ _)
    (ExpansionState.init m.nt size)
  have cell := congrFun (congrFun cells j.divNat) j.modNat
  rwa [childIndex_divNat_modNat] at cell

/-- Exclusive-or accumulators of two words per thread, merged over the threads. -/
theorem merge_xor {w threads n : Nat} {σ : Type} (s : Schedule threads n)
    (body : Fin n → Fin threads → σ → σ) (acc : σ → Fin threads → Fin 2 → BitVec w)
    (word : Fin n → Fin 2 → BitVec w)
    (stores : ∀ i t st, acc (body i t st) = Function.update (acc st) t
      ![acc st t 0 ^^^ word i 0, acc st t 1 ^^^ word i 1])
    (init : σ) (start : ∀ t d, acc init t d = 0#w) (d : Fin 2) :
    Xor.of (merge (fun total thread b => total b ^^^ thread b) (fun _ => 0#w)
      (acc (s.run body init)) d) = ∑ i, Xor.of (word i d) := by
  have total := (merge_hom (fun total thread b => total b ^^^ thread b) (fun _ => True)
    (fun total : Fin 2 → BitVec w => Xor.of (total d)) (fun _ _ _ => trivial) (fun _ _ _ => rfl)
    (fun _ => 0#w) trivial (acc (s.run body init))).2
  have threads := run_accumulate s body acc (fun i a => ![a 0 ^^^ word i 0, a 1 ^^^ word i 1])
    (fun _ => True) (fun a => Xor.of (a d)) (fun i => Xor.of (word i d)) stores
    (fun _ _ _ => trivial) (fun i a _ => by match d with | 0 => rfl | 1 => rfl) init
    (fun _ => trivial)
  have zero : ∑ t, Xor.of (acc init t d) = 0 :=
    Finset.sum_eq_zero fun t _ => (congrArg Xor.of (start t d)).trans Xor.of_zero
  rw [total, threads, zero, Xor.of_zero, zero_add, zero_add]

theorem prgEvalAllAndXor_zs (d : Fin 2) :
    Xor.of ((prgEvalAllAndXor m loop aes keynodes).zs d) =
      ∑ i, Xor.of (childSeed aes (keynodes i) d) :=
  merge_xor (m.schedule loop size) (expandNode aes keynodes) ExpansionState.threadZs
    (fun i => childSeed aes (keynodes i))
    (fun _ _ _ => rfl) (ExpansionState.init m.nt size) (fun _ _ => rfl) d

theorem prgEvalAllAndXor_zt (d : Fin 2) :
    Xor.of ((prgEvalAllAndXor m loop aes keynodes).zt d) =
      ∑ i, Xor.of (childBit aes (keynodes i) d) :=
  merge_xor (m.schedule loop size) (expandNode aes keynodes) ExpansionState.threadZt
    (fun i => childBit aes (keynodes i))
    (fun _ _ _ => rfl) (ExpansionState.init m.nt size) (fun _ _ => rfl) d

end Layer

end DpfPir
