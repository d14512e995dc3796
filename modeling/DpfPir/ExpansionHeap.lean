import Mathlib.Algebra.Ring.GeomSum
import DpfPir.EvalAll
import DpfPir.Heap

/-!
# The trees on the heap

`prg_eval_all_and_xor`, `convert` and `free_dpf_layer` with the memory that they allocate
and free (`dpf.cpp`, lines 10 to 141).

Results:
1. `OnHeap.prgEvalAllAndXor_spec`: the expansion on the heap computes what the function on
   arrays computes, and replaces the arrays of the layer.
2. `OnHeap.expandTree_spec`, `OnHeap.treeAt_succ`, `OnHeap.TreeAt.parts`: what the level loops
   keep allocated for a tree, and what of it can be freed.
-/

namespace DpfPir

open LittleEndian Words ParallelLoop CorrectionTree Heap

/-- `struct dpf_layer`. -/
structure LayerStruct where
  size : Nat
  level : Nat
  nodes : Option Nat
  prevt : Option Nat
  currt : Option Nat
  zs : Fin 2 → Block
  zt : Fin 2 → Byte

/-- `struct dpf_key`. -/
structure KeyStruct where
  height : Nat
  Bout : BitVec 32
  s : Block
  t : Byte
  sigma : Nat
  tau0 : Nat
  tau1 : Nat
  gamma : Nat

/-- The values that the program keeps on the heap. -/
inductive Cell
  | block (b : Block)
  | byte (b : Byte)
  | ge (g : GroupElement)
  | pointer (p : Nat)
  | layer (l : LayerStruct)
  | key (k : KeyStruct)

def Cell.block? : Cell → Option Block
  | .block b => some b
  | _ => none

def Cell.byte? : Cell → Option Byte
  | .byte b => some b
  | _ => none

def Cell.ge? : Cell → Option GroupElement
  | .ge g => some g
  | _ => none

def Cell.layer? : Cell → Option LayerStruct
  | .layer l => some l
  | _ => none

namespace OnHeap

/-! ## The source functions -/

def readBlock (p i : Nat) : HeapM Cell Block := loadAs Cell.block? p i

def readByte (p i : Nat) : HeapM Cell Byte := loadAs Cell.byte? p i

def readGe (p i : Nat) : HeapM Cell GroupElement := loadAs Cell.ge? p i

def readLayer (dpfl : Nat) : HeapM Cell LayerStruct := loadAs Cell.layer? dpfl 0

/-- Assignments to fields of the layer. -/
def modifyLayer (dpfl : Nat) (f : LayerStruct → LayerStruct) : HeapM Cell Unit := do
  let l ← readLayer dpfl
  store dpfl 0 (.layer (f l))

/-- The body of the expansion loop. The accumulators of the threads are on the stack. -/
def expandNode {nt size : Nat} (aes : Cipher) (keynodes outputNodes outputT : Nat) (i : Fin size)
    (threadId : Fin nt) (acc : (Fin nt → Fin 2 → Block) × (Fin nt → Fin 2 → Byte)) :
    HeapM Cell ((Fin nt → Fin 2 → Block) × (Fin nt → Fin 2 → Byte)) := do
  let k ← readBlock keynodes i
  let ctt := ecbEncFourBlocks aes k
  store outputNodes (2 * i) (.block (ctt 0))
  store outputNodes (2 * i + 1) (.block (ctt 2))
  store outputT (2 * i) (.byte (lsb (ctt 1)))
  store outputT (2 * i + 1) (.byte (lsb (ctt 3)))
  return (Function.update acc.1 threadId
      ![acc.1 threadId 0 ^^^ ctt 0, acc.1 threadId 1 ^^^ ctt 2],
    Function.update acc.2 threadId
      ![acc.2 threadId 0 ^^^ lsb (ctt 1), acc.2 threadId 1 ^^^ lsb (ctt 3)])

/-- `prg_eval_all_and_xor`. -/
def prgEvalAllAndXor (m : Machine) (loop : Loop) (aes : Cipher) (dpfl keynodes : Nat) :
    HeapM Cell Unit := do
  let l ← readLayer dpfl
  let outputNodes ← malloc (l.size * 2)
  let outputT ← malloc (l.size * 2)
  modifyLayer dpfl fun l => { l with zs := fun _ => 0#128, zt := fun _ => 0#8 }
  let acc ← runM (m.schedule loop l.size) (expandNode aes keynodes outputNodes outputT)
    (fun _ _ => 0#128, fun _ _ => 0#8)
  modifyLayer dpfl fun l => { l with
    zs := merge (fun zs thread b => zs b ^^^ thread b) l.zs acc.1
    zt := merge (fun zt thread b => zt b ^^^ thread b) l.zt acc.2 }
  let l ← readLayer dpfl
  free l.nodes
  modifyLayer dpfl fun l => { l with nodes := some outputNodes }
  let l ← readLayer dpfl
  free l.currt
  modifyLayer dpfl fun l => { l with currt := some outputT }
  modifyLayer dpfl fun l => { l with size := l.size * 2, level := l.level + 1 }

/-- The root of a tree. -/
def plantRoot (dpfl : Nat) (seed : Block) (t : Byte) : HeapM Cell (Nat × Nat) := do
  store dpfl 0 (.layer {
    size := 1, level := 0, nodes := none, prevt := none, currt := none
    zs := fun _ => 0#128, zt := fun _ => 0#8 })
  let hats ← malloc 1
  store hats 0 (.block seed)
  let hatt ← malloc 1
  store hatt 0 (.byte t)
  return (hats, hatt)

/-- `convert`. Its buffers are on the stack. -/
def convert (aes : Cipher) (beyond : Nat → Byte) (outBitwidth noOfGroupElements : Nat)
    (inpBlock : Block) : HeapM Cell Nat := do
  let out ← malloc noOfGroupElements
  forLoop noOfGroupElements fun i =>
    store out i (.ge (DpfPir.convert aes beyond outBitwidth noOfGroupElements inpBlock i))
  return out

/-- `free_dpf_layer`. Its `delete` is read as `free`, also where the structure is from
`malloc`, as in `dpf_eval_all`. -/
def freeDpfLayer (dpfl : Nat) : HeapM Cell Unit := do
  let l ← readLayer dpfl
  free l.nodes
  free l.prevt
  free l.currt
  free (some dpfl)

/-! ## Arrays on the heap -/

def blocks {n : Nat} (f : Fin n → Block) : Chunk Cell := Chunk.full fun j => .block (f j)

def bytes {n : Nat} (f : Fin n → Byte) : Chunk Cell := Chunk.full fun j => .byte (f j)

def ges {n : Nat} (f : Fin n → GroupElement) : Chunk Cell := Chunk.full fun j => .ge (f j)

/-- The chunk of a layer. -/
def layerOf (l : LayerStruct) : Chunk Cell := @Chunk.full Cell 1 fun _ => .layer l

section Rules

variable {γ : Type} {A B : Assertion Cell}
  {goal : Assertion Cell → Option (γ × Memory Cell) → Prop} {n p k : Nat}

theorem readBlock_bind {f : Fin n → Block} {g : Block → HeapM Cell γ} {i : Fin n}
    (mem : (p, blocks f) ∈ A) (place : k = i.val) (next : Spec A (g (f i)) goal) :
    Spec A (readBlock p k >>= g) goal :=
  Spec.loadAs_bind mem (read_full place) rfl next

theorem readByte_bind {f : Fin n → Byte} {g : Byte → HeapM Cell γ} {i : Fin n}
    (mem : (p, bytes f) ∈ A) (place : k = i.val) (next : Spec A (g (f i)) goal) :
    Spec A (readByte p k >>= g) goal :=
  Spec.loadAs_bind mem (read_full place) rfl next

theorem readGe_bind {f : Fin n → GroupElement} {g : GroupElement → HeapM Cell γ} {i : Fin n}
    (mem : (p, ges f) ∈ A) (place : k = i.val) (next : Spec A (g (f i)) goal) :
    Spec A (readGe p k >>= g) goal :=
  Spec.loadAs_bind mem (read_full place) rfl next

theorem readLayer_bind {l : LayerStruct} {g : LayerStruct → HeapM Cell γ}
    (mem : (p, layerOf l) ∈ A) (next : Spec A (g l) goal) : Spec A (readLayer p >>= g) goal :=
  Spec.loadAs_bind mem (read_full (i := (0 : Fin 1)) rfl) rfl next

theorem modifyLayer_bind {l : LayerStruct} {f : LayerStruct → LayerStruct}
    {g : Unit → HeapM Cell γ} (parts : B = own p (layerOf l) + A)
    (next : Spec (own p (layerOf (f l)) + A) (g ()) goal) :
    Spec B (modifyLayer p f >>= g) goal := by
  rw [modifyLayer, bind_assoc]
  refine readLayer_bind (parts ▸ mem_own_add) ?_
  have whole : Function.update (fun _ : Fin 1 => l) 0 (f l) = fun _ => f l :=
    Function.update_eq_const_of_subsingleton _ _ _
  refine Spec.store_bind parts ((write_full (g := Cell.layer) (i := 0) rfl (f l)).trans ?_) next
  rw [whole]
  rfl
end Rules

/-! ## The expansion -/

/-- The children of the nodes in `S`. -/
def childrenOf {n : Nat} (S : Finset (Fin n)) : Finset (Fin (n * 2)) :=
  Finset.univ.filter fun j => j.divNat ∈ S

theorem childrenOf_insert {n : Nat} (S : Finset (Fin n)) (i : Fin n) :
    childrenOf (insert i S) =
      insert (childIndex i 1) (insert (childIndex i 0) (childrenOf S)) := by
  have of_parent : ∀ j : Fin (n * 2), j.divNat = i ↔ j = childIndex i 0 ∨ j = childIndex i 1 := by
    intro j
    constructor
    · rintro rfl
      rw [← childIndex_divNat_modNat j, divNat_childIndex]
      exact (Fin.forall_fin_two (p := fun d => childIndex j.divNat d = childIndex j.divNat 0 ∨
        childIndex j.divNat d = childIndex j.divNat 1)).mpr ⟨.inl rfl, .inr rfl⟩ j.modNat
    · rintro (rfl | rfl)
      · exact divNat_childIndex i 0
      · exact divNat_childIndex i 1
  refine Finset.ext fun j => ?_
  simp only [childrenOf, Finset.mem_filter, Finset.mem_univ, true_and, Finset.mem_insert, of_parent]
  tauto

/-- The stores of the expansion loop for one node. -/
theorem storePair_spec {γ α : Type} {g : α → Cell} {n p : Nat} {S : Finset (Fin n)}
    {a : Fin (n * 2) → α} {i : Fin n} {x y : α} {A B : Assertion Cell}
    {Q : γ → Assertion Cell → Prop} {f : HeapM Cell γ}
    (parts : B = own p ((Chunk.blank (n * 2)).overlay (childrenOf S) fun j => g (a j)) + A)
    (next : Triple (own p ((Chunk.blank (n * 2)).overlay (childrenOf (insert i S))
      fun j => g (storePair a i x y j)) + A) f Q) :
    Triple B (do store p (2 * i) (g x); store p (2 * i + 1) (g y); f) Q := by
  have left : 2 * i.val = (childIndex i 0).val := (childIndex_val i 0).symm
  have right : 2 * i.val + 1 = (childIndex i 1).val := (childIndex_val i 1).symm
  refine Spec.store_bind parts (write_overlay left (childIndex i 0).isLt x) ?_
  refine Spec.store_bind rfl (write_overlay right (childIndex i 1).isLt y) ?_
  rwa [← childrenOf_insert]

section Expand

variable {nt size : Nat} (aes : Cipher) (hats : Fin size → Block)
  (keynodes outputNodes outputT : Nat)

/-- The memory of the expansion loop when the nodes in `S` have been expanded. -/
def expanded (S : Finset (Fin size)) (st : ExpansionState nt size) : Assertion Cell :=
  own keynodes (blocks hats) +
  own outputNodes ((Chunk.blank (size * 2)).overlay (childrenOf S)
    fun j => .block (st.outputNodes j)) +
  own outputT ((Chunk.blank (size * 2)).overlay (childrenOf S) fun j => .byte (st.outputT j))

theorem expandNode_spec (S : Finset (Fin size)) (i : Fin size) (threadId : Fin nt)
    (st : ExpansionState nt size) :
    Triple (expanded hats keynodes outputNodes outputT S st)
      (expandNode aes keynodes outputNodes outputT i threadId (st.threadZs, st.threadZt))
      fun acc B =>
        let next := DpfPir.expandNode aes hats i threadId st
        acc = (next.threadZs, next.threadZt) ∧
        B = expanded hats keynodes outputNodes outputT (insert i S) next := by
  unfold expandNode
  refine readBlock_bind (f := hats) (i := i) (by simp [expanded]) rfl ?_
  refine storePair_spec (g := Cell.block) (a := st.outputNodes) (i := i)
    (x := ecbEncFourBlocks aes (hats i) 0) (y := ecbEncFourBlocks aes (hats i) 2)
    ((add_right_comm _ _ _).trans (add_comm _ _)) ?_
  refine storePair_spec (g := Cell.byte) (a := st.outputT) (i := i)
    (x := lsb (ecbEncFourBlocks aes (hats i) 1)) (y := lsb (ecbEncFourBlocks aes (hats i) 3))
    ((add_assoc _ _ _).symm.trans (add_comm _ _)) ?_
  refine Triple.pure ⟨rfl, ?_⟩
  unfold expanded
  simp only [DpfPir.expandNode]
  ac_rfl

/-- The expansion loop. -/
theorem expandLoop_spec (s : Schedule nt size) :
    Triple (own keynodes (blocks hats) + own outputNodes (Chunk.blank (size * 2)) +
        own outputT (Chunk.blank (size * 2)))
      (runM s (expandNode aes keynodes outputNodes outputT) (fun _ _ => 0#128, fun _ _ => 0#8))
      fun acc B =>
        let st := s.run (DpfPir.expandNode aes hats) (ExpansionState.init nt size)
        acc = (st.threadZs, st.threadZt) ∧
        B = own keynodes (blocks hats) + own outputNodes (blocks st.outputNodes) +
          own outputT (bytes st.outputT) := by
  have all : childrenOf (Finset.univ : Finset (Fin size)) = Finset.univ :=
    Finset.filter_true_of_mem fun j _ => Finset.mem_univ j.divNat
  have none : childrenOf (∅ : Finset (Fin size)) = ∅ :=
    Finset.filter_false_of_mem fun j _ => Finset.notMem_empty j.divNat
  refine (Triple.simulates s (DpfPir.expandNode aes hats)
    (I := fun S st acc B => acc = (st.threadZs, st.threadZt) ∧
      B = expanded hats keynodes outputNodes outputT S st)
    (ExpansionState.init nt size) ⟨rfl, ?_⟩ ?_).post ?_
  · rw [expanded, none, overlay_empty, overlay_empty]
  · rintro S i threadId st _ _ _ ⟨rfl, rfl⟩
    exact expandNode_spec aes hats keynodes outputNodes outputT S i threadId st
  · rintro acc B ⟨result, rfl⟩
    refine ⟨result, ?_⟩
    rw [expanded, all, overlay_univ, overlay_univ]
    rfl

end Expand

/-- `prg_eval_all_and_xor` frees the arrays of the old layer and allocates those of the new
one. -/
theorem prgEvalAllAndXor_spec (m : Machine) (loop : Loop) (aes : Cipher) {dpfl keynodes : Nat}
    {l : LayerStruct} (hats : Fin l.size → Block) (nodesChunk currtChunk : Chunk Cell) :
    Triple (own dpfl (layerOf l) + own keynodes (blocks hats) +
        (ownAt l.nodes nodesChunk + ownAt l.currt currtChunk))
      (prgEvalAllAndXor m loop aes dpfl keynodes)
      fun _ B => ∃ outputNodes outputT,
        let next := DpfPir.prgEvalAllAndXor m loop aes hats
        B = own dpfl (layerOf { l with
            size := l.size * 2, level := l.level + 1, nodes := some outputNodes
            currt := some outputT, zs := next.zs, zt := next.zt }) +
          own keynodes (blocks hats) + own outputNodes (blocks next.nodes) +
          own outputT (bytes next.currt) := by
  unfold prgEvalAllAndXor
  refine readLayer_bind (l := l) (by simp) ?_
  refine Spec.malloc_bind fun outputNodes => ?_
  refine Spec.malloc_bind fun outputT => ?_
  refine modifyLayer_bind (l := l) (A := own keynodes (blocks hats) +
    own outputNodes (Chunk.blank (l.size * 2)) + own outputT (Chunk.blank (l.size * 2)) +
    (ownAt l.nodes nodesChunk + ownAt l.currt currtChunk)) (by ac_rfl) ?_
  refine Spec.call (expandLoop_spec aes hats keynodes outputNodes outputT
    (m.schedule loop l.size)) (add_left_comm _ _ _) ?_
  rintro _ _ ⟨rfl, rfl⟩
  refine modifyLayer_bind (add_left_comm _ _ _) ?_
  dsimp only
  refine readLayer_bind mem_own_add ?_
  refine Spec.freeAt_bind (c := nodesChunk) (A := own dpfl _ + (own keynodes (blocks hats) +
    own outputNodes _ + own outputT _ + ownAt l.currt currtChunk)) (by ac_rfl) ?_
  refine modifyLayer_bind rfl ?_
  dsimp only
  refine readLayer_bind mem_own_add ?_
  refine Spec.freeAt_bind (c := currtChunk) (A := own dpfl _ + (own keynodes (blocks hats) +
    own outputNodes _ + own outputT _)) (by ac_rfl) ?_
  refine modifyLayer_bind rfl ?_
  dsimp only
  refine Spec.last (modifyLayer_bind rfl (Triple.pure ⟨outputNodes, outputT, ?_⟩))
  simp only [add_assoc]
  rfl

theorem convert_spec (aes : Cipher) (beyond : Nat → Byte) (w n : Nat) (b : Block) :
    Triple 0 (convert aes beyond w n b)
      fun out B => B = own out (ges (DpfPir.convert aes beyond w n b)) := by
  unfold convert
  refine Spec.malloc_bind fun out => ?_
  refine Spec.call (Triple.forLoop_store Cell.ge _) rfl ?_
  rintro _ _ rfl
  exact Triple.pure (add_zero _)

/-! ## What is kept for a tree -/

/-- The first entries of an array of `height` entries. -/
def begun {α : Type} (height : Nat) (g : α → Cell) {i : Nat} (f : Fin i → α) : Chunk Cell :=
  (Chunk.blank height).overlay Finset.univ fun j => g (f j)

theorem begun_zero {α : Type} (height : Nat) (g : α → Cell) (f : Fin 0 → α) :
    begun height g f = Chunk.blank height :=
  overlay_empty _ _

theorem read_begun {α : Type} {height i k : Nat} {g : α → Cell} {f : Fin i → α} {j : Fin i}
    (place : k = j.val) (room : j.val < height) : (begun height g f).read k = some (g (f j)) :=
  read_overlay place room (Finset.mem_univ j)

theorem record_bind {α γ : Type} {g : α → Cell} {height i p : Nat} {f : Fin i → α} (v : α)
    {A B : Assertion Cell} {Q : γ → Assertion Cell → Prop} {x : Unit → HeapM Cell γ}
    (room : i < height) (parts : B = own p (begun height g f) + A)
    (next : Triple (own p (begun height g (push f v)) + A) (x ()) Q) :
    Triple B (store p i (g v) >>= x) Q :=
  Spec.store_bind parts (write_snoc room v) next

/-- The arrays of a layer, and the layer itself. -/
def layerArrays (dpfl : Nat) (l : LayerStruct) (nodesChunk prevtChunk currtChunk : Chunk Cell) :
    Assertion Cell :=
  own dpfl (layerOf l) + ownAt l.currt currtChunk + ownAt l.prevt prevtChunk +
    ownAt l.nodes nodesChunk

theorem freeDpfLayer_spec {dpfl : Nat} (l : LayerStruct)
    (nodesChunk prevtChunk currtChunk : Chunk Cell) :
    Triple (layerArrays dpfl l nodesChunk prevtChunk currtChunk) (freeDpfLayer dpfl)
      fun _ B => B = 0 := by
  unfold freeDpfLayer
  refine readLayer_bind (l := l) (by simp [layerArrays]) ?_
  refine Spec.freeAt_bind (add_comm _ _) (Spec.freeAt_bind (add_comm _ _)
    (Spec.freeAt_bind (add_comm _ _) ?_))
  exact Spec.last (Spec.free_bind (add_zero _).symm (Triple.pure rfl))

/-- The layer of depth `i + 1` when its nodes have been computed. -/
def nextLayer {i : Nat} (new : DpfLayer (2 ^ i * 2)) (nodes currt : Nat) (prevt : Option Nat) :
    LayerStruct where
  size := 2 ^ i * 2
  level := i + 1
  nodes := some nodes
  prevt := prevt
  currt := some currt
  zs := new.zs
  zt := new.zt

theorem setPrevt_bind {γ : Type} {A B : Assertion Cell} {g : Unit → HeapM Cell γ} {i p nodes currt : Nat}
    {goal : Assertion Cell → Option (γ × Memory Cell) → Prop} {new : DpfLayer (2 ^ i * 2)}
    {prevt : Option Nat} (hatt : Nat)
    (parts : B = own p (layerOf (nextLayer new nodes currt prevt)) + A)
    (next : Spec (own p (layerOf (nextLayer new nodes currt (some hatt))) + A) (g ()) goal) :
    Spec B ((modifyLayer p fun l => { l with prevt := some hatt }) >>= g) goal :=
  modifyLayer_bind parts next

/-- The arrays from which the layer of depth `i + 1` is corrected. -/
def uncorrected {i : Nat} (dpfl prevt nodes currt : Nat) (prevtBytes : Fin (2 ^ i) → Byte)
    (new : DpfLayer (2 ^ i * 2)) : Assertion Cell :=
  own dpfl (layerOf (nextLayer new nodes currt (some prevt))) + own prevt (bytes prevtBytes) +
    own nodes (blocks new.nodes) + own currt (bytes new.currt)

section Tree

variable {i : Nat} (bits : (j : Nat) → j ≤ i → Fin (2 ^ j) → Byte) (seeds : Fin (2 ^ i) → Block)

/-- The control bits of the first layers. -/
def earlierBits {n : Nat} (old : Fin n → Nat) (before : n ≤ i) : Assertion Cell :=
  ∑ j : Fin n, own (old j) (bytes (bits j (j.isLt.le.trans before)))

/-- The control bits of all layers but the last two. -/
def lostBits (lost : Fin (i - 1) → Nat) : Assertion Cell := earlierBits bits lost (Nat.pred_le i)

/-- `dpfl->prevt`: the control bits of the layer before. -/
def prevtOf : {i : Nat} → (Fin i → Nat) → Option Nat
  | 0, _ => none
  | i + 1, old => some (old (Fin.last i))

/-- What is allocated for a tree of depth `i`. The control bits of the layer before the last
can be freed, as the pointer `prevt` leads to them; no pointer leads to those of the layers
before that. -/
def TreeAt (dpfl hats hatt : Nat) (B : Assertion Cell) : Prop :=
  ∃ (nodes currt : Option Nat) (nodesChunk currtChunk : Chunk Cell) (zs : Fin 2 → Block)
    (zt : Fin 2 → Byte) (old : Fin i → Nat),
    B = own dpfl (layerOf {
        size := 2 ^ i, level := i, nodes, prevt := prevtOf old, currt, zs, zt }) +
      own hats (blocks seeds) + (ownAt nodes nodesChunk + ownAt currt currtChunk) +
      (own hatt (bytes (bits i le_rfl)) + earlierBits bits old le_rfl)

theorem plantRoot_spec (bits : (j : Nat) → j ≤ 0 → Fin (2 ^ j) → Byte) (dpfl : Nat) (seed : Block)
    {t : Byte} (root : bits 0 le_rfl = fun _ => t) :
    Triple (own dpfl (Chunk.blank 1)) (plantRoot dpfl seed t)
      fun layer B => TreeAt bits (fun _ => seed) dpfl layer.1 layer.2 B := by
  unfold plantRoot
  refine Spec.store_bind (add_zero _).symm (write_single _) ?_
  refine Spec.malloc_bind fun hats => ?_
  refine Spec.store_bind rfl (write_single _) ?_
  refine Spec.malloc_bind fun hatt => ?_
  refine Spec.store_bind rfl (write_single _) ?_
  refine Triple.pure ⟨none, none, Chunk.blank 0, Chunk.blank 0, fun _ => 0#128, fun _ => 0#8,
    Fin.elim0, ?_⟩
  have none_yet : earlierBits bits Fin.elim0 le_rfl = 0 := Finset.sum_of_isEmpty _
  rw [none_yet, root, ownAt, add_zero, add_zero, add_zero]
  show own hatt (bytes fun _ => t) + (own hats (blocks fun _ => seed) + own dpfl (layerOf {
      size := 1, level := 0, nodes := none, prevt := none, currt := none
      zs := fun _ => 0#128, zt := fun _ => 0#8 })) =
    own dpfl (layerOf {
      size := 1, level := 0, nodes := none, prevt := none, currt := none
      zs := fun _ => 0#128, zt := fun _ => 0#8 }) + own hats (blocks fun _ => seed) +
    own hatt (bytes fun _ => t)
  ac_rfl

/-- A level leaves the control bits of the layer before allocated. -/
theorem treeAt_succ (bits : (j : Nat) → j ≤ i + 1 → Fin (2 ^ j) → Byte)
    (seeds : Fin (2 ^ (i + 1)) → Block) {dpfl hats hatt : Nat} (new : DpfLayer (2 ^ i * 2))
    (prevt nodes currt : Nat) (old : Fin i → Nat) :
    TreeAt bits seeds dpfl hats hatt (own hats (blocks seeds) + own hatt (bytes (bits _ le_rfl)) +
      uncorrected dpfl prevt nodes currt (bits i (Nat.le_succ i)) new +
      earlierBits bits old (Nat.le_succ i)) := by
  refine ⟨some nodes, some currt, blocks new.nodes, bytes new.currt, new.zs, new.zt,
    push old prevt, ?_⟩
  have more : earlierBits bits (push old prevt) le_rfl =
      earlierBits bits old (Nat.le_succ i) + own prevt (bytes (bits i (Nat.le_succ i))) := by
    unfold earlierBits
    rw [Fin.sum_univ_castSucc]
    simp only [push_castSucc, push_last]
    rfl
  rw [more, prevtOf, push_last, uncorrected]
  show _ = own dpfl (layerOf (nextLayer new nodes currt (some prevt))) + own hats (blocks seeds) +
    (own nodes (blocks new.nodes) + own currt (bytes new.currt)) +
    (own hatt (bytes (bits (i + 1) le_rfl)) + _)
  ac_rfl

theorem cells_earlierBits {n : Nat} (old : Fin n → Nat) (before : n ≤ i) :
    cells (earlierBits bits old before) = 2 ^ n - 1 := by
  rw [earlierBits, cells_sum]
  calc ∑ j : Fin n, cells (own (old j) (bytes (bits j (j.isLt.le.trans before))))
      = ∑ j : Fin n, 2 ^ j.val := Finset.sum_congr rfl fun j _ => cells_own _ _
    _ = ∑ j ∈ Finset.range n, 2 ^ j := Fin.sum_univ_eq_sum_range (fun j => 2 ^ j) n
    _ = (2 ^ n - 1) / (2 - 1) := Nat.geomSum_eq le_rfl n
    _ = 2 ^ n - 1 := Nat.div_one _

theorem earlierBits_prevt (old : Fin i → Nat) :
    ∃ (prevtChunk : Chunk Cell) (lost : Fin (i - 1) → Nat),
      earlierBits bits old le_rfl =
        ownAt (prevtOf old) prevtChunk + lostBits bits lost := by
  cases i with
  | zero => exact ⟨Chunk.blank 0, old, (zero_add _).symm⟩
  | succ i =>
    refine ⟨bytes (bits i (Nat.le_succ i)), fun j => old j.castSucc, ?_⟩
    unfold earlierBits
    rw [Fin.sum_univ_castSucc, add_comm]
    rfl

theorem cells_lostBits (lost : Fin (i - 1) → Nat) :
    cells (lostBits bits lost) = 2 ^ (i - 1) - 1 :=
  cells_earlierBits bits lost (Nat.pred_le i)

variable {bits seeds}

theorem expandTree_spec (m : Machine) (loop : Loop) (aes : Cipher) {dpfl hats hatt : Nat}
    {A : Assertion Cell} (tree : TreeAt bits seeds dpfl hats hatt A) :
    Triple A (prgEvalAllAndXor m loop aes dpfl hats) fun _ B =>
      let new := DpfPir.prgEvalAllAndXor m loop aes seeds
      ∃ (nodes currt : Nat) (old : Fin i → Nat),
        B = own dpfl (layerOf (nextLayer new nodes currt (prevtOf old))) +
          own hats (blocks seeds) + own nodes (blocks new.nodes) + own currt (bytes new.currt) +
          (own hatt (bytes (bits i le_rfl)) + earlierBits bits old le_rfl) := by
  obtain ⟨nodes, currt, nodesChunk, currtChunk, zs, zt, old, rfl⟩ := tree
  refine Spec.last (Spec.call (prgEvalAllAndXor_spec m loop aes (l := {
    size := 2 ^ i, level := i, nodes, prevt := prevtOf old, currt, zs, zt }) seeds nodesChunk
    currtChunk) rfl ?_)
  rintro _ _ ⟨outputNodes, outputT, rfl⟩
  exact Triple.pure ⟨outputNodes, outputT, old, rfl⟩

/-- What of it can be freed. -/
theorem TreeAt.parts {dpfl hats hatt : Nat} {B : Assertion Cell}
    (tree : TreeAt bits seeds dpfl hats hatt B) :
    ∃ (nodes prevt currt : Option Nat) (nodesChunk prevtChunk currtChunk : Chunk Cell)
      (zs : Fin 2 → Block) (zt : Fin 2 → Byte) (lost : Fin (i - 1) → Nat),
      B = own hats (blocks seeds) + own hatt (bytes (bits i le_rfl)) +
        layerArrays dpfl { size := 2 ^ i, level := i, nodes, prevt, currt, zs, zt } nodesChunk
          prevtChunk currtChunk +
        lostBits bits lost := by
  obtain ⟨nodes, currt, nodesChunk, currtChunk, zs, zt, old, rfl⟩ := tree
  obtain ⟨prevtChunk, lost, split⟩ := earlierBits_prevt bits old
  refine ⟨nodes, prevtOf old, currt, nodesChunk, prevtChunk, currtChunk, zs, zt, lost, ?_⟩
  rw [split]
  unfold layerArrays
  dsimp only
  ac_rfl

end Tree

end OnHeap

end DpfPir
