import DpfPir.ExpansionHeap
import DpfPir.PointFunction

/-!
# Evaluation on the heap

`dpf_eval_all` with the memory that it allocates and frees (`dpf.cpp`, lines 458 to 569).

Results:
1. `OnHeap.levelLoop_spec`, `OnHeap.leafLoop_spec`: the loops on the heap compute what the
   functions on arrays compute.
2. `OnHeap.dpfEvalAll_refines`: so does the whole function. It frees nothing twice and
   reads and writes only what is allocated, and what it leaves allocated are its results
   and the control bits of all layers but the last two.
3. `OnHeap.evalAndFree_leaves`: what is left when a server has freed its key and its pack.
-/

namespace DpfPir

open LittleEndian Words ParallelLoop CorrectionTree Heap

namespace OnHeap

/-! ## The source functions -/

/-- `(j%2==0)?(key.tau0)[i]:(key.tau1)[i]`. -/
def readTau (key : KeyStruct) (i j : Nat) : HeapM Cell Byte :=
  if j % 2 = 0 then readByte key.tau0 i else readByte key.tau1 i

/-- The body of the correction loop. -/
def correctEntry {nt size : Nat} (dpfl : Nat) (key : KeyStruct) (i hats hatt : Nat) (j : Fin size)
    (_ : Fin nt) (_ : Unit) : HeapM Cell Unit := do
  let tau ← readTau key i j
  let l ← readLayer dpfl
  let prevt ← nonnull l.prevt
  let nodes ← nonnull l.nodes
  let currt ← nonnull l.currt
  let parent ← readByte prevt (j / 2)
  if parent = 1#8 then
    let node ← readBlock nodes j
    let sigma ← readBlock key.sigma i
    store hats j (.block (node ^^^ sigma))
    let bit ← readByte currt j
    store hatt j (.byte (bit ^^^ tau))
  else
    let node ← readBlock nodes j
    store hats j (.block node)
    let bit ← readByte currt j
    store hatt j (.byte bit)

/-- The arrays of a `struct input_check_pack`. -/
structure PackPointers where
  zs : Fin 2 → Nat
  zt : Fin 2 → Nat
  sigma : Nat
  tau : Fin 2 → Nat

/-- What the level loop records for the pack. -/
def recordLevel (key : KeyStruct) (icp : PackPointers) (dpfl i : Nat) : HeapM Cell Unit := do
  let sigma ← readBlock key.sigma i
  store icp.sigma i (.block sigma)
  let tau0 ← readByte key.tau0 i
  store (icp.tau 0) i (.byte tau0)
  let tau1 ← readByte key.tau1 i
  store (icp.tau 1) i (.byte tau1)
  let l ← readLayer dpfl
  store (icp.zs 0) i (.block (l.zs 0))
  store (icp.zs 1) i (.block (l.zs 1))
  store (icp.zt 0) i (.byte (l.zt 0))
  store (icp.zt 1) i (.byte (l.zt 1))

/-- One level of `dpf_eval_all`. -/
def evalLevel (m : Machine) (aes : Cipher) (party : Fin 2) (key : KeyStruct) (icp : PackPointers)
    (dpfl i hats hatt : Nat) : HeapM Cell (Nat × Nat) := do
  prgEvalAllAndXor m (.expand party i) aes dpfl hats
  recordLevel key icp dpfl i
  modifyLayer dpfl fun l => { l with prevt := some hatt }
  free (some hats)
  let l ← readLayer dpfl
  let hats ← malloc l.size
  let hatt ← malloc l.size
  runM (m.schedule (.correct party i) l.size) (correctEntry dpfl key i hats hatt) ()
  return (hats, hatt)

/-- The level loop of `dpf_eval_all`. -/
def levelLoop (m : Machine) (aes : Cipher) (party : Fin 2) (key : KeyStruct)
    (icp : PackPointers) (dpfl hats hatt : Nat) : Nat → HeapM Cell (Nat × Nat)
  | 0 => return (hats, hatt)
  | i + 1 => do
    let layer ← levelLoop m aes party key icp dpfl hats hatt i
    evalLevel m aes party key icp dpfl i layer.1 layer.2

/-- The value that the leaf loop writes to `out[j][e]`. -/
def outputEntry (party : Fin 2) (key : KeyStruct) (gammaInd : Nat) (hatt : Byte) (e : Nat) :
    HeapM Cell GroupElement :=
  let zero := GroupElement.ofValue 0#64 key.Bout.toNat
  if party = 0 then
    if hatt = 0#8 then readGe gammaInd e
    else do return (← readGe gammaInd e) + (← readGe key.gamma e)
  else
    if hatt = 0#8 then do return zero - (← readGe gammaInd e)
    else do return zero - (← readGe gammaInd e) - (← readGe key.gamma e)

/-- The body of the leaf loop. -/
def evalLeaf {size : Nat} (m : Machine) (aes : Cipher) (party : Fin 2) (key : KeyStruct)
    (hats hatt t out : Nat) (j : Fin size) (threadId : Fin m.nt)
    (acc : (Fin m.nt → BitVec 32) × (Fin m.nt → Fin 2 → GroupElement)) :
    HeapM Cell ((Fin m.nt → BitVec 32) × (Fin m.nt → Fin 2 → GroupElement)) := do
  let seed ← readBlock hats j
  let gammaInd ← convert aes m.beyond key.Bout.toNat 2 seed
  let bit ← readByte hatt j
  let first ← readGe gammaInd 0
  let second ← readGe gammaInd 1
  store t j (.byte bit)
  let row ← malloc 2
  store out j (.pointer row)
  let entry ← outputEntry party key gammaInd bit 0
  store row 0 (.ge entry)
  let entry ← outputEntry party key gammaInd bit 1
  store row 1 (.ge entry)
  free (some gammaInd)
  return (Function.update acc.1 threadId (acc.1 threadId + bit.setWidth 32),
    Function.update acc.2 threadId (addPair (acc.2 threadId) ![first, second]))

/-- The frees at the end of `dpf_eval_all`. -/
def release (hats hatt dpfl : Nat) : HeapM Cell Unit := do
  free (some hats)
  free (some hatt)
  freeDpfLayer dpfl

/-- `struct input_check_pack`. -/
structure PackStruct where
  index : GroupElement
  payload : GroupElement
  arrays : PackPointers
  size : Nat
  T : BitVec 32
  W : Fin 2 → GroupElement
  gamma : Fin 2 → GroupElement

/-- `dpf_eval_all` from its leaves on. -/
def evalLeaves (m : Machine) (bitlength : Nat) (aes : Cipher) (party : Fin 2) (key : KeyStruct)
    (index payload : GroupElement) (t dpfl : Nat) (arrays : PackPointers) (hats hatt : Nat) :
    HeapM Cell (Nat × PackStruct) := do
  let l ← readLayer dpfl
  let out ← malloc l.size
  let acc ← runM (m.schedule (.leaves party) l.size) (evalLeaf m aes party key hats hatt t out)
    (fun _ => 0#32, threadWInit bitlength key.Bout.toNat)
  let gamma0 ← readGe key.gamma 0
  let gamma1 ← readGe key.gamma 1
  release hats hatt dpfl
  return (out, {
    index, payload, arrays
    size := key.height
    T := merge (fun total thread => total + thread) 0#32 acc.1
    W := merge addPair (fun _ => GroupElement.ofValue 0#64 key.Bout.toNat) acc.2
    gamma := ![gamma0, gamma1] })

/-- `dpf_eval_all`. The caller has allocated the array `t`. -/
def dpfEvalAll (m : Machine) (bitlength : Nat) (aes : Cipher) (party : Fin 2) (key : KeyStruct)
    (index payload : GroupElement) (t : Nat) : HeapM Cell (Nat × PackStruct) := do
  let dpfl ← malloc 1
  let root ← plantRoot dpfl key.s (BitVec.ofNat 8 party)
  let zs0 ← malloc key.height
  let zs1 ← malloc key.height
  let zt0 ← malloc key.height
  let zt1 ← malloc key.height
  let sigma ← malloc key.height
  let tau0 ← malloc key.height
  let tau1 ← malloc key.height
  let arrays := { zs := ![zs0, zs1], zt := ![zt0, zt1], sigma, tau := ![tau0, tau1] }
  let layer ← levelLoop m aes party key arrays dpfl root.1 root.2 key.height
  evalLeaves m bitlength aes party key index payload t dpfl arrays layer.1 layer.2

/-- `free_dpf_key`. Its `delete[]` is read as `free`. -/
def freeDpfKey (key : KeyStruct) : HeapM Cell Unit := do
  free (some key.sigma)
  free (some key.tau0)
  free (some key.tau1)
  free (some key.gamma)

/-- `free_input_check_pack`. Its `delete[]` is read as `free`: the arrays are from `malloc`,
for which C++ leaves it undefined. -/
def freeInputCheckPack (icp : PackStruct) : HeapM Cell Unit := do
  free (some (icp.arrays.zs 0))
  free (some (icp.arrays.zs 1))
  free (some (icp.arrays.zt 0))
  free (some (icp.arrays.zt 1))
  free (some icp.arrays.sigma)
  free (some (icp.arrays.tau 0))
  free (some (icp.arrays.tau 1))

/-- What a server does with the memory of its key and its pack: between `dpf_eval_all` and
the two frees at the end of `main` it only reads them. -/
def evalAndFree (m : Machine) (bitlength : Nat) (aes : Cipher) (party : Fin 2) (key : KeyStruct)
    (index payload : GroupElement) (t : Nat) : HeapM Cell (Nat × PackStruct) := do
  let r ← dpfEvalAll m bitlength aes party key index payload t
  freeInputCheckPack r.2
  freeDpfKey key
  return r

/-! ## The arrays of a key -/

/-- The arrays of a key. -/
def keyArrays (key : DpfKey) (k : KeyStruct) : Assertion Cell :=
  own k.sigma (blocks key.sigma) + own k.tau0 (bytes key.tau0) + own k.tau1 (bytes key.tau1) +
    own k.gamma (ges key.gamma)

theorem readTau_bind {γ : Type} {A : Assertion Cell}
    {goal : Assertion Cell → Option (γ × Memory Cell) → Prop} {key : DpfKey} {k : KeyStruct} {i j : Nat} {g : Byte → HeapM Cell γ}
    (hi : i < key.height) (mem : ∀ x ∈ keyArrays key k, x ∈ A)
    (next : Spec A (g (if j % 2 = 0 then key.tau0 ⟨i, hi⟩ else key.tau1 ⟨i, hi⟩)) goal) :
    Spec A (readTau k i j >>= g) goal := by
  unfold readTau
  by_cases even : j % 2 = 0
  · rw [if_pos even] at next ⊢
    exact readByte_bind (i := ⟨i, hi⟩) (mem _ (by simp [keyArrays])) rfl next
  · rw [if_neg even] at next ⊢
    exact readByte_bind (i := ⟨i, hi⟩) (mem _ (by simp [keyArrays])) rfl next

/-! ## The correction -/

section Correct

variable {nt : Nat} (key : DpfKey) (k : KeyStruct) {i : Nat} (hi : i < key.height)
  (prevtBytes : Fin (2 ^ i) → Byte) (new : DpfLayer (2 ^ i * 2))
  (dpfl prevt nodes currt hats hatt : Nat)

/-- The memory of the correction loop when the entries in `S` have been corrected. -/
def corrected (S : Finset (Fin (2 ^ i * 2)))
    (layer : (Fin (2 ^ i * 2) → Block) × (Fin (2 ^ i * 2) → Byte)) : Assertion Cell :=
  own hats ((Chunk.blank (2 ^ i * 2)).overlay S fun j => .block (layer.1 j)) +
  own hatt ((Chunk.blank (2 ^ i * 2)).overlay S fun j => .byte (layer.2 j)) +
  (uncorrected dpfl prevt nodes currt prevtBytes new + keyArrays key k)

theorem correctEntry_spec (S : Finset (Fin (2 ^ i * 2))) (j : Fin (2 ^ i * 2)) (threadId : Fin nt)
    (layer : (Fin (2 ^ i * 2) → Block) × (Fin (2 ^ i * 2) → Byte)) :
    Triple (corrected key k prevtBytes new dpfl prevt nodes currt hats hatt S layer)
      (correctEntry dpfl k i hats hatt j threadId ())
      fun _ B => B = corrected key k prevtBytes new dpfl prevt nodes currt hats hatt (insert j S)
        (DpfPir.correctEntry prevtBytes new (key.sigma ⟨i, hi⟩) (key.tau0 ⟨i, hi⟩)
          (key.tau1 ⟨i, hi⟩) j threadId layer) := by
  have parent : (j : Nat) / 2 = j.divNat.val := rfl
  unfold correctEntry
  refine readTau_bind hi (fun x mem => by simp [corrected, mem]) ?_
  refine readLayer_bind (l := nextLayer new nodes currt (some prevt))
    (by simp [corrected, uncorrected]) ?_
  refine Spec.nonnull_bind (Spec.nonnull_bind (Spec.nonnull_bind ?_))
  refine readByte_bind (f := prevtBytes) (by simp [corrected, uncorrected]) parent ?_
  by_cases one : prevtBytes j.divNat = 1#8
  · rw [if_pos one]
    refine readBlock_bind (f := new.nodes) (by simp [corrected, uncorrected]) rfl ?_
    refine readBlock_bind (f := key.sigma) (i := ⟨i, hi⟩) (by simp [corrected, keyArrays]) rfl ?_
    refine Spec.store_bind (add_assoc _ _ _)
      (write_overlay (g := Cell.block) (a := layer.1) rfl j.isLt _) ?_
    refine readByte_bind (f := new.currt) (i := j) (by simp [uncorrected]) rfl ?_
    refine Spec.last (Spec.store_bind (add_left_comm _ _ _)
      (write_overlay (g := Cell.byte) (a := layer.2) rfl j.isLt _) (Triple.pure ?_))
    rw [add_left_comm, ← add_assoc]
    unfold corrected DpfPir.correctEntry
    simp only [correctNode, if_pos one]
  · rw [if_neg one]
    refine readBlock_bind (f := new.nodes) (by simp [corrected, uncorrected]) rfl ?_
    refine Spec.store_bind (add_assoc _ _ _)
      (write_overlay (g := Cell.block) (a := layer.1) rfl j.isLt _) ?_
    refine readByte_bind (f := new.currt) (i := j) (by simp [uncorrected]) rfl ?_
    refine Spec.last (Spec.store_bind (add_left_comm _ _ _)
      (write_overlay (g := Cell.byte) (a := layer.2) rfl j.isLt _) (Triple.pure ?_))
    rw [add_left_comm, ← add_assoc]
    unfold corrected DpfPir.correctEntry
    simp only [correctNode, if_neg one]

/-- The correction loop. -/
theorem correctLoop_spec (s : Schedule nt (2 ^ i * 2)) :
    Triple (own hats (Chunk.blank (2 ^ i * 2)) + own hatt (Chunk.blank (2 ^ i * 2)) +
        (uncorrected dpfl prevt nodes currt prevtBytes new + keyArrays key k))
      (runM s (correctEntry dpfl k i hats hatt) ())
      fun _ B =>
        let layer := s.run (DpfPir.correctEntry prevtBytes new (key.sigma ⟨i, hi⟩)
          (key.tau0 ⟨i, hi⟩) (key.tau1 ⟨i, hi⟩)) (fun _ => 0#128, fun _ => 0#8)
        B = own hats (blocks layer.1) + own hatt (bytes layer.2) +
          (uncorrected dpfl prevt nodes currt prevtBytes new + keyArrays key k) := by
  refine (Triple.simulates s (DpfPir.correctEntry prevtBytes new (key.sigma ⟨i, hi⟩)
      (key.tau0 ⟨i, hi⟩) (key.tau1 ⟨i, hi⟩))
    (I := fun S layer _ B =>
      B = corrected key k prevtBytes new dpfl prevt nodes currt hats hatt S layer)
    (fun _ => 0#128, fun _ => 0#8) ?_ ?_).post ?_
  · rw [corrected, overlay_empty, overlay_empty]
  · rintro S j threadId layer _ _ _ rfl
    exact correctEntry_spec key k hi prevtBytes new dpfl prevt nodes currt hats hatt S j threadId
      layer
  · rintro _ B rfl
    rw [corrected, overlay_univ, overlay_univ]
    rfl

end Correct

/-! ## The levels -/

/-- The arrays of the pack after `i` levels. -/
def packArrays (icp : PackPointers) (height : Nat) {i : Nat} (zs : Fin 2 → Fin i → Block)
    (zt : Fin 2 → Fin i → Byte) (sigma : Fin i → Block) (tau : Fin 2 → Fin i → Byte) :
    Assertion Cell :=
  own (icp.zt 1) (begun height .byte (zt 1)) + own (icp.zt 0) (begun height .byte (zt 0)) +
  own (icp.zs 1) (begun height .block (zs 1)) + own (icp.zs 0) (begun height .block (zs 0)) +
  own (icp.tau 1) (begun height .byte (tau 1)) + own (icp.tau 0) (begun height .byte (tau 0)) +
  own icp.sigma (begun height .block sigma)

theorem recordLevel_spec (key : DpfKey) (k : KeyStruct) (icp : PackPointers) (dpfl : Nat)
    (l : LayerStruct) {i : Nat} (hi : i < key.height) (st : EvalState i) (next : EvalState (i + 1))
    (zs : ∀ d, next.zs d = push (st.zs d) (l.zs d)) (zt : ∀ d, next.zt d = push (st.zt d) (l.zt d))
    (sigma : next.sigma = push st.sigma (key.sigma ⟨i, hi⟩))
    (tau0 : next.tau 0 = push (st.tau 0) (key.tau0 ⟨i, hi⟩))
    (tau1 : next.tau 1 = push (st.tau 1) (key.tau1 ⟨i, hi⟩)) :
    Triple (own dpfl (layerOf l) + keyArrays key k +
        packArrays icp key.height st.zs st.zt st.sigma st.tau)
      (recordLevel k icp dpfl i)
      fun _ B => B = own dpfl (layerOf l) + keyArrays key k +
        packArrays icp key.height next.zs next.zt next.sigma next.tau := by
  unfold recordLevel packArrays
  refine readBlock_bind (f := key.sigma) (i := ⟨i, hi⟩) (by simp [keyArrays]) rfl ?_
  refine record_bind _ hi (by simp only [← add_assoc]; exact add_comm _ _) ?_
  refine readByte_bind (f := key.tau0) (i := ⟨i, hi⟩) (by simp [keyArrays]) rfl ?_
  refine record_bind _ hi (by simp only [← add_assoc]; exact add_comm _ _) ?_
  refine readByte_bind (f := key.tau1) (i := ⟨i, hi⟩) (by simp [keyArrays]) rfl ?_
  refine record_bind _ hi (by simp only [← add_assoc]; exact add_comm _ _) ?_
  refine readLayer_bind (l := l) (by simp) ?_
  refine record_bind _ hi (by simp only [← add_assoc]; exact add_comm _ _) ?_
  refine record_bind _ hi (by simp only [← add_assoc]; exact add_comm _ _) ?_
  refine record_bind _ hi (by simp only [← add_assoc]; exact add_comm _ _) ?_
  refine Spec.last (record_bind _ hi (by simp only [← add_assoc]; exact add_comm _ _)
    (Triple.pure ?_))
  rw [zs, zs, zt, zt, sigma, tau0, tau1]
  ac_rfl

/-- The control bits that the server computes for layer `j`. -/
def evalBits (m : Machine) (aes : Cipher) (party : Fin 2) (key : DpfKey) {i : Nat}
    (hi : i ≤ key.height) (j : Nat) (hj : j ≤ i) : Fin (2 ^ j) → Byte :=
  (evalLevels m aes party key j (hj.trans hi)).hatt

/-- Those of a whole evaluation. -/
def keyBits (m : Machine) (aes : Cipher) (party : Fin 2) (key : DpfKey) (j : Nat)
    (hj : j ≤ key.height) : Fin (2 ^ j) → Byte :=
  (evalLevels m aes party key j hj).hatt

/-- The memory of the level loop after `i` levels. -/
def Looped (m : Machine) (aes : Cipher) (party : Fin 2) (key : DpfKey) (k : KeyStruct)
    (icp : PackPointers) (dpfl : Nat) {i : Nat} (hi : i ≤ key.height) (hats hatt : Nat)
    (B : Assertion Cell) : Prop :=
  let st := evalLevels m aes party key i hi
  ∃ tree, TreeAt (evalBits m aes party key hi) st.hats dpfl hats hatt tree ∧
    B = tree + packArrays icp key.height st.zs st.zt st.sigma st.tau + keyArrays key k

theorem evalLevel_spec (m : Machine) (aes : Cipher) (party : Fin 2) (key : DpfKey)
    (k : KeyStruct) (icp : PackPointers) (dpfl : Nat) {i : Nat} (hi : i < key.height)
    {hats hatt : Nat} {A : Assertion Cell}
    (start : Looped m aes party key k icp dpfl hi.le hats hatt A) :
    Triple A (evalLevel m aes party k icp dpfl i hats hatt)
      fun ptrs B => Looped m aes party key k icp dpfl hi ptrs.1 ptrs.2 B := by
  obtain ⟨_, tree, rfl⟩ := start
  unfold evalLevel
  refine Spec.call (expandTree_spec m (.expand party i) aes tree) (add_assoc _ _ _) ?_
  rintro _ _ ⟨nodes, currt, old, rfl⟩
  generalize new_eq : DpfPir.prgEvalAllAndXor m (.expand party i) aes
    (evalLevels m aes party key i hi.le).hats = new
  generalize earlier_eq : earlierBits (evalBits m aes party key hi.le) old le_rfl = earlier
  refine Spec.call (recordLevel_spec key k icp dpfl (nextLayer new nodes currt (prevtOf old)) hi
      (evalLevels m aes party key i hi.le) (evalLevels m aes party key (i + 1) hi)
      (fun _ => new_eq ▸ rfl) (fun _ => new_eq ▸ rfl) rfl rfl rfl)
    (C := own hats (blocks (evalLevels m aes party key i hi.le).hats) +
      (own nodes (blocks new.nodes) + own currt (bytes new.currt) +
        own hatt (bytes (evalLevels m aes party key i hi.le).hatt) + earlier)) ?_ ?_
  · show _ + (own hatt (bytes (evalLevels m aes party key i hi.le).hatt) + _) + _ = _
    ac_rfl
  rintro _ _ rfl
  generalize pack_eq : packArrays icp key.height (evalLevels m aes party key (i + 1) hi).zs
    (evalLevels m aes party key (i + 1) hi).zt (evalLevels m aes party key (i + 1) hi).sigma
    (evalLevels m aes party key (i + 1) hi).tau = pack
  refine setPrevt_bind hatt ((add_assoc _ _ _).trans (add_assoc _ _ _)) ?_
  refine Spec.free_bind (c := blocks (evalLevels m aes party key i hi.le).hats)
    (A := uncorrected dpfl hatt nodes currt (evalLevels m aes party key i hi.le).hatt new +
      keyArrays key k + (earlier + pack)) ?_ ?_
  · unfold uncorrected
    ac_rfl
  refine readLayer_bind (l := nextLayer new nodes currt (some hatt)) (by simp [uncorrected]) ?_
  refine Spec.malloc_bind fun hats' => ?_
  refine Spec.malloc_bind fun hatt' => ?_
  refine Spec.call (correctLoop_spec key k hi (evalLevels m aes party key i hi.le).hatt new dpfl
    hatt nodes currt hats' hatt' _) (C := earlier + pack) ?_ ?_
  · show own hatt' (Chunk.blank (2 ^ i * 2)) + (own hats' (Chunk.blank (2 ^ i * 2)) + _) = _
    ac_rfl
  rintro _ _ rfl
  refine Triple.pure ⟨_, treeAt_succ (evalBits m aes party key hi)
    (evalLevels m aes party key (i + 1) hi).hats new hatt nodes currt old, ?_⟩
  have kept : earlierBits (evalBits m aes party key hi) old (Nat.le_succ i) = earlier := earlier_eq
  rw [kept]
  dsimp only
  rw [pack_eq]
  subst new_eq
  show own hats' (blocks (evalLevels m aes party key (i + 1) hi).hats) +
      own hatt' (bytes (evalLevels m aes party key (i + 1) hi).hatt) +
      (uncorrected _ _ _ _ (evalLevels m aes party key i hi.le).hatt _ + _) + _ =
    own hats' _ + own hatt' (bytes (evalLevels m aes party key (i + 1) hi).hatt) +
      uncorrected _ _ _ _ (evalLevels m aes party key i hi.le).hatt _ + _ + _ + _
  ac_rfl

theorem levelLoop_spec (m : Machine) (aes : Cipher) (party : Fin 2) (key : DpfKey)
    (k : KeyStruct) (icp : PackPointers) (dpfl : Nat) {hats hatt : Nat} {A : Assertion Cell}
    (start : Looped m aes party key k icp dpfl (Nat.zero_le _) hats hatt A) :
    ∀ i (hi : i ≤ key.height), Triple A (levelLoop m aes party k icp dpfl hats hatt i)
      fun layer B => Looped m aes party key k icp dpfl hi layer.1 layer.2 B
  | 0, _ => Triple.pure start
  | i + 1, hi =>
    Spec.bind (levelLoop_spec m aes party key k icp dpfl start i (Nat.le_of_succ_le hi))
      fun _ _ looped => evalLevel_spec m aes party key k icp dpfl hi looped

/-! ## The leaves -/

theorem outputShare_apply (party : Fin 2) (bout : Nat) (gamma : Fin 2 → GroupElement)
    (hatt : Byte) (gammaInd : Fin 2 → GroupElement) (e : Fin 2) :
    outputShare party bout gamma hatt gammaInd e =
      if party = 0 then if hatt = 0#8 then gammaInd e else gammaInd e + gamma e
      else if hatt = 0#8 then GroupElement.ofValue 0#64 bout - gammaInd e
      else GroupElement.ofValue 0#64 bout - gammaInd e - gamma e := by
  unfold outputShare
  split <;> split <;> match e with
    | 0 => rfl
    | 1 => rfl

theorem outputEntry_spec (party : Fin 2) (key : DpfKey) (k : KeyStruct) (bout : k.Bout = key.Bout)
    {gammaInd : Nat} {g : Fin 2 → GroupElement} (hatt : Byte) (e : Fin 2) {A : Assertion Cell}
    (ind : (gammaInd, ges g) ∈ A) (gamma : (k.gamma, ges key.gamma) ∈ A) :
    Triple A (outputEntry party k gammaInd hatt e)
      fun entry B => entry = outputShare party key.Bout.toNat key.gamma hatt g e ∧ B = A := by
  unfold outputEntry
  rw [outputShare_apply, bout]
  by_cases server0 : party = 0
  · by_cases clear : hatt = 0#8
    · simp only [if_pos server0, if_pos clear]
      exact Spec.last (readGe_bind ind rfl (Triple.pure ⟨rfl, rfl⟩))
    · simp only [if_pos server0, if_neg clear]
      exact readGe_bind ind rfl (readGe_bind gamma rfl (Triple.pure ⟨rfl, rfl⟩))
  · by_cases clear : hatt = 0#8
    · simp only [if_neg server0, if_pos clear]
      exact readGe_bind ind rfl (Triple.pure ⟨rfl, rfl⟩)
    · simp only [if_neg server0, if_neg clear]
      exact readGe_bind ind rfl (readGe_bind gamma rfl (Triple.pure ⟨rfl, rfl⟩))

/-- A row of the output with its first entry. -/
def halfRow (o : Fin 2 → GroupElement) : Chunk Cell :=
  (Chunk.blank 2).overlay {0} fun e => .ge (o e)

theorem write_halfRow (o : Fin 2 → GroupElement) :
    (Chunk.blank 2).write 0 (.ge (o 0)) = some (halfRow o) := by
  rw [← overlay_empty (Chunk.blank 2) fun e => Cell.ge (o e)]
  exact write_entry (c := Chunk.blank 2) (i := (0 : Fin 2)) rfl Nat.two_pos

theorem write_row (o : Fin 2 → GroupElement) :
    (halfRow o).write 1 (.ge (o 1)) = some (ges o) := by
  have whole : (insert 1 {0} : Finset (Fin 2)) = Finset.univ := by decide
  refine (write_entry (c := Chunk.blank 2) (i := (1 : Fin 2)) rfl Nat.one_lt_two).trans ?_
  rw [whole, overlay_univ]
  rfl

/-- The array `out` of pointers to rows. -/
def outputRows {n : Nat} (out : Nat) (rows : Fin n → Nat) (o : Fin n → Fin 2 → GroupElement) :
    Assertion Cell :=
  own out (Chunk.full fun j => .pointer (rows j)) + ∑ j, own (rows j) (ges (o j))

section Leaves

variable {size : Nat} (m : Machine) (aes : Cipher) (party : Fin 2) (key : DpfKey) (k : KeyStruct)
  (seeds : Fin size → Block) (bits : Fin size → Byte) (hats hatt t out : Nat) (tc : Chunk Cell)

/-- The memory of the leaf loop when the leaves in `S` have been evaluated. -/
def evaluated (S : Finset (Fin size)) (st : LeafState m.nt size) (rows : Fin size → Nat) :
    Assertion Cell :=
  own t (tc.overlay S fun j => .byte (st.t j)) +
  own out ((Chunk.blank size).overlay S fun j => .pointer (rows j)) +
  ∑ j ∈ S, own (rows j) (ges (st.out j)) +
  (own hats (blocks seeds) + own hatt (bytes bits) + keyArrays key k)

theorem evalLeaf_spec (bout : k.Bout = key.Bout) {S : Finset (Fin size)} {j : Fin size}
    (fresh : j ∉ S) (room : j.val < tc.length) (threadId : Fin m.nt) (st : LeafState m.nt size)
    (rows : Fin size → Nat) :
    Triple (evaluated m key k seeds bits hats hatt t out tc S st rows)
      (evalLeaf m aes party k hats hatt t out j threadId (st.threadT, st.threadW))
      fun acc B =>
        let next := DpfPir.evalLeaf m aes party key seeds bits j threadId st
        acc = (next.threadT, next.threadW) ∧
        ∃ rows, B = evaluated m key k seeds bits hats hatt t out tc (insert j S) next rows := by
  obtain ⟨g, g_eq⟩ : ∃ g, g = DpfPir.convert aes m.beyond key.Bout.toNat 2 (seeds j) := ⟨_, rfl⟩
  obtain ⟨share, share_eq⟩ : ∃ share, share = outputShare party key.Bout.toNat key.gamma (bits j) g :=
    ⟨_, rfl⟩
  unfold evalLeaf evaluated
  refine readBlock_bind (f := seeds) (by simp) rfl ?_
  refine Spec.call (convert_spec aes m.beyond k.Bout.toNat 2 (seeds j)) (zero_add _).symm ?_
  rintro gammaInd _ rfl
  rw [bout, ← g_eq]
  refine readByte_bind (f := bits) (i := j) (by simp) rfl ?_
  refine readGe_bind mem_own_add (i := 0) rfl (readGe_bind mem_own_add (i := 1) rfl ?_)
  refine Spec.store_bind (A := own gammaInd (ges g) +
      own out ((Chunk.blank size).overlay S fun j => .pointer (rows j)) +
      ∑ j ∈ S, own (rows j) (ges (st.out j)) +
      (own hats (blocks seeds) + own hatt (bytes bits) + keyArrays key k)) (by ac_rfl)
    (write_overlay (g := Cell.byte) (a := st.t) rfl room (bits j)) ?_
  refine Spec.malloc_bind fun row => ?_
  refine Spec.store_bind (A := own row (Chunk.blank 2) + own t _ + own gammaInd (ges g) +
      ∑ j ∈ S, own (rows j) (ges (st.out j)) +
      (own hats (blocks seeds) + own hatt (bytes bits) + keyArrays key k)) (by ac_rfl)
    (write_overlay (g := Cell.pointer) (a := rows) rfl j.isLt row) ?_
  refine Spec.bind (outputEntry_spec party key k bout (bits j) 0 (g := g) (by simp)
    (by simp [keyArrays])) ?_
  rintro _ _ ⟨rfl, rfl⟩
  rw [← share_eq]
  refine Spec.store_bind (A := own out _ + own t _ + own gammaInd (ges g) +
      ∑ j ∈ S, own (rows j) (ges (st.out j)) +
      (own hats (blocks seeds) + own hatt (bytes bits) + keyArrays key k)) (by ac_rfl)
    (write_halfRow share) ?_
  refine Spec.bind (outputEntry_spec party key k bout (bits j) 1 (g := g) (by simp)
    (by simp [keyArrays])) ?_
  rintro _ _ ⟨rfl, rfl⟩
  rw [← share_eq]
  refine Spec.store_bind rfl (write_row share) ?_
  refine Spec.free_bind (A := own row _ + own out _ + own t _ +
      ∑ j ∈ S, own (rows j) (ges (st.out j)) +
      (own hats (blocks seeds) + own hatt (bytes bits) + keyArrays key k)) (by ac_rfl) ?_
  refine Triple.pure ⟨?_, Function.update rows j row, ?_⟩
  · rw [g_eq]
    rfl
  · have others : ∑ i ∈ S, own (Function.update rows j row i)
        (ges ((DpfPir.evalLeaf m aes party key seeds bits j threadId st).out i)) =
        ∑ i ∈ S, own (rows i) (ges (st.out i)) := by
      refine Finset.sum_congr rfl fun i mem => ?_
      have apart : i ≠ j := fun same => fresh (same ▸ mem)
      simp only [DpfPir.evalLeaf, Function.update_of_ne apart]
    rw [Finset.sum_insert fresh, others, Function.update_self]
    simp only [DpfPir.evalLeaf, Function.update_self, ← g_eq, ← share_eq]
    ac_rfl

/-- A leaf for which the caller's array has no room. -/
theorem evalLeaf_fails {S : Finset (Fin size)} {j : Fin size} (past : tc.length ≤ j.val)
    (threadId : Fin m.nt) (st : LeafState m.nt size) (rows : Fin size → Nat) :
    Fails (evaluated m key k seeds bits hats hatt t out tc S st rows)
      (evalLeaf m aes party k hats hatt t out j threadId (st.threadT, st.threadW)) := by
  unfold evalLeaf evaluated
  refine readBlock_bind (f := seeds) (by simp) rfl ?_
  refine Spec.call (convert_spec aes m.beyond k.Bout.toNat 2 (seeds j)) (zero_add _).symm ?_
  rintro gammaInd _ rfl
  refine readByte_bind (f := bits) (i := j) (by simp) rfl ?_
  refine readGe_bind mem_own_add (i := 0) rfl (readGe_bind mem_own_add (i := 1) rfl ?_)
  exact Fails.store (c := tc.overlay S fun j => .byte (st.t j)) (by simp) past

/-- The leaf loop. -/
theorem leafLoop_spec (bout : k.Bout = key.Bout) (room : size ≤ tc.length)
    (s : Schedule m.nt size) (init : LeafState m.nt size) :
    Triple (own t tc + own out (Chunk.blank size) +
        (own hats (blocks seeds) + own hatt (bytes bits) + keyArrays key k))
      (runM s (evalLeaf m aes party k hats hatt t out) (init.threadT, init.threadW))
      fun acc B =>
        let st := s.run (DpfPir.evalLeaf m aes party key seeds bits) init
        acc = (st.threadT, st.threadW) ∧
        ∃ rows : Fin size → Nat,
          B = own t (tc.overlay Finset.univ fun j => .byte (st.t j)) + outputRows out rows st.out +
            (own hats (blocks seeds) + own hatt (bytes bits) + keyArrays key k) := by
  refine (Triple.simulates s (DpfPir.evalLeaf m aes party key seeds bits)
    (I := fun S st acc B => acc = (st.threadT, st.threadW) ∧
      ∃ rows, B = evaluated m key k seeds bits hats hatt t out tc S st rows)
    init ⟨rfl, fun _ => 0, ?_⟩ ?_).post ?_
  · rw [evaluated, overlay_empty, overlay_empty, Finset.sum_empty, add_zero]
  · rintro S j threadId st _ _ fresh ⟨rfl, rows, rfl⟩
    exact evalLeaf_spec m aes party key k seeds bits hats hatt t out tc bout fresh
      (j.isLt.trans_le room) threadId st rows
  · rintro acc B ⟨result, rows, rfl⟩
    refine ⟨result, rows, ?_⟩
    rw [evaluated, overlay_univ, add_assoc (own t _)]
    rfl

theorem leafLoop_fails (bout : k.Bout = key.Bout) (short : tc.length < size)
    (s : Schedule m.nt size) (init : LeafState m.nt size) :
    Fails (own t tc + own out (Chunk.blank size) +
        (own hats (blocks seeds) + own hatt (bytes bits) + keyArrays key k))
      (runM s (evalLeaf m aes party k hats hatt t out) (init.threadT, init.threadW)) := by
  refine Fails.runM s (fun j : Fin size => j.val < tc.length)
    (I := fun S acc B => ∃ (st : LeafState m.nt size) (rows : Fin size → Nat),
      acc = (st.threadT, st.threadW) ∧
      B = evaluated m key k seeds bits hats hatt t out tc S st rows)
    ⟨init, fun _ => 0, rfl, ?_⟩ ?_ ?_ (i := ⟨tc.length, short⟩) (Nat.lt_irrefl _)
  · rw [evaluated, overlay_empty, overlay_empty, Finset.sum_empty, add_zero]
  · rintro S j threadId _ _ fresh room ⟨st, rows, rfl, rfl⟩
    exact (evalLeaf_spec m aes party key k seeds bits hats hatt t out tc bout fresh room threadId st
      rows).post fun acc B ⟨result, rows, memory⟩ => ⟨_, rows, result, memory⟩
  · rintro S j threadId _ _ _ past ⟨st, rows, rfl, rfl⟩
    exact evalLeaf_fails m aes party key k seeds bits hats hatt t out tc (Nat.le_of_not_lt past)
      threadId st rows

end Leaves

/-! ## The whole function -/

/-- A key whose arrays are at these pointers. -/
def keyAt (key : DpfKey) (sigma tau0 tau1 gamma : Nat) : KeyStruct where
  height := key.height
  Bout := key.Bout
  s := key.s
  t := key.t
  sigma := sigma
  tau0 := tau0
  tau1 := tau1
  gamma := gamma

theorem release_spec {hats hatt dpfl : Nat} (l : LayerStruct)
    (hatsChunk hattChunk nodesChunk prevtChunk currtChunk : Chunk Cell) :
    Triple (own hats hatsChunk + own hatt hattChunk +
        layerArrays dpfl l nodesChunk prevtChunk currtChunk)
      (release hats hatt dpfl) fun _ B => B = 0 := by
  unfold release
  refine Spec.free_bind (add_assoc _ _ _) (Spec.free_bind rfl ?_)
  exact freeDpfLayer_spec l nodesChunk prevtChunk currtChunk

/-- The structure of a pack whose arrays are at these pointers. -/
def packAt (icp : InputCheckPack) (arrays : PackPointers) : PackStruct where
  index := icp.index
  payload := icp.payload
  arrays := arrays
  size := icp.size
  T := icp.T
  W := icp.W
  gamma := icp.gamma

theorem freeDpfKey_spec (key : DpfKey) (k : KeyStruct) :
    Triple (keyArrays key k) (freeDpfKey k) fun _ B => B = 0 := by
  unfold freeDpfKey keyArrays
  simp only [add_assoc]
  refine Spec.free_bind rfl (Spec.free_bind rfl (Spec.free_bind rfl ?_))
  exact Spec.last (Spec.free_bind (add_zero _).symm (Triple.pure rfl))

theorem freeInputCheckPack_spec (icp : InputCheckPack) (arrays : PackPointers) :
    Triple (packArrays arrays icp.size icp.zs icp.zt icp.sigma icp.tau)
      (freeInputCheckPack (packAt icp arrays)) fun _ B => B = 0 := by
  have order : packArrays arrays icp.size icp.zs icp.zt icp.sigma icp.tau =
      own (arrays.zs 0) (begun icp.size .block (icp.zs 0)) +
      (own (arrays.zs 1) (begun icp.size .block (icp.zs 1)) +
      (own (arrays.zt 0) (begun icp.size .byte (icp.zt 0)) +
      (own (arrays.zt 1) (begun icp.size .byte (icp.zt 1)) +
      (own arrays.sigma (begun icp.size .block icp.sigma) +
      (own (arrays.tau 0) (begun icp.size .byte (icp.tau 0)) +
      own (arrays.tau 1) (begun icp.size .byte (icp.tau 1))))))) := by
    unfold packArrays
    ac_rfl
  rw [order]
  unfold freeInputCheckPack
  refine Spec.free_bind rfl (Spec.free_bind rfl (Spec.free_bind rfl (Spec.free_bind rfl
    (Spec.free_bind rfl (Spec.free_bind rfl ?_)))))
  exact Spec.last (Spec.free_bind (add_zero _).symm (Triple.pure rfl))

section Whole

variable (m : Machine) (bitlength : Nat) (aes : Cipher) (party : Fin 2) (key : DpfKey)
  (sigma tau0 tau1 gamma : Nat) (index payload : GroupElement) (t : Nat) (tc : Chunk Cell)

/-- `dpf_eval_all` up to its leaves. -/
theorem dpfEvalAll_layers {goal : Assertion Cell → Option ((Nat × PackStruct) × Memory Cell) → Prop}
    (next : ∀ dpfl arrays hats hatt B,
      Looped m aes party key (keyAt key sigma tau0 tau1 gamma) arrays dpfl le_rfl hats hatt B →
      Spec (B + own t tc) (evalLeaves m bitlength aes party (keyAt key sigma tau0 tau1 gamma) index
        payload t dpfl arrays hats hatt) goal) :
    Spec (keyArrays key (keyAt key sigma tau0 tau1 gamma) + own t tc)
      (dpfEvalAll m bitlength aes party (keyAt key sigma tau0 tau1 gamma) index payload t) goal := by
  unfold dpfEvalAll
  refine Spec.malloc_bind fun dpfl => ?_
  refine Spec.call (plantRoot_spec (evalBits m aes party key (Nat.zero_le _)) dpfl key.s rfl) rfl ?_
  intro root tree planted
  refine Spec.malloc_bind fun zs0 => Spec.malloc_bind fun zs1 => Spec.malloc_bind fun zt0 =>
    Spec.malloc_bind fun zt1 => Spec.malloc_bind fun sigma' => Spec.malloc_bind fun tau0' =>
    Spec.malloc_bind fun tau1' => ?_
  refine Spec.call (levelLoop_spec m aes party key _ _ dpfl ⟨tree, planted, rfl⟩ key.height le_rfl)
    ?_ fun layer B looped => next dpfl _ layer.1 layer.2 B looped
  simp only [packArrays, begun_zero]
  show _ = tree +
    (own zt1 _ + own zt0 _ + own zs1 _ + own zs0 _ + own tau1' _ + own tau0' _ + own sigma' _) +
    keyArrays key _ + own t tc
  ac_rfl

/-- What `dpf_eval_all` leaves allocated of its own: the output shares, the arrays of the
pack, and the control bits of all layers but the last two. -/
def EvalResult (r : Nat × PackStruct) (B : Assertion Cell) : Prop :=
  let eval := DpfPir.dpfEvalAll m bitlength aes party key index payload
  ∃ (arrays : PackPointers) (rows : Fin (2 ^ key.height) → Nat) (lost : Fin (key.height - 1) → Nat),
    r.2 = packAt eval.icp arrays ∧
    B = outputRows r.1 rows eval.out +
      packArrays arrays key.height eval.icp.zs eval.icp.zt eval.icp.sigma eval.icp.tau +
      lostBits (keyBits m aes party key) lost

theorem evalLeaves_spec (room : 2 ^ key.height ≤ tc.length) {dpfl : Nat} {arrays : PackPointers}
    {hats hatt : Nat} {A : Assertion Cell}
    (start : Looped m aes party key (keyAt key sigma tau0 tau1 gamma) arrays dpfl le_rfl hats hatt A) :
    Triple (A + own t tc)
      (evalLeaves m bitlength aes party (keyAt key sigma tau0 tau1 gamma) index payload t dpfl arrays
        hats hatt)
      fun r B =>
        let eval := DpfPir.dpfEvalAll m bitlength aes party key index payload
        ∃ C, EvalResult m bitlength aes party key index payload r C ∧
          B = keyArrays key (keyAt key sigma tau0 tau1 gamma) +
            own t (tc.overlay Finset.univ fun j => .byte (eval.t j)) + C := by
  obtain ⟨_, tree, rfl⟩ := start
  obtain ⟨nodes, prevt, currt, nodesChunk, prevtChunk, currtChunk, zs, zt, lost, rfl⟩ := tree.parts
  unfold evalLeaves
  refine readLayer_bind (l := {
    size := 2 ^ key.height, level := key.height, nodes, prevt, currt, zs, zt })
    (by simp [layerArrays]) ?_
  refine Spec.malloc_bind fun out => ?_
  refine Spec.call (leafLoop_spec m aes party key (keyAt key sigma tau0 tau1 gamma)
    (evalLevels m aes party key key.height le_rfl).hats
    (evalLevels m aes party key key.height le_rfl).hatt hats hatt t out tc rfl room
    (m.schedule (.leaves party) (2 ^ key.height))
    { threadT := fun _ => 0#32
      threadW := threadWInit bitlength key.Bout.toNat
      t := fun _ => 0#8
      out := fun _ _ => GroupElement.ofValue 0#64 key.Bout.toNat })
    (C := layerArrays dpfl {
        size := 2 ^ key.height, level := key.height, nodes, prevt, currt, zs, zt } nodesChunk
        prevtChunk currtChunk +
      lostBits (keyBits m aes party key) lost +
      packArrays arrays key.height (evalLevels m aes party key key.height le_rfl).zs
        (evalLevels m aes party key key.height le_rfl).zt
        (evalLevels m aes party key key.height le_rfl).sigma
        (evalLevels m aes party key key.height le_rfl).tau) ?_ ?_
  · show own out _ + (own hats _ +
      own hatt (bytes (evalLevels m aes party key key.height le_rfl).hatt) + _ + _ + _ + _ + _) = _
    ac_rfl
  rintro _ _ ⟨rfl, rows, rfl⟩
  refine readGe_bind (f := key.gamma) (i := 0) (by simp [keyArrays]) rfl ?_
  refine readGe_bind (f := key.gamma) (i := 1) (by simp [keyArrays]) rfl ?_
  generalize outputs_eq : outputRows out rows _ = outputs
  generalize done_eq : tc.overlay Finset.univ _ = done
  generalize pack_eq : packArrays arrays key.height _ _ _ _ = pack
  refine Spec.call (release_spec {
      size := 2 ^ key.height, level := key.height, nodes, prevt, currt, zs, zt }
      (blocks (evalLevels m aes party key key.height le_rfl).hats)
      (bytes (evalLevels m aes party key key.height le_rfl).hatt) nodesChunk prevtChunk currtChunk)
    (C := keyArrays key (keyAt key sigma tau0 tau1 gamma) + own t done + outputs + pack +
      lostBits (keyBits m aes party key) lost) (by ac_rfl) ?_
  rintro _ _ rfl
  refine Triple.pure ⟨outputs + pack + lostBits (keyBits m aes party key) lost,
    ⟨arrays, rows, lost, rfl, ?_⟩, ?_⟩
  · rw [← outputs_eq, ← pack_eq]
    rfl
  · rw [← done_eq, zero_add]
    simp only [add_assoc]
    rfl

theorem evalLeaves_fails (short : tc.length < 2 ^ key.height) {dpfl : Nat} {arrays : PackPointers}
    {hats hatt : Nat} {A : Assertion Cell}
    (start : Looped m aes party key (keyAt key sigma tau0 tau1 gamma) arrays dpfl le_rfl hats hatt A) :
    Fails (A + own t tc)
      (evalLeaves m bitlength aes party (keyAt key sigma tau0 tau1 gamma) index payload t dpfl arrays
        hats hatt) := by
  obtain ⟨_, tree, rfl⟩ := start
  obtain ⟨nodes, prevt, currt, nodesChunk, prevtChunk, currtChunk, zs, zt, lost, rfl⟩ := tree.parts
  unfold evalLeaves
  refine readLayer_bind (l := {
    size := 2 ^ key.height, level := key.height, nodes, prevt, currt, zs, zt })
    (by simp [layerArrays]) ?_
  refine Spec.malloc_bind fun out => Fails.bind ?_
  refine (leafLoop_fails m aes party key (keyAt key sigma tau0 tau1 gamma)
    (evalLevels m aes party key key.height le_rfl).hats
    (evalLevels m aes party key key.height le_rfl).hatt hats hatt t out tc rfl short
    (m.schedule (.leaves party) (2 ^ key.height))
    { threadT := fun _ => 0#32
      threadW := threadWInit bitlength key.Bout.toNat
      t := fun _ => 0#8
      out := fun _ _ => GroupElement.ofValue 0#64 key.Bout.toNat }).frame
    (C := layerArrays dpfl {
        size := 2 ^ key.height, level := key.height, nodes, prevt, currt, zs, zt } nodesChunk
        prevtChunk currtChunk +
      lostBits (keyBits m aes party key) lost +
      packArrays arrays key.height (evalLevels m aes party key key.height le_rfl).zs
        (evalLevels m aes party key key.height le_rfl).zt
        (evalLevels m aes party key key.height le_rfl).sigma
        (evalLevels m aes party key key.height le_rfl).tau) ?_
  show own out _ + (own hats _ +
    own hatt (bytes (evalLevels m aes party key key.height le_rfl).hatt) + _ + _ + _ + _ + _) = _
  ac_rfl

/-- The memory of `dpf_eval_all`. It runs into an error just when the array for the control
bits of the leaves is too short. -/
theorem dpfEvalAll_refines {memory : Memory Cell} {rest : Assertion Cell}
    (start : Holds memory
      (keyArrays key (keyAt key sigma tau0 tau1 gamma) + own t tc + rest)) :
    ((dpfEvalAll m bitlength aes party (keyAt key sigma tau0 tau1 gamma) index payload t
      memory).isSome ↔ 2 ^ key.height ≤ tc.length) ∧
    ∀ r memory', dpfEvalAll m bitlength aes party (keyAt key sigma tau0 tau1 gamma) index payload t
        memory = some (r, memory') →
      let eval := DpfPir.dpfEvalAll m bitlength aes party key index payload
      ∃ C, EvalResult m bitlength aes party key index payload r C ∧
        Holds memory' (keyArrays key (keyAt key sigma tau0 tau1 gamma) +
          own t (tc.overlay Finset.univ fun j => .byte (eval.t j)) + C + rest) := by
  rcases Nat.lt_or_ge tc.length (2 ^ key.height) with short | room
  · have fails := dpfEvalAll_layers m bitlength aes party key sigma tau0 tau1 gamma index payload t tc
      (fun dpfl arrays hats hatt B looped => evalLeaves_fails m bitlength aes party key sigma tau0
        tau1 gamma index payload t tc short looped) rest memory start
    rw [fails]
    exact ⟨⟨fun none => absurd none Bool.false_ne_true, fun room => absurd room short.not_ge⟩,
      fun _ _ ran => absurd ran.symm (Option.some_ne_none _)⟩
  · obtain ⟨r, memory', B, ran, ⟨C, result, rfl⟩, holds⟩ :=
      dpfEvalAll_layers m bitlength aes party key sigma tau0 tau1 gamma index payload t tc
      (fun dpfl arrays hats hatt B looped => evalLeaves_spec m bitlength aes party key sigma tau0
        tau1 gamma index payload t tc room looped) rest memory start
    rw [ran]
    refine ⟨⟨fun _ => room, fun _ => rfl⟩, fun r' memory'' same => ?_⟩
    obtain ⟨rfl, rfl⟩ := Prod.mk.inj (Option.some.inj same)
    exact ⟨C, result, holds⟩

end Whole

/-! ## A server's memory -/

/-- A memory with the arrays of a key and an array for the control bits of the leaves. -/
def keyMemory (key : DpfKey) (tc : Chunk Cell) : Memory Cell :=
  [] ++ [some (blocks key.sigma)] ++ [some (bytes key.tau0)] ++ [some (bytes key.tau1)] ++
    [some (ges key.gamma)] ++ [some tc]

theorem holds_keyMemory (key : DpfKey) (tc : Chunk Cell) :
    Holds (keyMemory key tc) (keyArrays key (keyAt key 0 1 2 3) + own 4 tc + 0) := by
  have holds := Holds.empty.malloc (blocks key.sigma) |>.malloc (bytes key.tau0)
    |>.malloc (bytes key.tau1) |>.malloc (ges key.gamma) |>.malloc tc
  have order : keyArrays key (keyAt key 0 1 2 3) + own 4 tc + 0 = own 4 tc + (own 3 (ges key.gamma) +
      (own 2 (bytes key.tau1) + (own 1 (bytes key.tau0) + (own 0 (blocks key.sigma) + 0)))) := by
    show own 0 (blocks key.sigma) + own 1 (bytes key.tau0) + own 2 (bytes key.tau1) +
      own 3 (ges key.gamma) + _ + _ = _
    ac_rfl
  rw [order]
  exact holds

/-- Shares of the index 2 and of the payload 200, for a tree of height two. -/
def deepInput : DpfInput where
  index := ![GroupElement.ofValue 3#64 2, GroupElement.ofValue 3#64 2]
  alpha := toyInput.alpha

/-- The key that `P0` is dealt for them. -/
def deepKey : DpfKey := (DpfPir.dpfKeygen toyDealer 8 toyCipher 2 8 deepInput toySeeds).key 0

/-- What `P0` computes from that key. -/
def deepEval : EvalAll 2 :=
  DpfPir.dpfEvalAll (toyServers 0) 8 toyCipher 0 deepKey (deepInput.index 0) (deepInput.alpha 0)

theorem dpfEvalAll_refines_toy :
    ∃ r memory' C,
      dpfEvalAll (toyServers 0) 8 toyCipher 0 (keyAt deepKey 0 1 2 3) (deepInput.index 0)
        (deepInput.alpha 0) 4 (keyMemory deepKey (Chunk.blank 4)) = some (r, memory') ∧
      EvalResult (toyServers 0) 8 toyCipher 0 deepKey (deepInput.index 0) (deepInput.alpha 0) r C ∧
      Holds memory' (keyArrays deepKey (keyAt deepKey 0 1 2 3) +
        own 4 (@Chunk.overlay Cell 4 (Chunk.blank 4) Finset.univ fun j => .byte (deepEval.t j)) +
        C + 0) := by
  obtain ⟨runs, results⟩ := dpfEvalAll_refines (toyServers 0) 8 toyCipher 0 deepKey 0 1 2 3
    (deepInput.index 0) (deepInput.alpha 0) 4 (Chunk.blank 4) (holds_keyMemory deepKey _)
  obtain ⟨⟨r, memory'⟩, ran⟩ := Option.isSome_iff_exists.mp (runs.mpr le_rfl)
  obtain ⟨C, result, holds⟩ := results r memory' ran
  exact ⟨r, memory', C, ran, result, holds⟩

section Free

variable (m : Machine) (bitlength : Nat) (aes : Cipher) (party : Fin 2) (key : DpfKey)
  (sigma tau0 tau1 gamma : Nat) (index payload : GroupElement) (t : Nat) (tc : Chunk Cell)

theorem evalAndFree_spec (room : 2 ^ key.height ≤ tc.length) :
    Triple (keyArrays key (keyAt key sigma tau0 tau1 gamma) + own t tc)
      (evalAndFree m bitlength aes party (keyAt key sigma tau0 tau1 gamma) index payload t)
      fun r B =>
        let eval := DpfPir.dpfEvalAll m bitlength aes party key index payload
        ∃ rows lost, B = own t (tc.overlay Finset.univ fun j => .byte (eval.t j)) +
          outputRows r.1 rows eval.out +
          lostBits (keyBits m aes party key) lost := by
  have eval := dpfEvalAll_layers m bitlength aes party key sigma tau0 tau1 gamma index payload t tc
    fun dpfl arrays hats hatt B looped => evalLeaves_spec m bitlength aes party key sigma tau0 tau1
      gamma index payload t tc room looped
  unfold evalAndFree
  refine Spec.bind eval ?_
  rintro r _ ⟨_, ⟨arrays, rows, lost, pack, rfl⟩, rfl⟩
  rw [pack]
  refine Spec.call (freeInputCheckPack_spec _ arrays)
    (C := keyArrays key (keyAt key sigma tau0 tau1 gamma) + (own t _ + outputRows r.1 rows _ +
      lostBits _ lost)) (by ac_rfl) ?_
  rintro _ _ rfl
  refine Spec.call (freeDpfKey_spec key (keyAt key sigma tau0 tau1 gamma)) (zero_add _) ?_
  rintro _ _ rfl
  exact Triple.pure ⟨rows, lost, zero_add _⟩

/-- What a server never gives back: the array it passes for the control bits, the output
shares, and a byte for each node above the last two layers. -/
theorem evalAndFree_leaves (room : 2 ^ key.height ≤ tc.length) {memory : Memory Cell}
    {rest : Assertion Cell}
    (start : Holds memory
      (keyArrays key (keyAt key sigma tau0 tau1 gamma) + own t tc + rest)) :
    let eval := DpfPir.dpfEvalAll m bitlength aes party key index payload
    ∃ r memory' rows lost,
      evalAndFree m bitlength aes party (keyAt key sigma tau0 tau1 gamma) index payload t memory =
        some (r, memory') ∧
      Holds memory' (own t (tc.overlay Finset.univ fun j => .byte (eval.t j)) +
        outputRows r.1 rows eval.out + lostBits (keyBits m aes party key) lost + rest) ∧
      cells (lostBits (keyBits m aes party key) lost) = 2 ^ (key.height - 1) - 1 := by
  obtain ⟨r, memory', _, ran, ⟨rows, lost, rfl⟩, holds⟩ :=
    evalAndFree_spec m bitlength aes party key sigma tau0 tau1 gamma index payload t tc room rest
      memory start
  exact ⟨r, memory', rows, lost, ran, holds, cells_lostBits _ lost⟩

end Free

theorem evalAndFree_leaves_toy :
    ∃ r memory' rows lost,
      evalAndFree (toyServers 0) 8 toyCipher 0 (keyAt deepKey 0 1 2 3) (deepInput.index 0)
        (deepInput.alpha 0) 4 (keyMemory deepKey (Chunk.blank 4)) = some (r, memory') ∧
      Holds memory' (own 4 (@Chunk.overlay Cell 4 (Chunk.blank 4) Finset.univ
          fun j => .byte (deepEval.t j)) +
        outputRows r.1 rows deepEval.out +
        lostBits (keyBits (toyServers 0) toyCipher 0 deepKey) lost + 0) ∧
      cells (lostBits (keyBits (toyServers 0) toyCipher 0 deepKey) lost) = 1 :=
  evalAndFree_leaves (toyServers 0) 8 toyCipher 0 deepKey 0 1 2 3 (deepInput.index 0)
    (deepInput.alpha 0) 4 (Chunk.blank 4) le_rfl (holds_keyMemory deepKey _)

end OnHeap

end DpfPir
