import DpfPir.EvalHeap

/-!
# Key generation on the heap

`dpf_keygen` with the memory that it allocates and frees (`dpf.cpp`, lines 145 to 400). The
correction words are kept five times: in both input packs, in both keys and in `ip2`.

Results:
1. `OnHeap.recordCopies_spec`, `OnHeap.correctBothLoop_spec`: the five copies stay equal, and
   the loops on the heap compute what the functions on arrays compute.
2. `OnHeap.dpfKeygen_refines`: the function ends without an error, its results are those of
   the function on arrays, and besides them it leaves allocated the copies in the input packs,
   the two structures for the keys and the control bits of all layers but the last two of
   both trees.
-/

namespace DpfPir

open LittleEndian Words ParallelLoop CorrectionTree Heap

namespace OnHeap

/-! ## The source functions -/

/-- The fields of a `struct dpf_input_pack` that the caller has set. -/
structure InputStruct where
  alpha : Nat
  index : GroupElement

/-- The arrays `sigma`, `tau[0]` and `tau[1]`. -/
structure WordPointers where
  sigma : Nat
  tau : Fin 2 → Nat

def mallocWords (height : Nat) : HeapM Cell WordPointers := do
  let sigma ← malloc height
  let tau0 ← malloc height
  let tau1 ← malloc height
  return { sigma, tau := ![tau0, tau1] }

/-- The places that keep the correction words. -/
structure Copies where
  dpfip : Fin 2 → WordPointers
  key : Fin 2 → WordPointers
  ip2 : WordPointers

/-- The arrays of `ip2` for the sums of the levels. -/
structure SumPointers where
  zs0 : Fin 2 → Nat
  zs1 : Fin 2 → Nat
  zt0 : Fin 2 → Nat
  zt1 : Fin 2 → Nat

def mallocSums (height : Nat) : HeapM Cell SumPointers := do
  let zs00 ← malloc height
  let zs01 ← malloc height
  let zs10 ← malloc height
  let zs11 ← malloc height
  let zt00 ← malloc height
  let zt01 ← malloc height
  let zt10 ← malloc height
  let zt11 ← malloc height
  return { zs0 := ![zs00, zs01], zs1 := ![zs10, zs11], zt0 := ![zt00, zt01], zt1 := ![zt10, zt11] }

/-- What the level loop stores for the check. -/
def recordSums (sums : SumPointers) (i : Nat) (l0 l1 : LayerStruct) : HeapM Cell Unit := do
  store (sums.zs0 0) i (.block (l0.zs 0))
  store (sums.zs0 1) i (.block (l0.zs 1))
  store (sums.zs1 0) i (.block (l1.zs 0))
  store (sums.zs1 1) i (.block (l1.zs 1))
  store (sums.zt0 0) i (.byte (l0.zt 0))
  store (sums.zt0 1) i (.byte (l0.zt 1))
  store (sums.zt1 0) i (.byte (l1.zt 0))
  store (sums.zt1 1) i (.byte (l1.zt 1))

/-- An entry of one of the arrays of correction words. Both input packs get it, each key has
it from its input pack, and `ip2` from the first key. -/
def recordCopies {α : Type} (wrap : α → Cell) (view : Cell → Option α) (copies : Copies)
    (field : WordPointers → Nat) (i : Nat) (v : α) : HeapM Cell Unit := do
  store (field (copies.dpfip 0)) i (wrap v)
  store (field (copies.dpfip 1)) i (wrap v)
  let word ← loadAs view (field (copies.dpfip 0)) i
  store (field (copies.key 0)) i (wrap word)
  let word ← loadAs view (field (copies.dpfip 1)) i
  store (field (copies.key 1)) i (wrap word)
  let word ← loadAs view (field (copies.key 0)) i
  store (field copies.ip2) i (wrap word)

/-- The correction word of a level. -/
def recordWords (copies : Copies) (i : Nat) (sigma : Block) (tau : Fin 2 → Byte) :
    HeapM Cell Unit := do
  recordCopies .block Cell.block? copies (fun words => words.sigma) i sigma
  recordCopies .byte Cell.byte? copies (fun words => words.tau 0) i (tau 0)
  recordCopies .byte Cell.byte? copies (fun words => words.tau 1) i (tau 1)

/-- Entry `j` of one party's layer. -/
def correctSide (dpfl : Nat) (dpfip : WordPointers) (i : Nat) (layer : Nat × Nat) (j : Nat) :
    HeapM Cell Unit := do
  let l ← readLayer dpfl
  let prevt ← nonnull l.prevt
  let nodes ← nonnull l.nodes
  let currt ← nonnull l.currt
  let parent ← readByte prevt (j / 2)
  if parent = 1#8 then
    let node ← readBlock nodes j
    let sigma ← readBlock dpfip.sigma i
    store layer.1 j (.block (node ^^^ sigma))
    let bit ← readByte currt j
    let tau ← readByte (dpfip.tau (Fin.ofNat 2 j)) i
    store layer.2 j (.byte (bit ^^^ tau))
  else
    let node ← readBlock nodes j
    store layer.1 j (.block node)
    let bit ← readByte currt j
    store layer.2 j (.byte bit)

/-- The body of the dealer's correction loop. -/
def correctBoth {nt size : Nat} (dpfl : Fin 2 → Nat) (copies : Copies) (i : Nat)
    (layers : Fin 2 → Nat × Nat) (j : Fin size) (_ : Fin nt) (_ : Unit) : HeapM Cell Unit := do
  correctSide (dpfl 0) (copies.dpfip 0) i (layers 0) j
  correctSide (dpfl 1) (copies.dpfip 1) i (layers 1) j

/-- The expansion of both trees, and what is recorded of it. -/
def keygenExpand (m : Machine) (aes : Cipher) (height : Nat) (dpfip : Fin 2 → InputStruct)
    (dpfl : Fin 2 → Nat) (sums : SumPointers) (copies : Copies) (i : Nat)
    (layers : Fin 2 → Nat × Nat) : HeapM Cell Unit := do
  prgEvalAllAndXor m (.expand 0 i) aes (dpfl 0) (layers 0).1
  prgEvalAllAndXor m (.expand 1 i) aes (dpfl 1) (layers 1).1
  let l0 ← readLayer (dpfl 0)
  let l1 ← readLayer (dpfl 1)
  recordSums sums i l0 l1
  let sig := pathBit ((dpfip 0).index + (dpfip 1).index).value (height - 1 - i)
  recordWords copies i (l0.zs (bitIndex (1#8 ^^^ sig)) ^^^ l1.zs (bitIndex (1#8 ^^^ sig)))
    ![l0.zt 0 ^^^ l1.zt 0 ^^^ sig ^^^ 1#8, l0.zt 1 ^^^ l1.zt 1 ^^^ sig]

/-- The correction of both layers. -/
def keygenCorrect (m : Machine) (dpfl : Fin 2 → Nat) (copies : Copies) (i : Nat)
    (layers : Fin 2 → Nat × Nat) : HeapM Cell (Fin 2 → Nat × Nat) := do
  -- The control bits of the layer before stay allocated when `prevt` is overwritten.
  modifyLayer (dpfl 0) fun l => { l with prevt := some (layers 0).2 }
  modifyLayer (dpfl 1) fun l => { l with prevt := some (layers 1).2 }
  free (some (layers 0).1)
  free (some (layers 1).1)
  let l0 ← readLayer (dpfl 0)
  let l1 ← readLayer (dpfl 1)
  let hats0 ← malloc l0.size
  let hats1 ← malloc l1.size
  let hatt0 ← malloc l0.size
  let hatt1 ← malloc l1.size
  let layers := ![(hats0, hatt0), (hats1, hatt1)]
  runM (m.schedule (.correct 0 i) l0.size) (correctBoth dpfl copies i layers) ()
  return layers

/-- One level of `dpf_keygen`. -/
def keygenLevel (m : Machine) (aes : Cipher) (height : Nat) (dpfip : Fin 2 → InputStruct)
    (dpfl : Fin 2 → Nat) (sums : SumPointers) (copies : Copies) (i : Nat)
    (layers : Fin 2 → Nat × Nat) : HeapM Cell (Fin 2 → Nat × Nat) := do
  keygenExpand m aes height dpfip dpfl sums copies i layers
  keygenCorrect m dpfl copies i layers

/-- The level loop of `dpf_keygen`. -/
def keygenLoop (m : Machine) (aes : Cipher) (height : Nat) (dpfip : Fin 2 → InputStruct)
    (dpfl : Fin 2 → Nat) (sums : SumPointers) (copies : Copies) (layers : Fin 2 → Nat × Nat) :
    Nat → HeapM Cell (Fin 2 → Nat × Nat)
  | 0 => return layers
  | i + 1 => do
    let layers ← keygenLoop m aes height dpfip dpfl sums copies layers i
    keygenLevel m aes height dpfip dpfl sums copies i layers

/-- The body of the dealer's leaf loop. -/
def keygenLeaf {size : Nat} (m : Machine) (aes : Cipher) (bout : Nat)
    (layers : Fin 2 → Nat × Nat) (j : Fin size) (threadId : Fin m.nt)
    (acc : KeygenLeafState m.nt) : HeapM Cell (KeygenLeafState m.nt) := do
  let seed0 ← readBlock (layers 0).1 j
  let gammaInd0 ← convert aes m.beyond bout 2 seed0
  let first0 ← readGe gammaInd0 0
  let second0 ← readGe gammaInd0 1
  let seed1 ← readBlock (layers 1).1 j
  let gammaInd1 ← convert aes m.beyond bout 2 seed1
  let first1 ← readGe gammaInd1 0
  let second1 ← readGe gammaInd1 1
  let bit0 ← readByte (layers 0).2 j
  let bit1 ← readByte (layers 1).2 j
  free (some gammaInd0)
  free (some gammaInd1)
  return {
    threadW0 := Function.update acc.threadW0 threadId
      (addPair (acc.threadW0 threadId) ![first0, second0])
    threadW1 := Function.update acc.threadW1 threadId
      (addPair (acc.threadW1 threadId) ![first1, second1])
    threadT0 := Function.update acc.threadT0 threadId
      (acc.threadT0 threadId + bit0.setWidth 32)
    threadT1 := Function.update acc.threadT1 threadId
      (acc.threadT1 threadId + bit1.setWidth 32) }

/-- The arrays `gamma` of both keys. -/
def storeGamma (gamma : Fin 2 → GroupElement) : HeapM Cell (Nat × Nat) := do
  let gamma0 ← malloc 2
  let gamma1 ← malloc 2
  store gamma0 0 (.ge (gamma 0))
  store gamma1 0 (.ge (gamma 0))
  store gamma0 1 (.ge (gamma 1))
  store gamma1 1 (.ge (gamma 1))
  return (gamma0, gamma1)

/-- `struct input_check_pack_2`. -/
structure Pack2Struct where
  index : Nat
  payload : Nat
  sums : SumPointers
  words : WordPointers
  size : Nat
  T : Fin 2 → BitVec 32
  W : Fin 2 → Fin 2 → GroupElement
  gamma : Fin 2 → GroupElement

/-- What `dpf_keygen` returns, what it writes to `ip2`, and the arrays that it leaves to the
input packs. -/
structure KeygenStructs where
  key : Fin 2 → KeyStruct
  ip2 : Pack2Struct
  dpfip : Fin 2 → WordPointers

/-- `dpf_keygen` from its leaves on. The structures `*key0` and `*key1` get all their fields
at the end. -/
def keygenFinish (m : Machine) (bitlength : Nat) (aes : Cipher) (height groupBitwidth : Nat)
    (keys : Fin 2 → Block) (beta : Fin 2 → Fin 2 → GroupElement) (index payload key0 key1 : Nat)
    (dpfl : Fin 2 → Nat) (sums : SumPointers) (copies : Copies) (layers : Fin 2 → Nat × Nat) :
    HeapM Cell KeygenStructs := do
  let l0 ← readLayer (dpfl 0)
  let acc ← runM (m.schedule (.leaves 0) l0.size) (keygenLeaf m aes groupBitwidth layers)
    { threadW0 := threadWInit bitlength groupBitwidth
      threadW1 := threadWInit bitlength groupBitwidth
      threadT0 := fun _ => 0#32
      threadT1 := fun _ => 0#32 }
  let w0 := merge addPair (fun _ => GroupElement.ofValue 0#64 groupBitwidth) acc.threadW0
  let w1 := merge addPair (fun _ => GroupElement.ofValue 0#64 groupBitwidth) acc.threadW1
  let t0 := merge (fun total thread => total + thread) 0#32 acc.threadT0
  let t1 := merge (fun total thread => total + thread) 0#32 acc.threadT1
  free (some (layers 0).1)
  free (some (layers 1).1)
  free (some (layers 0).2)
  free (some (layers 1).2)
  let (gamma0, gamma1) ← storeGamma
    ![keygenGamma (t0.slt t1) w0 w1 beta 0, keygenGamma (t0.slt t1) w0 w1 beta 1]
  let first ← readGe gamma0 0
  let second ← readGe gamma0 1
  freeDpfLayer (dpfl 0)
  freeDpfLayer (dpfl 1)
  let keyStruct := fun (b : Fin 2) (gamma : Nat) => {
    height, Bout := BitVec.ofNat 32 groupBitwidth, s := keys b, t := BitVec.ofNat 8 b
    sigma := (copies.key b).sigma, tau0 := (copies.key b).tau 0, tau1 := (copies.key b).tau 1
    gamma : KeyStruct }
  store key0 0 (.key (keyStruct 0 gamma0))
  store key1 0 (.key (keyStruct 1 gamma1))
  return {
    key := ![keyStruct 0 gamma0, keyStruct 1 gamma1]
    ip2 := {
      index, payload, sums, words := copies.ip2, size := height, T := ![t0, t1], W := ![w0, w1]
      gamma := ![first, second] }
    dpfip := copies.dpfip }

/-- `new GroupElement[2]` with its two elements. -/
def newPair (first second : HeapM Cell GroupElement) : HeapM Cell Nat := do
  let pair ← malloc 2
  let entry ← first
  store pair 0 (.ge entry)
  let entry ← second
  store pair 1 (.ge entry)
  return pair

/-- `dpf_keygen`. The two root seeds, drawn from the dealer's random generator, are an
argument. -/
def dpfKeygen (m : Machine) (bitlength : Nat) (aes : Cipher) (height groupBitwidth : Nat)
    (dpfip : Fin 2 → InputStruct) (keys : Fin 2 → Block) : HeapM Cell KeygenStructs := do
  let index ← newPair (pure (dpfip 0).index) (pure (dpfip 1).index)
  let payload ← newPair (readGe (dpfip 0).alpha 0) (readGe (dpfip 1).alpha 0)
  let alpha0 ← readGe (dpfip 0).alpha 0
  let alpha1 ← readGe (dpfip 1).alpha 0
  let key0 ← malloc 1
  let key1 ← malloc 1
  let dpfl0 ← malloc 1
  let dpfl1 ← malloc 1
  let root0 ← plantRoot dpfl0 (keys 0) 0#8
  let dpfip0 ← mallocWords height
  let words0 ← mallocWords height
  let root1 ← plantRoot dpfl1 (keys 1) 1#8
  let sums ← mallocSums height
  let dpfip1 ← mallocWords height
  let words1 ← mallocWords height
  let ip2 ← mallocWords height
  let copies := { dpfip := ![dpfip0, dpfip1], key := ![words0, words1], ip2 }
  let layers ← keygenLoop m aes height dpfip ![dpfl0, dpfl1] sums copies ![root0, root1] height
  keygenFinish m bitlength aes height groupBitwidth keys
    (betaShares groupBitwidth alpha0 alpha1) index payload key0 key1 ![dpfl0, dpfl1] sums copies
    layers

/-! ## The arrays of the level loop -/

/-- An array at its five places. -/
def copiesOf (copies : Copies) (field : WordPointers → Nat) (c : Chunk Cell) : Assertion Cell :=
  own (field (copies.dpfip 0)) c + own (field (copies.dpfip 1)) c + own (field (copies.key 0)) c +
    own (field (copies.key 1)) c + own (field copies.ip2) c

/-- The copies stay equal. -/
theorem recordCopies_spec {α : Type} {wrap : α → Cell} {view : Cell → Option α}
    (kind : ∀ v, view (wrap v) = some v) (copies : Copies) (field : WordPointers → Nat)
    {height i : Nat} (hi : i < height) (f : Fin i → α) (v : α) :
    Triple (copiesOf copies field (begun height wrap f))
      (recordCopies wrap view copies field i v)
      fun _ B => B = copiesOf copies field (begun height wrap (push f v)) := by
  have write : (begun height wrap f).write i (wrap v) = some (begun height wrap (push f v)) :=
    write_snoc hi v
  have read : (begun height wrap (push f v)).read i = some (wrap v) :=
    (read_begun (j := Fin.last i) rfl hi).trans (congrArg (fun w => some (wrap w)) (push_last f v))
  generalize begun height wrap f = old at *
  generalize begun height wrap (push f v) = new at *
  unfold recordCopies copiesOf
  generalize field (copies.dpfip 0) = p0, field (copies.dpfip 1) = p1, field (copies.key 0) = q0,
    field (copies.key 1) = q1, field copies.ip2 = r
  refine Spec.store_bind (A := own p1 old + own q0 old + own q1 old + own r old) (by ac_rfl)
    write ?_
  refine Spec.store_bind (A := own p0 new + own q0 old + own q1 old + own r old) (by ac_rfl)
    write ?_
  refine Spec.loadAs_bind (p := p0) (by simp) read (kind v) ?_
  refine Spec.store_bind (A := own p0 new + own p1 new + own q1 old + own r old) (by ac_rfl)
    write ?_
  refine Spec.loadAs_bind (p := p1) (by simp) read (kind v) ?_
  refine Spec.store_bind (A := own p0 new + own p1 new + own q0 new + own r old) (by ac_rfl)
    write ?_
  refine Spec.loadAs_bind (p := q0) (by simp) read (kind v) ?_
  exact Spec.last (Spec.store_bind (A := own p0 new + own p1 new + own q0 new + own q1 new)
    (by ac_rfl) write (Triple.pure (add_comm _ _)))

/-- The arrays of correction words of one place after `i` levels. -/
def wordArrays (words : WordPointers) (height : Nat) {i : Nat} (sigma : Fin i → Block)
    (tau : Fin 2 → Fin i → Byte) : Assertion Cell :=
  own words.sigma (begun height .block sigma) + own (words.tau 0) (begun height .byte (tau 0)) +
    own (words.tau 1) (begun height .byte (tau 1))

/-- Those of all places. -/
def wordCopies (copies : Copies) (height : Nat) {i : Nat} (sigma : Fin i → Block)
    (tau : Fin 2 → Fin i → Byte) : Assertion Cell :=
  wordArrays (copies.dpfip 0) height sigma tau + wordArrays (copies.dpfip 1) height sigma tau +
    (wordArrays (copies.key 0) height sigma tau + wordArrays (copies.key 1) height sigma tau +
      wordArrays copies.ip2 height sigma tau)

theorem wordCopies_eq (copies : Copies) (height : Nat) {i : Nat} (sigma : Fin i → Block)
    (tau : Fin 2 → Fin i → Byte) :
    wordCopies copies height sigma tau =
      copiesOf copies (fun words => words.sigma) (begun height .block sigma) +
      copiesOf copies (fun words => words.tau 0) (begun height .byte (tau 0)) +
      copiesOf copies (fun words => words.tau 1) (begun height .byte (tau 1)) := by
  unfold wordCopies wordArrays copiesOf
  dsimp only
  ac_rfl

theorem recordWords_spec (copies : Copies) {height i : Nat} (hi : i < height)
    (sigma : Fin i → Block) (tau : Fin 2 → Fin i → Byte) {s : Block} {t : Fin 2 → Byte}
    {sigma' : Fin (i + 1) → Block} {tau' : Fin 2 → Fin (i + 1) → Byte}
    (sigma_eq : sigma' = push sigma s) (tau_eq : ∀ d, tau' d = push (tau d) (t d)) :
    Triple (wordCopies copies height sigma tau) (recordWords copies i s t)
      fun _ B => B = wordCopies copies height sigma' tau' := by
  have block : ∀ v, Cell.block? (.block v) = some v := fun _ => rfl
  have byte : ∀ v, Cell.byte? (.byte v) = some v := fun _ => rfl
  rw [wordCopies_eq, wordCopies_eq, sigma_eq, tau_eq, tau_eq]
  unfold recordWords
  refine Spec.call (recordCopies_spec block copies (fun words => words.sigma) hi sigma s)
    (add_assoc _ _ _) ?_
  rintro _ _ rfl
  refine Spec.call (recordCopies_spec byte copies (fun words => words.tau 0) hi (tau 0) (t 0))
    (add_left_comm _ _ _) ?_
  rintro _ _ rfl
  refine Spec.last (Spec.call (recordCopies_spec byte copies (fun words => words.tau 1) hi (tau 1)
    (t 1)) ((add_assoc _ _ _).symm.trans (add_comm _ _)) ?_)
  rintro _ _ rfl
  refine Triple.pure ?_
  ac_rfl

/-- The arrays of sums after `i` levels. -/
def sumArrays (sums : SumPointers) (height : Nat) {i : Nat} (st : KeygenState i) : Assertion Cell :=
  own (sums.zt1 1) (begun height .byte (st.zt1 1)) +
  own (sums.zt1 0) (begun height .byte (st.zt1 0)) +
  own (sums.zt0 1) (begun height .byte (st.zt0 1)) +
  own (sums.zt0 0) (begun height .byte (st.zt0 0)) +
  own (sums.zs1 1) (begun height .block (st.zs1 1)) +
  own (sums.zs1 0) (begun height .block (st.zs1 0)) +
  own (sums.zs0 1) (begun height .block (st.zs0 1)) +
  own (sums.zs0 0) (begun height .block (st.zs0 0))

theorem recordSums_spec (sums : SumPointers) {height i : Nat} (hi : i < height)
    (st : KeygenState i) (next : KeygenState (i + 1)) (l0 l1 : LayerStruct)
    (zs0 : ∀ d, next.zs0 d = push (st.zs0 d) (l0.zs d))
    (zs1 : ∀ d, next.zs1 d = push (st.zs1 d) (l1.zs d))
    (zt0 : ∀ d, next.zt0 d = push (st.zt0 d) (l0.zt d))
    (zt1 : ∀ d, next.zt1 d = push (st.zt1 d) (l1.zt d)) :
    Triple (sumArrays sums height st) (recordSums sums i l0 l1)
      fun _ B => B = sumArrays sums height next := by
  unfold recordSums sumArrays
  refine record_bind _ hi (add_comm _ _) ?_
  refine record_bind _ hi (by simp only [← add_assoc]; exact add_comm _ _) ?_
  refine record_bind _ hi (by simp only [← add_assoc]; exact add_comm _ _) ?_
  refine record_bind _ hi (by simp only [← add_assoc]; exact add_comm _ _) ?_
  refine record_bind _ hi (by simp only [← add_assoc]; exact add_comm _ _) ?_
  refine record_bind _ hi (by simp only [← add_assoc]; exact add_comm _ _) ?_
  refine record_bind _ hi (by simp only [← add_assoc]; exact add_comm _ _) ?_
  refine Spec.last (record_bind _ hi (by simp only [← add_assoc]; exact add_comm _ _)
    (Triple.pure ?_))
  rw [zs0, zs0, zs1, zs1, zt0, zt0, zt1, zt1]
  ac_rfl

/-! ## The correction -/

theorem readBegun_bind {α γ : Type} {g : α → Cell} {view : Cell → Option α} {h i p k : Nat}
    {f : Fin i → α} {j : Fin i} {A : Assertion Cell} {x : α → HeapM Cell γ}
    {goal : Assertion Cell → Option (γ × Memory Cell) → Prop} (mem : (p, begun h g f) ∈ A)
    (place : k = j.val) (room : j.val < h) (kind : view (g (f j)) = some (f j))
    (next : Spec A (x (f j)) goal) : Spec A (loadAs view p k >>= x) goal :=
  Spec.loadAs_bind mem (read_begun place room) kind next

section Correct

variable {nt : Nat} (copies : Copies) {i : Nat}
  (prevtBytes : Fin 2 → Fin (2 ^ i) → Byte) (new : Fin 2 → DpfLayer (2 ^ i * 2))
  (sigma : Fin (i + 1) → Block) (tau : Fin 2 → Fin (i + 1) → Byte)
  (dpfl prevt nodes currt : Fin 2 → Nat) (layers : Fin 2 → Nat × Nat)

/-- What the correction loop reads for one party. -/
def sideInputs (height : Nat) (b : Fin 2) : Assertion Cell :=
  uncorrected (dpfl b) (prevt b) (nodes b) (currt b) (prevtBytes b) (new b) +
    wordArrays (copies.dpfip b) height sigma tau

/-- One party's memory in the correction loop when the entries in `S` have been corrected. -/
def correctedSide (height : Nat) (b : Fin 2) (S : Finset (Fin (2 ^ i * 2)))
    (layer : (Fin (2 ^ i * 2) → Block) × (Fin (2 ^ i * 2) → Byte)) : Assertion Cell :=
  own (layers b).1 ((Chunk.blank (2 ^ i * 2)).overlay S fun j => .block (layer.1 j)) +
  own (layers b).2 ((Chunk.blank (2 ^ i * 2)).overlay S fun j => .byte (layer.2 j)) +
  sideInputs copies prevtBytes new sigma tau dpfl prevt nodes currt height b

theorem correctSide_spec {height : Nat} (hi : i < height) (b : Fin 2)
    (S : Finset (Fin (2 ^ i * 2))) (j : Fin (2 ^ i * 2))
    (layer : (Fin (2 ^ i * 2) → Block) × (Fin (2 ^ i * 2) → Byte)) :
    let node := correctNode (prevtBytes b j.divNat) ((new b).nodes j) ((new b).currt j)
      (sigma (Fin.last i)) (tau j.modNat (Fin.last i))
    Triple (correctedSide copies prevtBytes new sigma tau dpfl prevt nodes currt layers height b S
        layer)
      (correctSide (dpfl b) (copies.dpfip b) i (layers b) j)
      fun _ B => B = correctedSide copies prevtBytes new sigma tau dpfl prevt nodes currt layers
        height b (insert j S)
        (Function.update layer.1 j node.1, Function.update layer.2 j node.2) := by
  intro node
  have parent : (j : Nat) / 2 = j.divNat.val := rfl
  have tauAt : ((copies.dpfip b).tau j.modNat, begun height Cell.byte (tau j.modNat)) ∈
      sideInputs copies prevtBytes new sigma tau dpfl prevt nodes currt height b := by
    unfold sideInputs wordArrays
    match j.modNat with
    | 0 => simp
    | 1 => simp
  unfold correctSide
  refine readLayer_bind (l := nextLayer (new b) (nodes b) (currt b) (some (prevt b)))
    (by simp [correctedSide, sideInputs, uncorrected]) ?_
  refine Spec.nonnull_bind (Spec.nonnull_bind (Spec.nonnull_bind ?_))
  refine readByte_bind (f := prevtBytes b) (by simp [correctedSide, sideInputs, uncorrected])
    parent ?_
  by_cases one : prevtBytes b j.divNat = 1#8
  · rw [if_pos one]
    refine readBlock_bind (f := (new b).nodes) (by simp [correctedSide, sideInputs, uncorrected])
      rfl ?_
    refine readBegun_bind (g := Cell.block) (h := height) (f := sigma) (j := Fin.last i)
      (by simp [correctedSide, sideInputs, wordArrays]) rfl hi rfl ?_
    refine Spec.store_bind (add_assoc _ _ _)
      (write_overlay (g := Cell.block) (a := layer.1) rfl j.isLt _) ?_
    refine readByte_bind (f := (new b).currt) (i := j) (by simp [sideInputs, uncorrected]) rfl ?_
    refine readBegun_bind (g := Cell.byte) (h := height) (f := tau j.modNat) (j := Fin.last i)
      (Multiset.mem_add.mpr (.inr (Multiset.mem_add.mpr (.inr tauAt)))) rfl hi rfl ?_
    refine Spec.last (Spec.store_bind (add_left_comm _ _ _)
      (write_overlay (g := Cell.byte) (a := layer.2) rfl j.isLt _) (Triple.pure ?_))
    rw [add_left_comm, ← add_assoc]
    unfold correctedSide
    simp only [node, correctNode, if_pos one]
  · rw [if_neg one]
    refine readBlock_bind (f := (new b).nodes) (by simp [correctedSide, sideInputs, uncorrected])
      rfl ?_
    refine Spec.store_bind (add_assoc _ _ _)
      (write_overlay (g := Cell.block) (a := layer.1) rfl j.isLt _) ?_
    refine readByte_bind (f := (new b).currt) (i := j) (by simp [sideInputs, uncorrected]) rfl ?_
    refine Spec.last (Spec.store_bind (add_left_comm _ _ _)
      (write_overlay (g := Cell.byte) (a := layer.2) rfl j.isLt _) (Triple.pure ?_))
    rw [add_left_comm, ← add_assoc]
    unfold correctedSide
    simp only [node, correctNode, if_neg one]

/-- The correction loop. -/
theorem correctBothLoop_spec {height : Nat} (hi : i < height) (s : Schedule nt (2 ^ i * 2)) :
    Triple (own (layers 0).1 (Chunk.blank (2 ^ i * 2)) +
          own (layers 0).2 (Chunk.blank (2 ^ i * 2)) +
          sideInputs copies prevtBytes new sigma tau dpfl prevt nodes currt height 0 +
        (own (layers 1).1 (Chunk.blank (2 ^ i * 2)) +
          own (layers 1).2 (Chunk.blank (2 ^ i * 2)) +
          sideInputs copies prevtBytes new sigma tau dpfl prevt nodes currt height 1))
      (runM s (correctBoth dpfl copies i layers) ())
      fun _ B =>
        let layer := s.run (DpfPir.correctBoth prevtBytes new (sigma (Fin.last i))
          fun d => tau d (Fin.last i)) (fun _ => (fun _ => 0#128, fun _ => 0#8))
        B = own (layers 0).1 (blocks (layer 0).1) + own (layers 0).2 (bytes (layer 0).2) +
            sideInputs copies prevtBytes new sigma tau dpfl prevt nodes currt height 0 +
          (own (layers 1).1 (blocks (layer 1).1) + own (layers 1).2 (bytes (layer 1).2) +
            sideInputs copies prevtBytes new sigma tau dpfl prevt nodes currt height 1) := by
  refine (Triple.simulates s (DpfPir.correctBoth prevtBytes new (sigma (Fin.last i))
      fun d => tau d (Fin.last i))
    (I := fun S layer _ B => B =
      correctedSide copies prevtBytes new sigma tau dpfl prevt nodes currt layers height 0 S
        (layer 0) +
      correctedSide copies prevtBytes new sigma tau dpfl prevt nodes currt layers height 1 S
        (layer 1))
    (fun _ => (fun _ => 0#128, fun _ => 0#8)) ?_ ?_).post ?_
  · simp only [correctedSide, overlay_empty]
  · rintro S j threadId layer _ _ _ rfl
    refine Spec.call (correctSide_spec copies prevtBytes new sigma tau dpfl prevt nodes currt layers
      hi 0 S j (layer 0)) rfl ?_
    rintro _ _ rfl
    refine Spec.last (Spec.call (correctSide_spec copies prevtBytes new sigma tau dpfl prevt nodes
      currt layers hi 1 S j (layer 1)) (add_comm _ _) ?_)
    rintro _ _ rfl
    exact Triple.pure (add_comm _ _)
  · rintro _ B rfl
    simp only [correctedSide, overlay_univ]
    rfl

end Correct

/-! ## The levels -/

/-- The input packs of the dealer. -/
def inputAt (input : DpfInput) (alpha : Fin 2 → Nat) (b : Fin 2) : InputStruct where
  alpha := alpha b
  index := input.index b

section Levels

variable (m : Machine) (aes : Cipher) (height : Nat) (input : DpfInput) (alpha : Fin 2 → Nat)
  (keys : Fin 2 → Block) (dpfl : Fin 2 → Nat) (sums : SumPointers) (copies : Copies)

/-- The control bits that the dealer computes for layer `j` of party `b`. -/
def keygenBits (b : Fin 2) (j : Nat) : Fin (2 ^ j) → Byte :=
  (keygenLevels m aes height input keys j).hatt b

/-- The memory of the level loop after `i` levels. -/
def Planting (i : Nat) (layers : Fin 2 → Nat × Nat) (B : Assertion Cell) : Prop :=
  let st := keygenLevels m aes height input keys i
  ∃ tree0 tree1,
    TreeAt (fun j _ => keygenBits m aes height input keys 0 j) (st.hats 0) (dpfl 0) (layers 0).1
      (layers 0).2 tree0 ∧
    TreeAt (fun j _ => keygenBits m aes height input keys 1 j) (st.hats 1) (dpfl 1) (layers 1).1
      (layers 1).2 tree1 ∧
    B = tree0 + tree1 + sumArrays sums height st + wordCopies copies height st.sigma st.tau

/-- The layers of depth `i + 1` before they are corrected. -/
def keygenNodes (i : Nat) (b : Fin 2) : DpfLayer (2 ^ i * 2) :=
  DpfPir.prgEvalAllAndXor m (.expand b i) aes ((keygenLevels m aes height input keys i).hats b)

/-- One party's memory between the expansion and the correction. -/
def expandedSide {i : Nat} (layers : Fin 2 → Nat × Nat) (nodes currt : Fin 2 → Nat)
    (old : Fin 2 → Fin i → Nat) (b : Fin 2) : Assertion Cell :=
  let new := keygenNodes m aes height input keys i b
  own (dpfl b) (layerOf (nextLayer new (nodes b) (currt b) (prevtOf (old b)))) +
  own (layers b).1 (blocks ((keygenLevels m aes height input keys i).hats b)) +
  own (nodes b) (blocks new.nodes) + own (currt b) (bytes new.currt) +
  (own (layers b).2 (bytes (keygenBits m aes height input keys b i)) +
    earlierBits (fun j _ => keygenBits m aes height input keys b j) (old b) le_rfl)

theorem keygenExpand_spec {i : Nat} (hi : i < height) {layers : Fin 2 → Nat × Nat}
    {A : Assertion Cell} (start : Planting m aes height input keys dpfl sums copies i layers A) :
    Triple A (keygenExpand m aes height (inputAt input alpha) dpfl sums copies i layers)
      fun _ B => ∃ (nodes currt : Fin 2 → Nat) (old : Fin 2 → Fin i → Nat),
        let next := keygenLevels m aes height input keys (i + 1)
        B = expandedSide m aes height input keys dpfl layers nodes currt old 0 +
          expandedSide m aes height input keys dpfl layers nodes currt old 1 +
          sumArrays sums height next + wordCopies copies height next.sigma next.tau := by
  obtain ⟨_, _, tree0, tree1, rfl⟩ := start
  unfold keygenExpand
  refine Spec.call (expandTree_spec m (.expand 0 i) aes tree0)
    ((add_assoc _ _ _).trans (add_assoc _ _ _)) ?_
  rintro _ _ ⟨nodes0, currt0, old0, rfl⟩
  refine Spec.call (expandTree_spec m (.expand 1 i) aes tree1) (add_left_comm _ _ _) ?_
  rintro _ _ ⟨nodes1, currt1, old1, rfl⟩
  refine readLayer_bind (l := nextLayer (keygenNodes m aes height input keys i 0) nodes0 currt0
    (prevtOf old0)) (by simp [keygenNodes]) ?_
  refine readLayer_bind (l := nextLayer (keygenNodes m aes height input keys i 1) nodes1 currt1
    (prevtOf old1)) (by simp [keygenNodes]) ?_
  show Spec (expandedSide m aes height input keys dpfl layers ![nodes0, nodes1] ![currt0, currt1]
      ![old0, old1] 1 +
    (expandedSide m aes height input keys dpfl layers ![nodes0, nodes1] ![currt0, currt1]
      ![old0, old1] 0 + _)) _ _
  generalize side0_eq : expandedSide _ _ _ _ _ _ _ _ _ _ 0 = side0
  generalize side1_eq : expandedSide _ _ _ _ _ _ _ _ _ _ 1 = side1
  refine Spec.call (recordSums_spec sums hi _ (keygenLevels m aes height input keys (i + 1))
    (nextLayer (keygenNodes m aes height input keys i 0) nodes0 currt0 (prevtOf old0))
    (nextLayer (keygenNodes m aes height input keys i 1) nodes1 currt1 (prevtOf old1))
    (fun _ => rfl) (fun _ => rfl) (fun _ => rfl) (fun _ => rfl))
    (C := side0 + side1 + wordCopies copies height _ _) (by ac_rfl) ?_
  rintro _ _ rfl
  refine Spec.last (Spec.call (recordWords_spec copies hi
      (keygenLevels m aes height input keys i).sigma (keygenLevels m aes height input keys i).tau
      rfl (fun _ => rfl))
    (C := side0 + side1 + sumArrays sums height (keygenLevels m aes height input keys (i + 1)))
    (by ac_rfl) ?_)
  rintro _ _ rfl
  refine Triple.pure ⟨![nodes0, nodes1], ![currt0, currt1], ![old0, old1], ?_⟩
  dsimp only
  rw [side0_eq, side1_eq, add_comm]
  rfl

/-- The corrected layers are those of depth `i + 1`. -/
theorem planting_succ {i : Nat} (layers : Fin 2 → Nat × Nat) (prevt nodes currt : Fin 2 → Nat)
    (old : Fin 2 → Fin i → Nat) :
    let next := keygenLevels m aes height input keys (i + 1)
    let side := sideInputs copies (fun b => keygenBits m aes height input keys b i)
      (keygenNodes m aes height input keys i) next.sigma next.tau dpfl prevt nodes currt height
    Planting m aes height input keys dpfl sums copies (i + 1) layers
      (own (layers 0).1 (blocks (next.hats 0)) + own (layers 0).2 (bytes (next.hatt 0)) + side 0 +
        (own (layers 1).1 (blocks (next.hats 1)) + own (layers 1).2 (bytes (next.hatt 1)) +
          side 1) +
        (earlierBits (fun j _ => keygenBits m aes height input keys 0 j) (old 0) le_rfl +
          earlierBits (fun j _ => keygenBits m aes height input keys 1 j) (old 1) le_rfl +
          sumArrays sums height next +
          (wordArrays (copies.key 0) height next.sigma next.tau +
            wordArrays (copies.key 1) height next.sigma next.tau +
            wordArrays copies.ip2 height next.sigma next.tau))) := by
  intro next side
  refine ⟨_, _,
    treeAt_succ (fun j _ => keygenBits m aes height input keys 0 j) (next.hats 0)
      (keygenNodes m aes height input keys i 0) (prevt 0) (nodes 0) (currt 0) (old 0),
    treeAt_succ (fun j _ => keygenBits m aes height input keys 1 j) (next.hats 1)
      (keygenNodes m aes height input keys i 1) (prevt 1) (nodes 1) (currt 1) (old 1), ?_⟩
  show own (layers 0).1 _ + own (layers 0).2 _ +
      (uncorrected (dpfl 0) (prevt 0) (nodes 0) (currt 0) _ _ +
        wordArrays (copies.dpfip 0) height next.sigma next.tau) +
      (own (layers 1).1 _ + own (layers 1).2 _ +
        (uncorrected (dpfl 1) (prevt 1) (nodes 1) (currt 1) _ _ +
          wordArrays (copies.dpfip 1) height next.sigma next.tau)) +
      (earlierBits _ (old 0) _ + earlierBits _ (old 1) _ + _ + _) =
    own (layers 0).1 _ + own (layers 0).2 _ + _ + earlierBits _ (old 0) _ +
      (own (layers 1).1 _ + own (layers 1).2 _ + _ + earlierBits _ (old 1) _) + _ + _
  unfold wordCopies
  ac_rfl

theorem keygenCorrect_spec {i : Nat} (hi : i < height) {layers : Fin 2 → Nat × Nat}
    (nodes currt : Fin 2 → Nat) (old : Fin 2 → Fin i → Nat) {recorded : Assertion Cell}
    (record : recorded = sumArrays sums height (keygenLevels m aes height input keys (i + 1))) :
    Triple (expandedSide m aes height input keys dpfl layers nodes currt old 0 +
        expandedSide m aes height input keys dpfl layers nodes currt old 1 + recorded +
        wordCopies copies height (keygenLevels m aes height input keys (i + 1)).sigma
          (keygenLevels m aes height input keys (i + 1)).tau)
      (keygenCorrect m dpfl copies i layers)
      fun layers B => Planting m aes height input keys dpfl sums copies (i + 1) layers B := by
  unfold keygenCorrect expandedSide
  dsimp only
  generalize earlier0_eq :
    earlierBits (fun j _ => keygenBits m aes height input keys 0 j) (old 0) le_rfl = earlier0
  generalize earlier1_eq :
    earlierBits (fun j _ => keygenBits m aes height input keys 1 j) (old 1) le_rfl = earlier1
  generalize sigma_eq : (keygenLevels m aes height input keys (i + 1)).sigma = sigma
  generalize tau_eq : (keygenLevels m aes height input keys (i + 1)).tau = tau
  generalize words_eq : wordCopies copies height sigma tau = words
  refine setPrevt_bind (layers 0).2 (A := own (layers 0).1 _ + (own (nodes 0) _ + own (currt 0) _ +
    own (layers 0).2 _ + earlier0) + (own (dpfl 1) _ + own (layers 1).1 _ + (own (nodes 1) _ +
    own (currt 1) _ + own (layers 1).2 _ + earlier1)) + (recorded + words)) (by ac_rfl) ?_
  refine setPrevt_bind (layers 1).2 (A := own (dpfl 0) _ + own (layers 0).1 _ + (own (nodes 0) _ +
    own (currt 0) _ + own (layers 0).2 _ + earlier0) + (own (layers 1).1 _ + (own (nodes 1) _ +
    own (currt 1) _ + own (layers 1).2 _ + earlier1)) + (recorded + words)) (by ac_rfl) ?_
  refine Spec.free_bind (c := blocks ((keygenLevels m aes height input keys i).hats 0))
    (A := own (dpfl 0) _ + own (nodes 0) _ + own (currt 0) _ + own (layers 0).2 _ + earlier0 +
    (own (dpfl 1) _ + own (layers 1).1 _ + (own (nodes 1) _ + own (currt 1) _ +
    own (layers 1).2 _ + earlier1)) + (recorded + words)) (by ac_rfl) ?_
  refine Spec.free_bind (c := blocks ((keygenLevels m aes height input keys i).hats 1))
    (A := uncorrected (dpfl 0) (layers 0).2 (nodes 0) (currt 0)
        (keygenBits m aes height input keys 0 i) (keygenNodes m aes height input keys i 0) +
      earlier0 + (uncorrected (dpfl 1) (layers 1).2 (nodes 1) (currt 1)
        (keygenBits m aes height input keys 1 i) (keygenNodes m aes height input keys i 1) +
      earlier1) + (recorded + words)) ?_ ?_
  · unfold uncorrected
    ac_rfl
  refine readLayer_bind (l := nextLayer (keygenNodes m aes height input keys i 0) (nodes 0)
    (currt 0) (some (layers 0).2)) (by simp [uncorrected]) ?_
  refine readLayer_bind (l := nextLayer (keygenNodes m aes height input keys i 1) (nodes 1)
    (currt 1) (some (layers 1).2)) (by simp [uncorrected]) ?_
  refine Spec.malloc_bind fun hats0 => Spec.malloc_bind fun hats1 => Spec.malloc_bind fun hatt0 =>
    Spec.malloc_bind fun hatt1 => ?_
  refine Spec.call (correctBothLoop_spec copies
    (fun b => keygenBits m aes height input keys b i) (keygenNodes m aes height input keys i)
    sigma tau dpfl ![(layers 0).2, (layers 1).2] nodes currt ![(hats0, hatt0), (hats1, hatt1)] hi
    (m.schedule (.correct 0 i) (2 ^ i * 2)))
    (C := earlier0 + earlier1 + recorded + (wordArrays (copies.key 0) height sigma tau +
      wordArrays (copies.key 1) height sigma tau + wordArrays copies.ip2 height sigma tau)) ?_ ?_
  · show own hatt1 (Chunk.blank (2 ^ i * 2)) + (own hatt0 (Chunk.blank (2 ^ i * 2)) +
      (own hats1 (Chunk.blank (2 ^ i * 2)) + (own hats0 (Chunk.blank (2 ^ i * 2)) + _))) =
      own hats0 _ + own hatt0 _ + (uncorrected _ (layers 0).2 _ _ _ _ + _) +
      (own hats1 _ + own hatt1 _ + (uncorrected _ (layers 1).2 _ _ _ _ + _)) + _
    rw [← words_eq]
    unfold wordCopies
    ac_rfl
  rintro _ _ rfl
  have sigma_last : sigma (Fin.last i) = levelSigma (keygenNodes m aes height input keys i)
      (pathBit (input.index 0 + input.index 1).value (height - 1 - i)) := by
    rw [← sigma_eq]
    exact push_last _ _
  have tau_last : (fun d => tau d (Fin.last i)) = levelTau (keygenNodes m aes height input keys i)
      (pathBit (input.index 0 + input.index 1).value (height - 1 - i)) := by
    rw [← tau_eq]
    exact funext fun d => push_last _ _
  rw [sigma_last, tau_last, record, ← earlier0_eq, ← earlier1_eq, ← sigma_eq, ← tau_eq]
  exact Triple.pure (planting_succ m aes height input keys dpfl sums copies
    ![(hats0, hatt0), (hats1, hatt1)] ![(layers 0).2, (layers 1).2] nodes currt old)

theorem keygenLevel_spec {i : Nat} (hi : i < height) {layers : Fin 2 → Nat × Nat}
    {A : Assertion Cell} (start : Planting m aes height input keys dpfl sums copies i layers A) :
    Triple A (keygenLevel m aes height (inputAt input alpha) dpfl sums copies i layers)
      fun layers B => Planting m aes height input keys dpfl sums copies (i + 1) layers B := by
  refine Spec.bind (keygenExpand_spec m aes height input alpha keys dpfl sums copies hi start) ?_
  rintro _ _ ⟨nodes, currt, old, rfl⟩
  exact keygenCorrect_spec m aes height input keys dpfl sums copies hi nodes currt old rfl

theorem keygenLoop_spec (layers : Fin 2 → Nat × Nat) {A : Assertion Cell}
    (start : Planting m aes height input keys dpfl sums copies 0 layers A) :
    ∀ i, i ≤ height →
      Triple A (keygenLoop m aes height (inputAt input alpha) dpfl sums copies layers i)
        fun layers B => Planting m aes height input keys dpfl sums copies i layers B
  | 0, _ => Triple.pure start
  | i + 1, hi =>
    Spec.bind (keygenLoop_spec layers start i (Nat.le_of_succ_le hi)) fun _ _ planting =>
      keygenLevel_spec m aes height input alpha keys dpfl sums copies hi planting

end Levels

/-! ## The leaves -/

/-- The last layers of both trees. -/
def layerPair {size : Nat} (layers : Fin 2 → Nat × Nat) (hats : Fin 2 → Fin size → Block)
    (hatt : Fin 2 → Fin size → Byte) : Assertion Cell :=
  own (layers 0).1 (blocks (hats 0)) + (own (layers 1).1 (blocks (hats 1)) +
    (own (layers 0).2 (bytes (hatt 0)) + own (layers 1).2 (bytes (hatt 1))))

theorem keygenLeaf_spec {size : Nat} (m : Machine) (aes : Cipher) (bout : Nat)
    (layers : Fin 2 → Nat × Nat) (hats : Fin 2 → Fin size → Block)
    (hatt : Fin 2 → Fin size → Byte) (j : Fin size) (threadId : Fin m.nt)
    (acc : KeygenLeafState m.nt) :
    Triple (layerPair layers hats hatt) (keygenLeaf m aes bout layers j threadId acc)
      fun acc' B => acc' = DpfPir.keygenLeaf m aes bout hats hatt j threadId acc ∧
        B = layerPair layers hats hatt := by
  unfold keygenLeaf
  refine readBlock_bind (f := hats 0) (i := j) (by simp [layerPair]) rfl ?_
  refine Spec.call (convert_spec aes m.beyond bout 2 (hats 0 j)) (zero_add _).symm ?_
  rintro gammaInd0 _ rfl
  refine readGe_bind mem_own_add (i := 0) rfl (readGe_bind mem_own_add (i := 1) rfl ?_)
  refine readBlock_bind (f := hats 1) (i := j) (by simp [layerPair]) rfl ?_
  refine Spec.call (convert_spec aes m.beyond bout 2 (hats 1 j)) (zero_add _).symm ?_
  rintro gammaInd1 _ rfl
  refine readGe_bind mem_own_add (i := 0) rfl (readGe_bind mem_own_add (i := 1) rfl ?_)
  refine readByte_bind (f := hatt 0) (i := j) (by simp [layerPair]) rfl ?_
  refine readByte_bind (f := hatt 1) (i := j) (by simp [layerPair]) rfl ?_
  refine Spec.free_bind (add_left_comm _ _ _) (Spec.free_bind rfl ?_)
  exact Triple.pure ⟨rfl, rfl⟩

/-- The dealer's leaf loop. -/
theorem keygenLeafLoop_spec (m : Machine) (bitlength : Nat) (aes : Cipher) (bout : Nat)
    {height : Nat} (layers : Fin 2 → Nat × Nat) (st : KeygenState height) :
    Triple (layerPair layers st.hats st.hatt)
      (runM (m.schedule (.leaves 0) (2 ^ height)) (keygenLeaf m aes bout layers)
        { threadW0 := threadWInit bitlength bout
          threadW1 := threadWInit bitlength bout
          threadT0 := fun _ => 0#32
          threadT1 := fun _ => 0#32 })
      fun acc B => acc = keygenLeaves m bitlength aes bout st ∧
        B = layerPair layers st.hats st.hatt := by
  refine Triple.simulates _ (DpfPir.keygenLeaf m aes bout st.hats st.hatt)
    (I := fun _ acc' acc B => acc = acc' ∧ B = layerPair layers st.hats st.hatt) _ ⟨rfl, rfl⟩ ?_
  rintro _ j threadId _ acc _ _ ⟨rfl, rfl⟩
  exact keygenLeaf_spec m aes bout layers st.hats st.hatt j threadId acc

theorem storeGamma_spec (gamma : Fin 2 → GroupElement) :
    Triple 0 (storeGamma gamma)
      fun p B => B = own p.1 (ges gamma) + own p.2 (ges gamma) := by
  unfold storeGamma
  refine Spec.malloc_bind fun gamma0 => Spec.malloc_bind fun gamma1 => ?_
  refine Spec.store_bind (A := own gamma1 (Chunk.blank 2)) (by rw [add_zero]; exact add_comm _ _)
    (write_halfRow gamma) ?_
  refine Spec.store_bind (add_comm _ _) (write_halfRow gamma) ?_
  refine Spec.store_bind (add_comm _ _) (write_row gamma) ?_
  refine Spec.store_bind (add_comm _ _) (write_row gamma) ?_
  exact Triple.pure (add_comm _ _)

theorem newPair_spec {A : Assertion Cell} {first second : HeapM Cell GroupElement}
    (o : Fin 2 → GroupElement) (reads0 : Triple A first fun v B => v = o 0 ∧ B = A)
    (reads1 : Triple A second fun v B => v = o 1 ∧ B = A) :
    Triple A (newPair first second) fun p B => B = own p (ges o) + A := by
  unfold newPair
  refine Spec.malloc_bind fun p => ?_
  refine Spec.call reads0 (add_comm _ _) ?_
  rintro _ _ ⟨rfl, rfl⟩
  refine Spec.store_bind (add_comm _ _) (write_halfRow o) ?_
  refine Spec.call reads1 (add_comm _ _) ?_
  rintro _ _ ⟨rfl, rfl⟩
  refine Spec.store_bind (add_comm _ _) (write_row o) ?_
  exact Triple.pure rfl

/-! ## The whole function -/

theorem begun_full {α : Type} {n : Nat} (g : α → Cell) (f : Fin n → α) :
    begun n g f = Chunk.full fun j => g (f j) :=
  overlay_univ _

theorem mallocWords_spec (height : Nat) (sigma : Fin 0 → Block) (tau : Fin 2 → Fin 0 → Byte) :
    Triple 0 (mallocWords height) fun p B => B = wordArrays p height sigma tau := by
  unfold mallocWords
  refine Spec.malloc_bind fun p => Spec.malloc_bind fun q => Spec.malloc_bind fun r => ?_
  refine Triple.pure ?_
  unfold wordArrays
  rw [begun_zero, begun_zero, begun_zero, add_zero]
  show own r _ + (own q _ + own p _) = own p _ + own q _ + own r _
  ac_rfl

theorem mallocSums_spec (height : Nat) (st : KeygenState 0) :
    Triple 0 (mallocSums height) fun p B => B = sumArrays p height st := by
  unfold mallocSums
  refine Spec.malloc_bind fun zs00 => Spec.malloc_bind fun zs01 => Spec.malloc_bind fun zs10 =>
    Spec.malloc_bind fun zs11 => Spec.malloc_bind fun zt00 => Spec.malloc_bind fun zt01 =>
    Spec.malloc_bind fun zt10 => Spec.malloc_bind fun zt11 => ?_
  refine Triple.pure ?_
  unfold sumArrays
  simp only [begun_zero, add_zero]
  show own zt11 _ + (own zt10 _ + (own zt01 _ + (own zt00 _ + (own zs11 _ + (own zs10 _ +
    (own zs01 _ + own zs00 _)))))) = own zt11 _ + own zt10 _ + own zt01 _ + own zt00 _ +
    own zs11 _ + own zs10 _ + own zs01 _ + own zs00 _
  ac_rfl

/-- A copy of the correction words of `ip2`. -/
def wordsOf (ip2 : InputCheckPack2) (p : WordPointers) : Assertion Cell :=
  own p.sigma (blocks ip2.sigma) + own (p.tau 0) (bytes (ip2.tau 0)) +
    own (p.tau 1) (bytes (ip2.tau 1))

/-- The arrays of `ip2`. -/
def pack2Arrays (ip2 : InputCheckPack2) (p : Pack2Struct) : Assertion Cell :=
  own p.index (ges ip2.index) + own p.payload (ges ip2.payload) +
  (own (p.sums.zs0 0) (blocks (ip2.zs0 0)) + own (p.sums.zs0 1) (blocks (ip2.zs0 1)) +
    own (p.sums.zs1 0) (blocks (ip2.zs1 0)) + own (p.sums.zs1 1) (blocks (ip2.zs1 1)) +
    own (p.sums.zt0 0) (bytes (ip2.zt0 0)) + own (p.sums.zt0 1) (bytes (ip2.zt0 1)) +
    own (p.sums.zt1 0) (bytes (ip2.zt1 0)) + own (p.sums.zt1 1) (bytes (ip2.zt1 1))) +
  wordsOf ip2 p.words

theorem wordArrays_full {height : Nat} (words : WordPointers) (sigma : Fin height → Block)
    (tau : Fin 2 → Fin height → Byte) :
    wordArrays words height sigma tau = own words.sigma (blocks sigma) +
      own (words.tau 0) (bytes (tau 0)) + own (words.tau 1) (bytes (tau 1)) := by
  unfold wordArrays
  rw [begun_full, begun_full, begun_full]
  rfl

theorem sumArrays_full {height : Nat} (sums : SumPointers) (st : KeygenState height) :
    sumArrays sums height st =
      own (sums.zs0 0) (blocks (st.zs0 0)) + own (sums.zs0 1) (blocks (st.zs0 1)) +
      own (sums.zs1 0) (blocks (st.zs1 0)) + own (sums.zs1 1) (blocks (st.zs1 1)) +
      own (sums.zt0 0) (bytes (st.zt0 0)) + own (sums.zt0 1) (bytes (st.zt0 1)) +
      own (sums.zt1 0) (bytes (st.zt1 0)) + own (sums.zt1 1) (bytes (st.zt1 1)) := by
  unfold sumArrays blocks bytes
  simp only [begun_full]
  ac_rfl

/-- The chunk of a key. -/
def keyOf (k : KeyStruct) : Chunk Cell := @Chunk.full Cell 1 fun _ => .key k

section Whole

variable (m : Machine) (bitlength : Nat) (aes : Cipher) (height groupBitwidth : Nat)
  (input : DpfInput) (keys : Fin 2 → Block)

/-- What `dpf_keygen` leaves allocated of its own: the arrays of both keys and of `ip2`, the
copies of the correction words in the input packs, the structures `*key0` and `*key1`, and the
control bits of all layers but the last two of both trees. -/
def KeygenResult (r : KeygenStructs) (B : Assertion Cell) : Prop :=
  let dealt := DpfPir.dpfKeygen m bitlength aes height groupBitwidth input keys
  (∀ b, r.key b = keyAt (dealt.key b) (r.key b).sigma (r.key b).tau0 (r.key b).tau1
    (r.key b).gamma) ∧
  r.ip2.size = dealt.ip2.size ∧ r.ip2.T = dealt.ip2.T ∧ r.ip2.W = dealt.ip2.W ∧
  r.ip2.gamma = dealt.ip2.gamma ∧
  ∃ (key0 key1 : Nat) (lost : Fin 2 → Fin (height - 1) → Nat),
    B = keyArrays (dealt.key 0) (r.key 0) + keyArrays (dealt.key 1) (r.key 1) +
      pack2Arrays dealt.ip2 r.ip2 +
      (wordsOf dealt.ip2 (r.dpfip 0) + wordsOf dealt.ip2 (r.dpfip 1)) +
      (own key0 (keyOf (r.key 0)) + own key1 (keyOf (r.key 1))) +
      (lostBits (fun j _ => keygenBits m aes height input keys 0 j) (lost 0) +
        lostBits (fun j _ => keygenBits m aes height input keys 1 j) (lost 1))

theorem keyArrays_dealt (b : Fin 2) (words : WordPointers) (gamma : Nat) :
    let dealt := DpfPir.dpfKeygen m bitlength aes height groupBitwidth input keys
    let st := keygenLevels m aes height input keys height
    keyArrays (dealt.key b) (keyAt (dealt.key b) words.sigma (words.tau 0) (words.tau 1) gamma) =
      wordArrays words height st.sigma st.tau + own gamma (ges dealt.ip2.gamma) := by
  intro dealt st
  rw [wordArrays_full]
  rfl

theorem wordsOf_dealt (p : WordPointers) :
    let dealt := DpfPir.dpfKeygen m bitlength aes height groupBitwidth input keys
    let st := keygenLevels m aes height input keys height
    wordsOf dealt.ip2 p = wordArrays p height st.sigma st.tau := by
  intro dealt st
  rw [wordArrays_full]
  rfl

theorem pack2Arrays_dealt (p : Pack2Struct) :
    let dealt := DpfPir.dpfKeygen m bitlength aes height groupBitwidth input keys
    let st := keygenLevels m aes height input keys height
    pack2Arrays dealt.ip2 p = own p.index (ges ![input.index 0, input.index 1]) +
      own p.payload (ges ![input.alpha 0, input.alpha 1]) + sumArrays p.sums height st +
      wordArrays p.words height st.sigma st.tau := by
  intro dealt st
  rw [sumArrays_full, wordArrays_full]
  rfl

/-- The arrays of the results are those that the level loop has filled, and `gamma` twice. -/
theorem results_arrays (copies : Copies) (p : Pack2Struct) (gamma0 gamma1 : Nat)
    (same : p.words = copies.ip2) :
    let dealt := DpfPir.dpfKeygen m bitlength aes height groupBitwidth input keys
    let st := keygenLevels m aes height input keys height
    let key := fun (b : Fin 2) (gamma : Nat) => keyAt (dealt.key b) (copies.key b).sigma
      ((copies.key b).tau 0) ((copies.key b).tau 1) gamma
    keyArrays (dealt.key 0) (key 0 gamma0) + keyArrays (dealt.key 1) (key 1 gamma1) +
        pack2Arrays dealt.ip2 p +
        (wordsOf dealt.ip2 (copies.dpfip 0) + wordsOf dealt.ip2 (copies.dpfip 1)) =
      own p.index (ges ![input.index 0, input.index 1]) +
        own p.payload (ges ![input.alpha 0, input.alpha 1]) + sumArrays p.sums height st +
        wordCopies copies height st.sigma st.tau +
        (own gamma0 (ges dealt.ip2.gamma) + own gamma1 (ges dealt.ip2.gamma)) := by
  intro dealt st key
  rw [keyArrays_dealt, keyArrays_dealt, pack2Arrays_dealt, wordsOf_dealt, wordsOf_dealt, same]
  unfold wordCopies
  ac_rfl

theorem keygenFinish_spec (index payload key0 key1 : Nat) (dpfl : Fin 2 → Nat)
    (sums : SumPointers) (copies : Copies) {layers : Fin 2 → Nat × Nat} {A : Assertion Cell}
    (planting : Planting m aes height input keys dpfl sums copies height layers A) :
    Triple (own index (ges ![input.index 0, input.index 1]) +
        own payload (ges ![input.alpha 0, input.alpha 1]) + own key0 (Chunk.blank 1) +
        own key1 (Chunk.blank 1) + A)
      (keygenFinish m bitlength aes height groupBitwidth keys
        (betaShares groupBitwidth (input.alpha 0) (input.alpha 1)) index payload key0 key1 dpfl
        sums copies layers)
      fun r B => KeygenResult m bitlength aes height groupBitwidth input keys r B := by
  obtain ⟨_, _, tree0, tree1, rfl⟩ := planting
  obtain ⟨nodes0, prevt0, currt0, nodesChunk0, prevtChunk0, currtChunk0, zs0, zt0, lost0, rfl⟩ :=
    tree0.parts
  obtain ⟨nodes1, prevt1, currt1, nodesChunk1, prevtChunk1, currtChunk1, zs1, zt1, lost1, rfl⟩ :=
    tree1.parts
  unfold keygenFinish
  refine readLayer_bind (l := {
    size := 2 ^ height, level := height, nodes := nodes0, prevt := prevt0, currt := currt0
    zs := zs0, zt := zt0 }) (by simp [layerArrays]) ?_
  have free0 : Triple (layerArrays (dpfl 0) _ nodesChunk0 prevtChunk0 currtChunk0)
    (freeDpfLayer (dpfl 0)) _ := freeDpfLayer_spec {
    size := 2 ^ height, level := height, nodes := nodes0, prevt := prevt0, currt := currt0
    zs := zs0, zt := zt0 } nodesChunk0 prevtChunk0 currtChunk0
  have free1 : Triple (layerArrays (dpfl 1) _ nodesChunk1 prevtChunk1 currtChunk1)
    (freeDpfLayer (dpfl 1)) _ := freeDpfLayer_spec {
    size := 2 ^ height, level := height, nodes := nodes1, prevt := prevt1, currt := currt1
    zs := zs1, zt := zt1 } nodesChunk1 prevtChunk1 currtChunk1
  generalize layerArrays (dpfl 0) _ nodesChunk0 prevtChunk0 currtChunk0 = arrays0 at *
  generalize layerArrays (dpfl 1) _ nodesChunk1 prevtChunk1 currtChunk1 = arrays1 at *
  generalize kept0_eq : lostBits (fun j _ => keygenBits m aes height input keys 0 j) lost0 = kept0
  generalize kept1_eq : lostBits (fun j _ => keygenBits m aes height input keys 1 j) lost1 = kept1
  generalize pairs_eq : own index _ + own payload _ = pairs
  generalize summed_eq : sumArrays sums height _ = summed
  generalize words_eq : wordCopies copies height _ _ = words
  refine Spec.call (keygenLeafLoop_spec m bitlength aes groupBitwidth layers
    (keygenLevels m aes height input keys height))
    (C := pairs + (own key0 (Chunk.blank 1) + own key1 (Chunk.blank 1)) +
      (summed + words + (kept0 + kept1)) + (arrays0 + arrays1)) ?_ ?_
  · show _ + (own (layers 0).1 _ +
      own (layers 0).2 (bytes ((keygenLevels m aes height input keys height).hatt 0)) + _ + _ +
      (own (layers 1).1 _ +
      own (layers 1).2 (bytes ((keygenLevels m aes height input keys height).hatt 1)) + _ + _) +
      _ + _) = _
    unfold layerPair
    ac_rfl
  rintro _ _ ⟨rfl, rfl⟩
  unfold layerPair
  refine Spec.free_bind (add_assoc _ _ _) (Spec.free_bind (add_assoc _ _ _)
    (Spec.free_bind (add_assoc _ _ _) (Spec.free_bind rfl ?_)))
  refine Spec.call (storeGamma_spec _) (zero_add _).symm ?_
  rintro ⟨gamma0, gamma1⟩ _ rfl
  dsimp only
  -- Both keys and `ip2` get the same final words.
  obtain ⟨gamma, gamma_eq⟩ : ∃ gamma, gamma =
    (DpfPir.dpfKeygen m bitlength aes height groupBitwidth input keys).ip2.gamma := ⟨_, rfl⟩
  have gamma_same : ![keygenGamma _ _ _ _ 0, keygenGamma _ _ _ _ 1] = gamma := gamma_eq.symm
  rw [gamma_same]
  refine readGe_bind (f := gamma) (i := 0) (by simp) rfl ?_
  refine readGe_bind (f := gamma) (i := 1) (by simp) rfl ?_
  refine Spec.call free0 (C := own gamma0 (ges gamma) + own gamma1 (ges gamma) + pairs +
    (summed + words + (kept0 + kept1)) + (own key0 (Chunk.blank 1) + own key1 (Chunk.blank 1)) +
    arrays1) (by ac_rfl) ?_
  rintro _ _ rfl
  refine Spec.call free1 (C := own gamma0 (ges gamma) + own gamma1 (ges gamma) + pairs +
    (summed + words + (kept0 + kept1)) + own key1 (Chunk.blank 1) + own key0 (Chunk.blank 1))
    (by rw [zero_add]; ac_rfl) ?_
  rintro _ _ rfl
  rw [zero_add]
  refine Spec.store_bind (add_comm _ _) (write_single _) ?_
  refine Spec.store_bind (A := own key0 _ + (own gamma0 (ges gamma) + own gamma1 (ges gamma) +
    pairs + (summed + words + (kept0 + kept1)))) (by ac_rfl) (write_single _) ?_
  refine Triple.pure ⟨Fin.forall_fin_two.mpr ⟨rfl, rfl⟩, rfl, rfl, rfl, ?_, key0, key1,
    ![lost0, lost1], ?_⟩
  · rw [gamma_eq]
    rfl
  · subst pairs_eq summed_eq words_eq kept0_eq kept1_eq
    refine Eq.trans ?_ (congrArg (fun B => B + _ + _) (results_arrays m bitlength aes height
      groupBitwidth input keys copies _ gamma0 gamma1 rfl)).symm
    rw [← gamma_eq]
    unfold keyOf
    simp only [Matrix.cons_val_zero, Matrix.cons_val_one]
    ac_rfl

/-- The payload shares of the input packs. -/
def alphas (alpha : Fin 2 → Nat) : Assertion Cell :=
  own (alpha 0) (ges fun _ : Fin 1 => input.alpha 0) +
    own (alpha 1) (ges fun _ : Fin 1 => input.alpha 1)

theorem dpfKeygen_spec (alpha : Fin 2 → Nat) :
    Triple (alphas input alpha)
      (dpfKeygen m bitlength aes height groupBitwidth (inputAt input alpha) keys)
      fun r B => ∃ C, KeygenResult m bitlength aes height groupBitwidth input keys r C ∧
        B = C + alphas input alpha := by
  unfold dpfKeygen
  refine Spec.bind (newPair_spec ![input.index 0, input.index 1] (Triple.pure ⟨rfl, rfl⟩)
    (Triple.pure ⟨rfl, rfl⟩)) ?_
  rintro index _ rfl
  refine Spec.bind (newPair_spec ![input.alpha 0, input.alpha 1]
    (Spec.last (readGe_bind (f := fun _ : Fin 1 => input.alpha 0) (i := 0)
      (by simp [alphas, inputAt]) rfl (Triple.pure ⟨rfl, rfl⟩)))
    (Spec.last (readGe_bind (f := fun _ : Fin 1 => input.alpha 1) (i := 0)
      (by simp [alphas, inputAt]) rfl (Triple.pure ⟨rfl, rfl⟩)))) ?_
  rintro payload _ rfl
  refine readGe_bind (f := fun _ : Fin 1 => input.alpha 0) (i := 0)
    (by simp [alphas, inputAt]) rfl ?_
  refine readGe_bind (f := fun _ : Fin 1 => input.alpha 1) (i := 0)
    (by simp [alphas, inputAt]) rfl ?_
  refine Spec.malloc_bind fun key0 => Spec.malloc_bind fun key1 => Spec.malloc_bind fun dpfl0 =>
    Spec.malloc_bind fun dpfl1 => ?_
  generalize given_eq : own key1 (Chunk.blank 1) + _ = given
  refine Spec.call (plantRoot_spec (fun j _ => keygenBits m aes height input keys 0 j) dpfl0
    (keys 0) rfl) (add_left_comm _ _ _) ?_
  intro root0 tree0 planted0
  refine Spec.call (mallocWords_spec height Fin.elim0 fun _ => Fin.elim0) (zero_add _).symm ?_
  rintro dpfip0 _ rfl
  refine Spec.call (mallocWords_spec height Fin.elim0 fun _ => Fin.elim0) (zero_add _).symm ?_
  rintro words0 _ rfl
  refine Spec.call (plantRoot_spec (fun j _ => keygenBits m aes height input keys 1 j) dpfl1
    (keys 1) rfl) (C := wordArrays words0 height Fin.elim0 _ +
      wordArrays dpfip0 height Fin.elim0 _ + tree0 + given) (by ac_rfl) ?_
  intro root1 tree1 planted1
  refine Spec.call (mallocSums_spec height (keygenLevels m aes height input keys 0))
    (zero_add _).symm ?_
  rintro sums _ rfl
  refine Spec.call (mallocWords_spec height Fin.elim0 fun _ => Fin.elim0) (zero_add _).symm ?_
  rintro dpfip1 _ rfl
  refine Spec.call (mallocWords_spec height Fin.elim0 fun _ => Fin.elim0) (zero_add _).symm ?_
  rintro words1 _ rfl
  refine Spec.call (mallocWords_spec height Fin.elim0 fun _ => Fin.elim0) (zero_add _).symm ?_
  rintro ip2 _ rfl
  refine Spec.call (keygenLoop_spec m aes height input _ keys ![dpfl0, dpfl1] sums
    { dpfip := ![dpfip0, dpfip1], key := ![words0, words1], ip2 } ![root0, root1]
    ⟨tree0, tree1, planted0, planted1, rfl⟩ height le_rfl) (C := given) ?_ ?_
  · show _ = tree0 + tree1 + sumArrays sums height (keygenLevels m aes height input keys 0) +
      (wordArrays dpfip0 height Fin.elim0 (fun _ => Fin.elim0) +
        wordArrays dpfip1 height Fin.elim0 (fun _ => Fin.elim0) +
        (wordArrays words0 height Fin.elim0 (fun _ => Fin.elim0) +
          wordArrays words1 height Fin.elim0 (fun _ => Fin.elim0) +
          wordArrays ip2 height Fin.elim0 (fun _ => Fin.elim0))) + given
    ac_rfl
  intro layers A planting
  rw [← given_eq]
  refine Spec.last (Spec.call (keygenFinish_spec m bitlength aes height groupBitwidth input keys
    index payload key0 key1 ![dpfl0, dpfl1] sums _ planting) (C := alphas input alpha)
    (by ac_rfl) ?_)
  intro r C result
  exact Triple.pure ⟨C, result, rfl⟩

/-- The memory of `dpf_keygen`. It never runs into an error. -/
theorem dpfKeygen_refines (alpha : Fin 2 → Nat) {memory : Memory Cell} {rest : Assertion Cell}
    (start : Holds memory (alphas input alpha + rest)) :
    ∃ r memory' C,
      dpfKeygen m bitlength aes height groupBitwidth (inputAt input alpha) keys memory =
        some (r, memory') ∧
      KeygenResult m bitlength aes height groupBitwidth input keys r C ∧
      Holds memory' (C + alphas input alpha + rest) := by
  obtain ⟨r, memory', _, ran, ⟨C, result, rfl⟩, holds⟩ :=
    dpfKeygen_spec m bitlength aes height groupBitwidth input keys alpha rest memory start
  exact ⟨r, memory', C, ran, result, holds⟩

end Whole

/-- A memory with the payload shares of the input packs. -/
def alphaMemory (input : DpfInput) : Memory Cell :=
  [] ++ [some (ges fun _ : Fin 1 => input.alpha 0)] ++ [some (ges fun _ : Fin 1 => input.alpha 1)]

theorem holds_alphaMemory (input : DpfInput) :
    Holds (alphaMemory input) (alphas input ![0, 1] + 0) := by
  have holds := Holds.empty.malloc (ges fun _ : Fin 1 => input.alpha 0) |>.malloc
    (ges fun _ : Fin 1 => input.alpha 1)
  have order : alphas input ![0, 1] + 0 = own 1 (ges fun _ : Fin 1 => input.alpha 1) +
      (own 0 (ges fun _ : Fin 1 => input.alpha 0) + 0) :=
    (congrArg (fun A => A + 0) (add_comm _ _)).trans (add_assoc _ _ _)
  rw [order]
  exact holds

theorem dpfKeygen_refines_toy :
    ∃ r memory' C,
      dpfKeygen toyDealer 8 toyCipher 2 8 (inputAt deepInput ![0, 1]) toySeeds
        (alphaMemory deepInput) = some (r, memory') ∧
      KeygenResult toyDealer 8 toyCipher 2 8 deepInput toySeeds r C ∧
      Holds memory' (C + alphas deepInput ![0, 1] + 0) :=
  dpfKeygen_refines toyDealer 8 toyCipher 2 8 deepInput toySeeds ![0, 1]
    (holds_alphaMemory deepInput)

end OnHeap

end DpfPir
