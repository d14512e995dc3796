import DpfPir.Expansion

/-!
# Full-domain and point evaluation

`dpf_eval_all` and `dpf_eval` (`dpf.cpp`, lines 402 to 569). A server expands its
key level by level, records the sums that the client checks, and turns each leaf
into a pair of output shares.

Results:
1. `grown_evalLevels`: under every schedule the level loop computes the layers of
   the tree with correction words that the key describes (`keyLayer`), and records
   the sums of each layer.
2. `evalAll_zs` to `evalAll_out`: the fields of the result in terms of the layers.
-/

namespace DpfPir

open LittleEndian Words ParallelLoop CorrectionTree

/-! ## The source functions -/

/-- An array with one more entry at its end. -/
def push {α : Type} {n : Nat} (xs : Fin n → α) (x : α) : Fin (n + 1) → α :=
  @Fin.snoc n (fun _ => α) xs x

/-- The correction of one expanded node by the control byte of its parent. -/
def correctNode (prevt : Byte) (node : Block) (currt : Byte) (sigma : Block) (tau : Byte) :
    Block × Byte :=
  if prevt = 1#8 then (node ^^^ sigma, currt ^^^ tau) else (node, currt)

/-- The body of the correction loop over a new layer: entry `j`, corrected by the
control byte of its parent `j / 2`. -/
def correctEntry {nt size : Nat} (prevt : Fin size → Byte) (dpfl : DpfLayer (size * 2))
    (sigma : Block) (tau0 tau1 : Byte) (j : Fin (size * 2)) (_ : Fin nt)
    (layer : (Fin (size * 2) → Block) × (Fin (size * 2) → Byte)) :
    (Fin (size * 2) → Block) × (Fin (size * 2) → Byte) :=
  let tau := if j.val % 2 = 0 then tau0 else tau1
  let node := correctNode (prevt j.divNat) (dpfl.nodes j) (dpfl.currt j) sigma tau
  (Function.update layer.1 j node.1, Function.update layer.2 j node.2)

/-- The state of `dpf_eval_all` after `level` levels: the current layer and the
entries of the pack written so far. -/
@[ext] structure EvalState (level : Nat) where
  hats : Fin (2 ^ level) → Block
  hatt : Fin (2 ^ level) → Byte
  zs : Fin 2 → Fin level → Block
  zt : Fin 2 → Fin level → Byte
  sigma : Fin level → Block
  tau : Fin 2 → Fin level → Byte

/-- One level of `dpf_eval_all`: the expansion, the records for the pack, and the
parallel correction loop over the new layer. -/
def evalLevel (m : Machine) (aes : Cipher) (party : Fin 2) (key : DpfKey) {i : Nat}
    (hi : i < key.height) (st : EvalState i) : EvalState (i + 1) :=
  let dpfl := prgEvalAllAndXor m (.expand party i) aes st.hats
  let sigma := key.sigma ⟨i, hi⟩
  let layer := (m.schedule (.correct party i) (2 ^ i * 2)).run
    (correctEntry st.hatt dpfl sigma (key.tau0 ⟨i, hi⟩) (key.tau1 ⟨i, hi⟩))
    (fun _ => 0#128, fun _ => 0#8)
  { hats := layer.1
    hatt := layer.2
    zs := fun d => push (st.zs d) (dpfl.zs d)
    zt := fun d => push (st.zt d) (dpfl.zt d)
    sigma := push st.sigma sigma
    tau := fun d => push (st.tau d) (![key.tau0 ⟨i, hi⟩, key.tau1 ⟨i, hi⟩] d) }

/-- The level loop of `dpf_eval_all`. -/
def evalLevels (m : Machine) (aes : Cipher) (party : Fin 2) (key : DpfKey) :
    (i : Nat) → i ≤ key.height → EvalState i
  | 0, _ =>
    { hats := fun _ => key.s
      hatt := fun _ => BitVec.ofNat 8 party
      zs := fun _ => Fin.elim0
      zt := fun _ => Fin.elim0
      sigma := Fin.elim0
      tau := fun _ => Fin.elim0 }
  | i + 1, hi => evalLevel m aes party key hi (evalLevels m aes party key i (Nat.le_of_succ_le hi))

/-- The pair of output shares of one leaf. -/
def outputShare (party : Fin 2) (bout : Nat) (gamma : Fin 2 → GroupElement) (hatt : Byte)
    (gammaInd : Fin 2 → GroupElement) : Fin 2 → GroupElement :=
  if party = 0 then
    if hatt = 0#8 then ![gammaInd 0, gammaInd 1]
    else ![gammaInd 0 + gamma 0, gammaInd 1 + gamma 1]
  else
    if hatt = 0#8 then
      ![GroupElement.ofValue 0#64 bout - gammaInd 0, GroupElement.ofValue 0#64 bout - gammaInd 1]
    else
      ![GroupElement.ofValue 0#64 bout - gammaInd 0 - gamma 0,
        GroupElement.ofValue 0#64 bout - gammaInd 1 - gamma 1]

/-- What the leaf loop of `dpf_eval_all` writes. -/
structure LeafState (nt size : Nat) where
  threadT : Fin nt → BitVec 32
  threadW : Fin nt → Fin 2 → GroupElement
  t : Fin size → Byte
  out : Fin size → Fin 2 → GroupElement

/-- `GroupElement thread_W[nt][2] = {{GroupElement(0, Bout)}}`: the first element
of the array gets the width `Bout`, all others the default width `bitlength`. -/
def threadWInit (bitlength bout : Nat) {nt : Nat} (threadId : Fin nt) (e : Fin 2) :
    GroupElement :=
  if threadId.val = 0 ∧ e = 0 then GroupElement.ofValue 0#64 bout
  else GroupElement.ofValue 0#64 bitlength

/-- `thread_W[thread_id][e] = thread_W[thread_id][e] + gamma_ind[e]` for both `e`. -/
def addPair (w gammaInd : Fin 2 → GroupElement) : Fin 2 → GroupElement :=
  ![w 0 + gammaInd 0, w 1 + gammaInd 1]

/-- The body of the leaf loop. -/
def evalLeaf (m : Machine) (aes : Cipher) (party : Fin 2) (key : DpfKey) {size : Nat}
    (hats : Fin size → Block) (hatt : Fin size → Byte) (j : Fin size) (threadId : Fin m.nt)
    (st : LeafState m.nt size) : LeafState m.nt size :=
  let gammaInd := convert aes m.beyond key.Bout.toNat 2 (hats j)
  { threadT := Function.update st.threadT threadId
      (st.threadT threadId + (hatt j).setWidth 32)
    threadW := Function.update st.threadW threadId (addPair (st.threadW threadId) gammaInd)
    t := Function.update st.t j (hatt j)
    out := Function.update st.out j
      (outputShare party key.Bout.toNat key.gamma (hatt j) gammaInd) }

/-- The leaf loop of `dpf_eval_all`. -/
def evalLeaves (m : Machine) (bitlength : Nat) (aes : Cipher) (party : Fin 2) (key : DpfKey)
    {height : Nat} (st : EvalState height) : LeafState m.nt (2 ^ height) :=
  (m.schedule (.leaves party) (2 ^ height)).run (evalLeaf m aes party key st.hats st.hatt)
    { threadT := fun _ => 0#32
      threadW := threadWInit bitlength key.Bout.toNat
      t := fun _ => 0#8
      out := fun _ _ => GroupElement.ofValue 0#64 key.Bout.toNat }

/-- What `dpf_eval_all` returns and what it writes through its pointer arguments. -/
structure EvalAll (height : Nat) where
  out : Fin (2 ^ height) → Fin 2 → GroupElement
  t : Fin (2 ^ height) → Byte
  icp : InputCheckPack

/-- `dpf_eval_all`. The pack arrives with the server's shares of the index and of
the payload already set. -/
def dpfEvalAll (m : Machine) (bitlength : Nat) (aes : Cipher) (party : Fin 2) (key : DpfKey)
    (index payload : GroupElement) : EvalAll key.height :=
  let st := evalLevels m aes party key key.height le_rfl
  let leaves := evalLeaves m bitlength aes party key st
  { out := leaves.out
    t := leaves.t
    icp :=
      { index := index
        payload := payload
        size := key.height
        zs := st.zs
        zt := st.zt
        sigma := st.sigma
        tau := st.tau
        T := merge (fun total thread => total + thread) 0#32 leaves.threadT
        W := merge addPair (fun _ => GroupElement.ofValue 0#64 key.Bout.toNat) leaves.threadW
        gamma := ![key.gamma 0, key.gamma 1] } }

/-- The level loop of `dpf_eval`: the seed and the control byte on the path. -/
def evalPath (aes : Cipher) (party : Fin 2) (idx : GroupElement) (key : DpfKey) :
    (i : Nat) → i ≤ key.height → Block × Byte
  | 0, _ => (key.s, BitVec.ofNat 8 party)
  | i + 1, hi =>
    let (hats, hatt) := evalPath aes party idx key i (Nat.le_of_succ_le hi)
    let ctt := ecbEncFourBlocks aes hats
    let sig := pathBit idx.value (key.height - 1 - i)
    let s := ctt ⟨2 * bitIndex sig, by omega⟩
    let t := lsb (ctt ⟨2 * bitIndex sig + 1, by omega⟩)
    let tau := if sig = 0#8 then key.tau0 ⟨i, hi⟩ else key.tau1 ⟨i, hi⟩
    correctNode hatt s t (key.sigma ⟨i, hi⟩) tau

/-- `dpf_eval`. -/
def dpfEval (m : Machine) (aes : Cipher) (party : Fin 2) (idx : GroupElement) (key : DpfKey) :
    Fin 2 → GroupElement :=
  let (hats, hatt) := evalPath aes party idx key key.height le_rfl
  let gammaInd := convert aes m.beyond key.Bout.toNat 2 hats
  outputShare party key.Bout.toNat key.gamma hatt gammaInd

/-! ## The tree of a key -/

/-- The correction word of level `i` of a key, zero past the height. -/
def keyWords (key : DpfKey) (i : Nat) : Word (Xor 128) (Xor 8) :=
  if hi : i < key.height then
    ⟨Xor.of (key.sigma ⟨i, hi⟩), fun d => Xor.of (![key.tau0 ⟨i, hi⟩, key.tau1 ⟨i, hi⟩] d)⟩
  else ⟨0, fun _ => 0⟩

/-- The root of a party's tree: its control bit is the party's number. -/
def keyRoot (party : Fin 2) (key : DpfKey) : Node (Xor 128) (Xor 8) :=
  ⟨Xor.of key.s, Xor.of (BitVec.ofNat 8 party)⟩

/-- The layer of depth `i` of a party's tree. -/
def keyLayer (aes : Cipher) (party : Fin 2) (key : DpfKey) (i : Nat) :
    Fin (2 ^ i) → Node (Xor 128) (Xor 8) :=
  layer (aesGenerator aes) (keyRoot party key) (keyWords key) i

theorem keyWords_of_lt (key : DpfKey) {i : Nat} (hi : i < key.height) :
    keyWords key i =
      ⟨Xor.of (key.sigma ⟨i, hi⟩),
        fun d => Xor.of (![key.tau0 ⟨i, hi⟩, key.tau1 ⟨i, hi⟩] d)⟩ := by
  rw [keyWords, dif_pos hi]

/-- `correctNode` is the corrected child of the library. -/
theorem child_correctNode (aes : Cipher) (w : Word (Xor 128) (Xor 8)) (seed : Block) (bit : Byte)
    (d : Fin 2) :
    child (aesGenerator aes) w ⟨Xor.of seed, Xor.of bit⟩ d =
      let node := correctNode bit (childSeed aes seed d) (childBit aes seed d) w.sigma.word
        (w.tau d).word
      ⟨Xor.of node.1, Xor.of node.2⟩ := by
  have test : (Xor.of bit = (aesGenerator aes).one) = (bit = 1#8) := rfl
  unfold child correctNode
  simp only [test]
  split <;> rfl

/-! ## The level loop -/

@[simp] theorem push_castSucc {α : Type} {n : Nat} (xs : Fin n → α) (x : α) (k : Fin n) :
    push xs x k.castSucc = xs k := by
  simp [push]

@[simp] theorem push_last {α : Type} {n : Nat} (xs : Fin n → α) (x : α) :
    push xs x (Fin.last n) = x := by
  simp [push]

/-- An array filled by `push` keeps a property that its entries have at their index. -/
theorem push_forall {α : Type} {n : Nat} {P : Nat → α → Prop} {xs : Fin n → α} {x : α}
    (old : ∀ k : Fin n, P k (xs k)) (new : P n x) (k : Fin (n + 1)) : P k (push xs x k) := by
  cases k using Fin.lastCases with
  | last => rw [push_last]; exact new
  | cast k => rw [push_castSucc]; exact old k

/-- What the level loop has computed after `i` levels. -/
structure Grown (aes : Cipher) (party : Fin 2) (key : DpfKey) {i : Nat} (hi : i ≤ key.height)
    (st : EvalState i) : Prop where
  nodes : ∀ j, keyLayer aes party key i j = ⟨Xor.of (st.hats j), Xor.of (st.hatt j)⟩
  zs : ∀ (k : Fin i) d,
    Xor.of (st.zs d k) = seedSum (aesGenerator aes) (keyLayer aes party key k) d
  zt : ∀ (k : Fin i) d,
    Xor.of (st.zt d k) = bitSum (aesGenerator aes) (keyLayer aes party key k) d
  sigma : ∀ k : Fin i, st.sigma k = key.sigma (k.castLE hi)
  tau : ∀ (k : Fin i) d, st.tau d k = ![key.tau0 (k.castLE hi), key.tau1 (k.castLE hi)] d

theorem run_correctEntry {nt size : Nat} (s : Schedule nt (size * 2)) (prevt : Fin size → Byte)
    (dpfl : DpfLayer (size * 2)) (sigma : Block) (tau0 tau1 : Byte)
    (init : (Fin (size * 2) → Block) × (Fin (size * 2) → Byte)) (j : Fin (size * 2)) :
    let layer := s.run (correctEntry prevt dpfl sigma tau0 tau1) init
    (layer.1 j, layer.2 j) = correctNode (prevt j.divNat) (dpfl.nodes j) (dpfl.currt j) sigma
      (![tau0, tau1] j.modNat) := by
  have side : ∀ k : Fin (size * 2),
      (if k.val % 2 = 0 then tau0 else tau1) = ![tau0, tau1] k.modNat := by
    intro k
    have value : k.modNat.val = k.val % 2 := rfl
    rcases Nat.mod_two_eq_zero_or_one k.val with even | odd
    · rw [if_pos even, show k.modNat = 0 from Fin.ext (value.trans even)]; rfl
    · rw [if_neg (by omega), show k.modNat = 1 from Fin.ext (value.trans odd)]; rfl
  have hats := s.run_store (correctEntry prevt dpfl sigma tau0 tau1) Prod.fst _
    (fun _ _ _ => rfl) init
  have hatt := s.run_store (correctEntry prevt dpfl sigma tau0 tau1) Prod.snd _
    (fun _ _ _ => rfl) init
  simp only [hats, hatt, side]

theorem evalLevel_nodes (m : Machine) (aes : Cipher) (party : Fin 2) (key : DpfKey) {i : Nat}
    (hi : i < key.height) (st : EvalState i) (j : Fin (2 ^ i * 2)) :
    ((evalLevel m aes party key hi st).hats j, (evalLevel m aes party key hi st).hatt j) =
      correctNode (st.hatt j.divNat) (childSeed aes (st.hats j.divNat) j.modNat)
        (childBit aes (st.hats j.divNat) j.modNat) (key.sigma ⟨i, hi⟩)
        (![key.tau0 ⟨i, hi⟩, key.tau1 ⟨i, hi⟩] j.modNat) := by
  rw [← prgEvalAllAndXor_nodes m (.expand party i), ← prgEvalAllAndXor_currt m (.expand party i)]
  exact run_correctEntry _ _ _ _ _ _ _ j

/-- The sums that the expansion records are those of the layer. -/
theorem grown_sum {m : Machine} {aes : Cipher} {party : Fin 2} {key : DpfKey} {i : Nat}
    {hi : i ≤ key.height} {st : EvalState i} (grown : Grown aes party key hi st) (d : Fin 2) :
    Xor.of ((prgEvalAllAndXor m (.expand party i) aes st.hats).zs d) =
      seedSum (aesGenerator aes) (keyLayer aes party key i) d ∧
    Xor.of ((prgEvalAllAndXor m (.expand party i) aes st.hats).zt d) =
      bitSum (aesGenerator aes) (keyLayer aes party key i) d := by
  rw [prgEvalAllAndXor_zs, prgEvalAllAndXor_zt]
  simp only [seedSum, bitSum, grown.nodes]
  exact ⟨rfl, rfl⟩

theorem grown_evalLevel {m : Machine} {aes : Cipher} {party : Fin 2} {key : DpfKey} {i : Nat}
    (hi : i < key.height) {st : EvalState i} (grown : Grown aes party key hi.le st) :
    Grown aes party key hi (evalLevel m aes party key hi st) where
  nodes j := by
    have parent := grown.nodes j.divNat
    have node := evalLevel_nodes m aes party key hi st j
    show child (aesGenerator aes) (keyWords key i) (keyLayer aes party key i j.divNat) j.modNat = _
    rw [parent, child_correctNode, keyWords_of_lt key hi]
    simp only [Xor.word_of, ← node]
  zs k d := push_forall
    (P := fun k z => Xor.of z = seedSum (aesGenerator aes) (keyLayer aes party key k) d)
    (fun k => grown.zs k d) (grown_sum grown d).1 k
  zt k d := push_forall
    (P := fun k z => Xor.of z = bitSum (aesGenerator aes) (keyLayer aes party key k) d)
    (fun k => grown.zt k d) (grown_sum grown d).2 k
  sigma k := by
    cases k using Fin.lastCases with
    | last => exact push_last _ _
    | cast k => exact (push_castSucc _ _ k).trans (grown.sigma k)
  tau k d := by
    cases k using Fin.lastCases with
    | last => exact push_last _ _
    | cast k => exact (push_castSucc _ _ k).trans (grown.tau k d)

theorem grown_evalLevels (m : Machine) (aes : Cipher) (party : Fin 2) (key : DpfKey) :
    ∀ i (hi : i ≤ key.height), Grown aes party key hi (evalLevels m aes party key i hi)
  | 0, _ =>
    { nodes := fun _ => rfl
      zs := fun k => k.elim0
      zt := fun k => k.elim0
      sigma := fun k => k.elim0
      tau := fun k => k.elim0 }
  | i + 1, hi => grown_evalLevel hi (grown_evalLevels m aes party key i (Nat.le_of_succ_le hi))

/-! ## The leaves -/

/-- Component `e` of the output that `convert` derives from a seed. -/
def leafConv (aes : Cipher) (w : Nat) (e : Fin 2) (seed : Xor 128) : ZMod (2 ^ w) :=
  (convert aes (fun _ => 0#8) w 2 seed.word e).res w

theorem convert_res (aes : Cipher) (beyond : Nat → Byte) {w : Nat} (hw : w ≤ 64) (b : Block)
    (e : Fin 2) : (convert aes beyond w 2 b e).res w = leafConv aes w e (Xor.of b) := by
  rw [leafConv, convert_inside aes beyond (fun _ => 0#8) hw, Xor.word_of]

/-- `int` accumulators, merged over the threads, hold the wrapping sum of the
contributions. -/
theorem merge_count {nt n : Nat} {σ : Type} (s : Schedule nt n) (body : Fin n → Fin nt → σ → σ)
    (acc : σ → Fin nt → BitVec 32) (count : Fin n → BitVec 32)
    (stores : ∀ i t st, acc (body i t st) = Function.update (acc st) t (acc st t + count i))
    (init : σ) (start : ∀ t, acc init t = 0#32) :
    merge (fun total thread => total + thread) 0#32 (acc (s.run body init)) = ∑ i, count i := by
  have total := (merge_hom (fun total thread : BitVec 32 => total + thread) (fun _ => True) id
    (fun _ _ _ => trivial) (fun _ _ _ => rfl) 0#32 trivial (acc (s.run body init))).2
  have threads := run_accumulate s body acc (fun i a => a + count i) (fun _ => True) id count stores
    (fun _ _ _ => trivial) (fun _ _ _ => rfl) init (fun _ => trivial)
  have zero : ∑ t, id (acc init t) = 0 := Finset.sum_eq_zero fun t _ => start t
  rw [threads, zero, zero_add] at total
  exact total.trans (zero_add _)

theorem addPair_bitsize (a b : Fin 2 → GroupElement) (d : Fin 2) :
    (addPair a b d).bitsize = (a d).bitsize := by
  match d with
  | 0 => rfl
  | 1 => rfl

theorem addPair_res {w : Nat} {a : Fin 2 → GroupElement} (b : Fin 2 → GroupElement) {e : Fin 2}
    (low : w ≤ (a e).bitsize) (high : (a e).bitsize ≤ 64) :
    (addPair a b e).res w = (a e).res w + (b e).res w := by
  match e with
  | 0 => exact GroupElement.res_add_of_le low high (b 0)
  | 1 => exact GroupElement.res_add_of_le low high (b 1)

/-- The merge adds up residues modulo `2 ^ w`, whatever the widths of the accumulators. -/
theorem merge_pairs {w nt : Nat} (hw : w ≤ 64) (acc : Fin nt → Fin 2 → GroupElement) (e : Fin 2) :
    let total := merge addPair (fun _ => GroupElement.ofValue 0#64 w) acc
    (total e).bitsize = w ∧ (total e).res w = ∑ t, (acc t e).res w := by
  obtain ⟨kept, total⟩ := merge_hom addPair (fun a => ∀ d, (a d).bitsize = w) (fun a => (a e).res w)
    (fun a b ha d => (addPair_bitsize a b d).trans (ha d))
    (fun a b ha => addPair_res b (ha e).ge ((ha e).trans_le hw))
    (fun _ => GroupElement.ofValue 0#64 w) (fun _ => rfl) acc
  refine ⟨kept e, ?_⟩
  rw [total, GroupElement.res_zero, zero_add]

/-- Accumulators of pairs, merged over the threads, hold the sum of the contributions
modulo `2 ^ w`, when no accumulator is narrower than `w`. -/
theorem merge_addPair {w nt n : Nat} {σ : Type} (hw : w ≤ 64) (s : Schedule nt n)
    (body : Fin n → Fin nt → σ → σ) (acc : σ → Fin nt → Fin 2 → GroupElement)
    (pair : Fin n → Fin 2 → GroupElement)
    (stores : ∀ i t st,
      acc (body i t st) = Function.update (acc st) t (addPair (acc st t) (pair i)))
    (init : σ) (wide : ∀ t e, w ≤ (acc init t e).bitsize ∧ (acc init t e).bitsize ≤ 64)
    (start : ∀ t e, (acc init t e).res w = 0) (e : Fin 2) :
    let total := merge addPair (fun _ => GroupElement.ofValue 0#64 w) (acc (s.run body init))
    (total e).bitsize = w ∧ (total e).res w = ∑ i, (pair i e).res w := by
  obtain ⟨kept, total⟩ := merge_pairs hw (acc (s.run body init)) e
  -- the sum over the threads is the sum over the iterations
  have threads := run_accumulate s body acc (fun i a => addPair a (pair i))
    (fun a => ∀ d, w ≤ (a d).bitsize ∧ (a d).bitsize ≤ 64) (fun a => (a e).res w)
    (fun i => (pair i e).res w) stores (fun i a ha d => by rw [addPair_bitsize]; exact ha d)
    (fun i a ha => addPair_res (pair i) (ha e).1 (ha e).2) init wide
  have zero : ∑ t, (acc init t e).res w = 0 := Finset.sum_eq_zero fun t _ => start t e
  refine ⟨kept, ?_⟩
  rw [total, threads, zero, zero_add]

/-- The accumulators `thread_W` start at zero, in a width that holds `bout` bits when
the global `bitlength` does. -/
theorem threadWInit_wide {bitlength bout : Nat} (hw : bout ≤ 64) (low : bout ≤ bitlength)
    (high : bitlength ≤ 64) {nt : Nat} (t : Fin nt) (e : Fin 2) :
    bout ≤ (threadWInit bitlength bout t e).bitsize ∧
      (threadWInit bitlength bout t e).bitsize ≤ 64 := by
  unfold threadWInit
  split
  · exact ⟨le_rfl, hw⟩
  · exact ⟨low, high⟩

theorem threadWInit_res (bitlength bout w : Nat) {nt : Nat} (t : Fin nt) (e : Fin 2) :
    (threadWInit bitlength bout t e).res w = 0 := by
  unfold threadWInit
  split
  · exact GroupElement.res_zero bout w
  · exact GroupElement.res_zero bitlength w

/-- The signed contribution of a leaf to component `e` of a party's output. -/
def shareValue (aes : Cipher) (party : Fin 2) (w : Nat) (gamma : Fin 2 → GroupElement) (e : Fin 2)
    (leaf : Node (Xor 128) (Xor 8)) : ZMod (2 ^ w) :=
  if party = 0 then leafShare (leafConv aes w e) ((gamma e).res w) leaf
  else -leafShare (leafConv aes w e) ((gamma e).res w) leaf

theorem outputShare_bitsize {party : Fin 2} {w : Nat} {gamma gammaInd : Fin 2 → GroupElement}
    {hatt : Byte} (width : ∀ e, (gammaInd e).bitsize = w) (e : Fin 2) :
    (outputShare party w gamma hatt gammaInd e).bitsize = w := by
  unfold outputShare
  match e with
  | 0 => split <;> split <;> first | exact width 0 | rfl
  | 1 => split <;> split <;> first | exact width 1 | rfl

theorem outputShare_res (aes : Cipher) (beyond : Nat → Byte) (party : Fin 2) {w : Nat} (hw : w ≤ 64)
    (gamma : Fin 2 → GroupElement) (hatt : Byte) (hats : Block) (e : Fin 2) :
    (outputShare party w gamma hatt (convert aes beyond w 2 hats) e).res w =
      shareValue aes party w gamma e ⟨Xor.of hats, Xor.of hatt⟩ := by
  have conv := convert_res aes beyond hw hats
  have width := bitsize_convert aes beyond w 2 hats
  have test : (Xor.of hatt = 0) = (hatt = 0#8) := rfl
  have zero := GroupElement.res_zero w w
  unfold outputShare shareValue leafShare
  simp only [test]
  match e with
  | 0 =>
    split <;> split
    · exact conv 0
    · exact (GroupElement.res_add hw (width 0) _).trans (by rw [conv])
    · exact (GroupElement.res_sub hw rfl _).trans (by rw [conv, zero, zero_sub])
    · refine (GroupElement.res_sub hw rfl _).trans ?_
      rw [GroupElement.res_sub hw rfl, conv, zero, zero_sub, neg_add, sub_eq_add_neg]
  | 1 =>
    split <;> split
    · exact conv 1
    · exact (GroupElement.res_add hw (width 1) _).trans (by rw [conv])
    · exact (GroupElement.res_sub hw rfl _).trans (by rw [conv, zero, zero_sub])
    · refine (GroupElement.res_sub hw rfl _).trans ?_
      rw [GroupElement.res_sub hw rfl, conv, zero, zero_sub, neg_add, sub_eq_add_neg]

/-- The body of the leaf loop, as it acts on `thread_W`. -/
def addLeaf (m : Machine) (aes : Cipher) (bout : Nat) {size : Nat} (hats : Fin size → Block)
    (j : Fin size) (threadId : Fin m.nt) (threadW : Fin m.nt → Fin 2 → GroupElement) :
    Fin m.nt → Fin 2 → GroupElement :=
  Function.update threadW threadId
    (addPair (threadW threadId) (convert aes m.beyond bout 2 (hats j)))

/-- The sums `W` that the leaf loop leaves for the seeds `hats`. -/
def leafTotals (m : Machine) (bitlength : Nat) (aes : Cipher) (party : Fin 2) (bout : Nat)
    {height : Nat} (hats : Fin (2 ^ height) → Block) : Fin 2 → GroupElement :=
  merge addPair (fun _ => GroupElement.ofValue 0#64 bout)
    ((m.schedule (.leaves party) (2 ^ height)).run (addLeaf m aes bout hats)
      (threadWInit bitlength bout))

section LeafLoop

variable (m : Machine) (bitlength : Nat) (aes : Cipher) (party : Fin 2) (key : DpfKey)
  {height : Nat} (st : EvalState height)

theorem evalLeaves_t (j : Fin (2 ^ height)) :
    (evalLeaves m bitlength aes party key st).t j = st.hatt j :=
  congrFun ((m.schedule (.leaves party) (2 ^ height)).run_store
    (evalLeaf m aes party key st.hats st.hatt) LeafState.t st.hatt (fun _ _ _ => rfl) _) j

theorem evalLeaves_out (j : Fin (2 ^ height)) :
    (evalLeaves m bitlength aes party key st).out j =
      outputShare party key.Bout.toNat key.gamma (st.hatt j)
        (convert aes m.beyond key.Bout.toNat 2 (st.hats j)) :=
  congrFun ((m.schedule (.leaves party) (2 ^ height)).run_store
    (evalLeaf m aes party key st.hats st.hatt) LeafState.out
    (fun j => outputShare party key.Bout.toNat key.gamma (st.hatt j)
      (convert aes m.beyond key.Bout.toNat 2 (st.hats j)))
    (fun _ _ _ => rfl) _) j

theorem evalLeaves_T :
    merge (fun total thread => total + thread) 0#32
      (evalLeaves m bitlength aes party key st).threadT = ∑ j, (st.hatt j).setWidth 32 :=
  merge_count (m.schedule (.leaves party) (2 ^ height)) (evalLeaf m aes party key st.hats st.hatt)
    LeafState.threadT (fun j => (st.hatt j).setWidth 32) (fun _ _ _ => rfl) _ fun _ => rfl

theorem evalLeaves_W {w : Nat} (hw : w ≤ 64) (bout : key.Bout.toNat = w) (low : w ≤ bitlength)
    (high : bitlength ≤ 64) (e : Fin 2) :
    let total := merge addPair (fun _ => GroupElement.ofValue 0#64 w)
      (evalLeaves m bitlength aes party key st).threadW
    (total e).bitsize = w ∧ (total e).res w = ∑ j, leafConv aes w e (Xor.of (st.hats j)) := by
  subst bout
  simp only [← convert_res aes m.beyond hw]
  exact merge_addPair hw (m.schedule (.leaves party) (2 ^ height))
    (evalLeaf m aes party key st.hats st.hatt) LeafState.threadW
    (fun j => convert aes m.beyond key.Bout.toNat 2 (st.hats j)) (fun _ _ _ => rfl) _
    (threadWInit_wide hw low high) (threadWInit_res bitlength key.Bout.toNat key.Bout.toNat) e

/-- `thread_W` evolves by itself, whatever the widths. -/
theorem evalLeaves_threadW :
    (evalLeaves m bitlength aes party key st).threadW =
      (m.schedule (.leaves party) (2 ^ height)).run (addLeaf m aes key.Bout.toNat st.hats)
        (threadWInit bitlength key.Bout.toNat) :=
  (m.schedule (.leaves party) (2 ^ height)).run_hom LeafState.threadW (fun _ _ _ => rfl) _

end LeafLoop

/-! ## The result of full-domain evaluation -/

section Result

variable (m : Machine) (bitlength : Nat) (aes : Cipher) (party : Fin 2) (key : DpfKey)
  (index payload : GroupElement)

theorem evalAll_zs (k : Fin key.height) (d : Fin 2) :
    Xor.of ((dpfEvalAll m bitlength aes party key index payload).icp.zs d k) =
      seedSum (aesGenerator aes) (keyLayer aes party key k) d :=
  (grown_evalLevels m aes party key key.height le_rfl).zs k d

theorem evalAll_zt (k : Fin key.height) (d : Fin 2) :
    Xor.of ((dpfEvalAll m bitlength aes party key index payload).icp.zt d k) =
      bitSum (aesGenerator aes) (keyLayer aes party key k) d :=
  (grown_evalLevels m aes party key key.height le_rfl).zt k d

theorem evalAll_sigma (k : Fin key.height) :
    (dpfEvalAll m bitlength aes party key index payload).icp.sigma k = key.sigma k :=
  (grown_evalLevels m aes party key key.height le_rfl).sigma k

theorem evalAll_tau (k : Fin key.height) (d : Fin 2) :
    (dpfEvalAll m bitlength aes party key index payload).icp.tau d k =
      ![key.tau0 k, key.tau1 k] d :=
  (grown_evalLevels m aes party key key.height le_rfl).tau k d

theorem evalAll_gamma (e : Fin 2) :
    (dpfEvalAll m bitlength aes party key index payload).icp.gamma e = key.gamma e := by
  match e with
  | 0 => rfl
  | 1 => rfl

theorem evalAll_t (j : Fin (2 ^ key.height)) :
    Xor.of ((dpfEvalAll m bitlength aes party key index payload).t j) =
      (keyLayer aes party key key.height j).bit := by
  rw [(grown_evalLevels m aes party key key.height le_rfl).nodes j]
  exact congrArg Xor.of (evalLeaves_t m bitlength aes party key _ j)

theorem evalAll_out (j : Fin (2 ^ key.height)) :
    (dpfEvalAll m bitlength aes party key index payload).out j =
      outputShare party key.Bout.toNat key.gamma (keyLayer aes party key key.height j).bit.word
        (convert aes m.beyond key.Bout.toNat 2 (keyLayer aes party key key.height j).seed.word) := by
  rw [(grown_evalLevels m aes party key key.height le_rfl).nodes j]
  exact evalLeaves_out m bitlength aes party key _ j

theorem evalAll_T :
    (dpfEvalAll m bitlength aes party key index payload).icp.T =
      ∑ j, (keyLayer aes party key key.height j).bit.word.setWidth 32 := by
  simp only [(grown_evalLevels m aes party key key.height le_rfl).nodes, Xor.word_of]
  exact evalLeaves_T m bitlength aes party key _

theorem evalAll_W {w : Nat} (hw : w ≤ 64) (bout : key.Bout.toNat = w) (low : w ≤ bitlength)
    (high : bitlength ≤ 64) (e : Fin 2) :
    ((dpfEvalAll m bitlength aes party key index payload).icp.W e).bitsize = w ∧
    ((dpfEvalAll m bitlength aes party key index payload).icp.W e).res w =
      leafSum (leafConv aes w e) (keyLayer aes party key key.height) := by
  simp only [leafSum, (grown_evalLevels m aes party key key.height le_rfl).nodes]
  have totals := evalLeaves_W m bitlength aes party key
    (evalLevels m aes party key key.height le_rfl) hw bout low high e
  subst bout
  exact totals

/-- The sums `W`, for any two widths, as a function of the seeds at the leaves. -/
theorem evalAll_W_totals :
    (dpfEvalAll m bitlength aes party key index payload).icp.W =
      leafTotals m bitlength aes party key.Bout.toNat fun j =>
        (keyLayer aes party key key.height j).seed.word := by
  simp only [(grown_evalLevels m aes party key key.height le_rfl).nodes, Xor.word_of]
  exact congrArg (merge addPair fun _ => GroupElement.ofValue 0#64 key.Bout.toNat)
    (evalLeaves_threadW m bitlength aes party key _)

theorem evalAll_share {w : Nat} (hw : w ≤ 64) (bout : key.Bout.toNat = w)
    (j : Fin (2 ^ key.height)) (e : Fin 2) :
    ((dpfEvalAll m bitlength aes party key index payload).out j e).bitsize = w ∧
    ((dpfEvalAll m bitlength aes party key index payload).out j e).res w =
      shareValue aes party w key.gamma e (keyLayer aes party key key.height j) := by
  subst bout
  rw [evalAll_out]
  exact ⟨outputShare_bitsize (bitsize_convert aes m.beyond _ 2 _) e,
    outputShare_res aes m.beyond party hw key.gamma _ _ e⟩

end Result

end DpfPir
