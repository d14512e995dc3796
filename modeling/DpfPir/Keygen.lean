import DpfPir.EvalAll

/-!
# Key generation

`dpf_keygen` (`dpf.cpp`, lines 145 to 400). The dealer grows the two parties'
trees side by side from its own inlined copy of the evaluation, derives the
correction words of each level from the sums of the level, and records for the
client everything the servers will recompute.

Results:
1. `planted_keygenLevels`: under every schedule the layers that the dealer grows
   are the layers of the keys it returns, and the correction words fit them
   (`dealtWords_corrects`).
2. `keygen_zs0` to `keygen_gamma`: the fields of the dealer's record in terms of
   those layers.
-/

namespace DpfPir

open LittleEndian Words ParallelLoop CorrectionTree

/-! ## The source function -/

/-- The dealer's two input packs `dpfip[0]` and `dpfip[1]`: the shares of the
index and of the payload `alpha`. -/
structure DpfInput where
  index : Fin 2 → GroupElement
  alpha : Fin 2 → GroupElement

/-- The state of `dpf_keygen` after `level` levels. The arrays `sigma`, `tau[0]`
and `tau[1]` stand for the equal copies in both input packs, in both keys and in
`ip2`. -/
@[ext] structure KeygenState (level : Nat) where
  hats : Fin 2 → Fin (2 ^ level) → Block
  hatt : Fin 2 → Fin (2 ^ level) → Byte
  zs0 : Fin 2 → Fin level → Block
  zs1 : Fin 2 → Fin level → Block
  zt0 : Fin 2 → Fin level → Byte
  zt1 : Fin 2 → Fin level → Byte
  sigma : Fin level → Block
  tau : Fin 2 → Fin level → Byte

/-- The body of the dealer's correction loop: entry `j` of both parties' layers. -/
def correctBoth {nt size : Nat} (prevt : Fin 2 → Fin size → Byte)
    (dpfl : Fin 2 → DpfLayer (size * 2)) (sigma : Block) (tau : Fin 2 → Byte)
    (j : Fin (size * 2)) (_ : Fin nt)
    (layers : Fin 2 → (Fin (size * 2) → Block) × (Fin (size * 2) → Byte)) :
    Fin 2 → (Fin (size * 2) → Block) × (Fin (size * 2) → Byte) :=
  let node := fun b =>
    correctNode (prevt b j.divNat) ((dpfl b).nodes j) ((dpfl b).currt j) sigma (tau j.modNat)
  ![(Function.update (layers 0).1 j (node 0).1, Function.update (layers 0).2 j (node 0).2),
    (Function.update (layers 1).1 j (node 1).1, Function.update (layers 1).2 j (node 1).2)]

/-- `sigma[i]`: the seeds of both parties summed on the side off the path. -/
def levelSigma {size : Nat} (dpfl : Fin 2 → DpfLayer size) (sig : Byte) : Block :=
  (dpfl 0).zs (bitIndex (1#8 ^^^ sig)) ^^^ (dpfl 1).zs (bitIndex (1#8 ^^^ sig))

/-- `tau[0][i]` and `tau[1][i]`. -/
def levelTau {size : Nat} (dpfl : Fin 2 → DpfLayer size) (sig : Byte) : Fin 2 → Byte :=
  ![(dpfl 0).zt 0 ^^^ (dpfl 1).zt 0 ^^^ sig ^^^ 1#8, (dpfl 0).zt 1 ^^^ (dpfl 1).zt 1 ^^^ sig]

/-- One level of `dpf_keygen`. -/
def keygenLevel (m : Machine) (aes : Cipher) (height : Nat) (dpfip : DpfInput) {i : Nat}
    (st : KeygenState i) : KeygenState (i + 1) :=
  let dpfl := fun j => prgEvalAllAndXor m (.expand j i) aes (st.hats j)
  let sig := pathBit (dpfip.index 0 + dpfip.index 1).value (height - 1 - i)
  let sigma := levelSigma dpfl sig
  let tau := levelTau dpfl sig
  let layers := (m.schedule (.correct 0 i) (2 ^ i * 2)).run (correctBoth st.hatt dpfl sigma tau)
    (fun _ => (fun _ => 0#128, fun _ => 0#8))
  { hats := fun b => (layers b).1
    hatt := fun b => (layers b).2
    zs0 := fun d => push (st.zs0 d) ((dpfl 0).zs d)
    zs1 := fun d => push (st.zs1 d) ((dpfl 1).zs d)
    zt0 := fun d => push (st.zt0 d) ((dpfl 0).zt d)
    zt1 := fun d => push (st.zt1 d) ((dpfl 1).zt d)
    sigma := push st.sigma sigma
    tau := fun d => push (st.tau d) (tau d) }

/-- The level loop of `dpf_keygen`. -/
def keygenLevels (m : Machine) (aes : Cipher) (height : Nat) (dpfip : DpfInput)
    (keys : Fin 2 → Block) : (i : Nat) → KeygenState i
  | 0 =>
    { hats := fun b _ => keys b
      hatt := fun b _ => BitVec.ofNat 8 b
      zs0 := fun _ => Fin.elim0
      zs1 := fun _ => Fin.elim0
      zt0 := fun _ => Fin.elim0
      zt1 := fun _ => Fin.elim0
      sigma := Fin.elim0
      tau := fun _ => Fin.elim0 }
  | i + 1 => keygenLevel m aes height dpfip (keygenLevels m aes height dpfip keys i)

/-- The accumulators of the dealer's leaf loop. -/
structure KeygenLeafState (nt : Nat) where
  threadW0 : Fin nt → Fin 2 → GroupElement
  threadW1 : Fin nt → Fin 2 → GroupElement
  threadT0 : Fin nt → BitVec 32
  threadT1 : Fin nt → BitVec 32

/-- The body of the dealer's leaf loop. -/
def keygenLeaf (m : Machine) (aes : Cipher) (bout : Nat) {size : Nat}
    (hats : Fin 2 → Fin size → Block) (hatt : Fin 2 → Fin size → Byte) (j : Fin size)
    (threadId : Fin m.nt) (st : KeygenLeafState m.nt) : KeygenLeafState m.nt :=
  let gammaInd0 := convert aes m.beyond bout 2 (hats 0 j)
  let gammaInd1 := convert aes m.beyond bout 2 (hats 1 j)
  { threadW0 := Function.update st.threadW0 threadId (addPair (st.threadW0 threadId) gammaInd0)
    threadW1 := Function.update st.threadW1 threadId (addPair (st.threadW1 threadId) gammaInd1)
    threadT0 := Function.update st.threadT0 threadId
      (st.threadT0 threadId + (hatt 0 j).setWidth 32)
    threadT1 := Function.update st.threadT1 threadId
      (st.threadT1 threadId + (hatt 1 j).setWidth 32) }

/-- The dealer's leaf loop. -/
def keygenLeaves (m : Machine) (bitlength : Nat) (aes : Cipher) (bout : Nat) {height : Nat}
    (st : KeygenState height) : KeygenLeafState m.nt :=
  (m.schedule (.leaves 0) (2 ^ height)).run (keygenLeaf m aes bout st.hats st.hatt)
    { threadW0 := threadWInit bitlength bout
      threadW1 := threadWInit bitlength bout
      threadT0 := fun _ => 0#32
      threadT1 := fun _ => 0#32 }

/-- The final correction word, for the component `e` of the output. -/
def keygenGamma (second : Bool) (w0 w1 : Fin 2 → GroupElement)
    (beta : Fin 2 → Fin 2 → GroupElement) (e : Fin 2) : GroupElement :=
  if second then w0 e - beta 0 e - beta 1 e - w1 e
  else beta 0 e + beta 1 e - w0 e + w1 e

/-- What `dpf_keygen` returns and what it writes to `ip2`. -/
structure Keygen where
  key : Fin 2 → DpfKey
  ip2 : InputCheckPack2

/-- `dpf_keygen`. The two root seeds, drawn from the dealer's random generator,
are an argument. -/
def dpfKeygen (m : Machine) (bitlength : Nat) (aes : Cipher) (height groupBitwidth : Nat)
    (dpfip : DpfInput) (keys : Fin 2 → Block) : Keygen :=
  let beta := betaShares groupBitwidth (dpfip.alpha 0) (dpfip.alpha 1)
  let st := keygenLevels m aes height dpfip keys height
  let leaves := keygenLeaves m bitlength aes groupBitwidth st
  let w0 := merge addPair (fun _ => GroupElement.ofValue 0#64 groupBitwidth) leaves.threadW0
  let w1 := merge addPair (fun _ => GroupElement.ofValue 0#64 groupBitwidth) leaves.threadW1
  let t0 := merge (fun total thread => total + thread) 0#32 leaves.threadT0
  let t1 := merge (fun total thread => total + thread) 0#32 leaves.threadT1
  let gamma := ![keygenGamma (t0.slt t1) w0 w1 beta 0, keygenGamma (t0.slt t1) w0 w1 beta 1]
  { key := fun b =>
      { height := height
        Bout := BitVec.ofNat 32 groupBitwidth
        s := keys b
        t := BitVec.ofNat 8 b
        sigma := st.sigma
        tau0 := st.tau 0
        tau1 := st.tau 1
        gamma := gamma }
    ip2 :=
      { index := ![dpfip.index 0, dpfip.index 1]
        payload := ![dpfip.alpha 0, dpfip.alpha 1]
        size := height
        zs0 := st.zs0
        zs1 := st.zs1
        zt0 := st.zt0
        zt1 := st.zt1
        sigma := st.sigma
        tau := st.tau
        T := ![t0, t1]
        W := ![w0, w1]
        gamma := gamma } }

/-! ## The level loop -/

section Levels

variable (m : Machine) (aes : Cipher) (height : Nat) (dpfip : DpfInput) (keys : Fin 2 → Block)

/-- The correction word that the dealer derives at level `i`. -/
def dealtWords (i : Nat) : Word (Xor 128) (Xor 8) :=
  let st := keygenLevels m aes height dpfip keys i
  let dpfl := fun j => prgEvalAllAndXor m (.expand j i) aes (st.hats j)
  let sig := pathBit (dpfip.index 0 + dpfip.index 1).value (height - 1 - i)
  ⟨Xor.of (levelSigma dpfl sig), fun d => Xor.of (levelTau dpfl sig d)⟩

/-- The root of the tree that the dealer grows for party `b`. -/
def dealtRoot (b : Fin 2) : Node (Xor 128) (Xor 8) :=
  ⟨Xor.of (keys b), Xor.of (BitVec.ofNat 8 b)⟩

/-- The layer of depth `i` of the tree that the dealer grows for party `b`. -/
def dealtLayer (b : Fin 2) (i : Nat) : Fin (2 ^ i) → Node (Xor 128) (Xor 8) :=
  layer (aesGenerator aes) (dealtRoot keys b) (dealtWords m aes height dpfip keys) i

/-- What the dealer's level loop has computed after `i` levels. -/
structure Planted {i : Nat} (st : KeygenState i) : Prop where
  nodes : ∀ b j, dealtLayer m aes height dpfip keys b i j =
    ⟨Xor.of (st.hats b j), Xor.of (st.hatt b j)⟩
  zs0 : ∀ (k : Fin i) d, Xor.of (st.zs0 d k) =
    seedSum (aesGenerator aes) (dealtLayer m aes height dpfip keys 0 k) d
  zs1 : ∀ (k : Fin i) d, Xor.of (st.zs1 d k) =
    seedSum (aesGenerator aes) (dealtLayer m aes height dpfip keys 1 k) d
  zt0 : ∀ (k : Fin i) d, Xor.of (st.zt0 d k) =
    bitSum (aesGenerator aes) (dealtLayer m aes height dpfip keys 0 k) d
  zt1 : ∀ (k : Fin i) d, Xor.of (st.zt1 d k) =
    bitSum (aesGenerator aes) (dealtLayer m aes height dpfip keys 1 k) d
  sigma : ∀ k : Fin i, Xor.of (st.sigma k) = (dealtWords m aes height dpfip keys k).sigma
  tau : ∀ (k : Fin i) d, Xor.of (st.tau d k) = (dealtWords m aes height dpfip keys k).tau d

variable {m aes height dpfip keys}

theorem run_correctBoth {nt size : Nat} (s : Schedule nt (size * 2))
    (prevt : Fin 2 → Fin size → Byte) (dpfl : Fin 2 → DpfLayer (size * 2)) (sigma : Block)
    (tau : Fin 2 → Byte)
    (init : Fin 2 → (Fin (size * 2) → Block) × (Fin (size * 2) → Byte)) (b : Fin 2)
    (j : Fin (size * 2)) :
    let layers := s.run (correctBoth prevt dpfl sigma tau) init
    ((layers b).1 j, (layers b).2 j) =
      correctNode (prevt b j.divNat) ((dpfl b).nodes j) ((dpfl b).currt j) sigma (tau j.modNat) := by
  have hats := s.run_store (correctBoth prevt dpfl sigma tau) (fun layers => (layers b).1)
    (fun j => (correctNode (prevt b j.divNat) ((dpfl b).nodes j) ((dpfl b).currt j) sigma
      (tau j.modNat)).1)
    (fun j t layers => by match b with | 0 => rfl | 1 => rfl) init
  have hatt := s.run_store (correctBoth prevt dpfl sigma tau) (fun layers => (layers b).2)
    (fun j => (correctNode (prevt b j.divNat) ((dpfl b).nodes j) ((dpfl b).currt j) sigma
      (tau j.modNat)).2)
    (fun j t layers => by match b with | 0 => rfl | 1 => rfl) init
  exact Prod.ext (congrFun hats j) (congrFun hatt j)

variable (m aes height dpfip keys) in
theorem keygenLevel_nodes (i : Nat) (b : Fin 2) (j : Fin (2 ^ i * 2)) :
    let st := keygenLevels m aes height dpfip keys i
    let st' := keygenLevels m aes height dpfip keys (i + 1)
    (st'.hats b j, st'.hatt b j) =
      correctNode (st.hatt b j.divNat) (childSeed aes (st.hats b j.divNat) j.modNat)
        (childBit aes (st.hats b j.divNat) j.modNat)
        (dealtWords m aes height dpfip keys i).sigma.word
        ((dealtWords m aes height dpfip keys i).tau j.modNat).word := by
  intro st st'
  rw [← prgEvalAllAndXor_nodes m (.expand b i), ← prgEvalAllAndXor_currt m (.expand b i)]
  exact run_correctBoth _ _ _ _ _ _ b j

theorem planted_sum {i : Nat} {st : KeygenState i}
    (planted : Planted m aes height dpfip keys st) (b d : Fin 2) :
    Xor.of ((prgEvalAllAndXor m (.expand b i) aes (st.hats b)).zs d) =
      seedSum (aesGenerator aes) (dealtLayer m aes height dpfip keys b i) d ∧
    Xor.of ((prgEvalAllAndXor m (.expand b i) aes (st.hats b)).zt d) =
      bitSum (aesGenerator aes) (dealtLayer m aes height dpfip keys b i) d := by
  rw [prgEvalAllAndXor_zs, prgEvalAllAndXor_zt]
  simp only [seedSum, bitSum, planted.nodes]
  exact ⟨rfl, rfl⟩

variable (m aes height dpfip keys) in
theorem planted_keygenLevels :
    ∀ i, Planted m aes height dpfip keys (keygenLevels m aes height dpfip keys i)
  | 0 =>
    { nodes := fun _ _ => rfl
      zs0 := fun k => k.elim0
      zs1 := fun k => k.elim0
      zt0 := fun k => k.elim0
      zt1 := fun k => k.elim0
      sigma := fun k => k.elim0
      tau := fun k => k.elim0 }
  | i + 1 => by
    have planted := planted_keygenLevels i
    constructor
    · intro b j
      have parent := planted.nodes b j.divNat
      have node := keygenLevel_nodes m aes height dpfip keys i b j
      show child (aesGenerator aes) (dealtWords m aes height dpfip keys i)
        (dealtLayer m aes height dpfip keys b i j.divNat) j.modNat = _
      rw [parent, child_correctNode]
      simp only [← node]
    · exact fun k d => push_forall
        (P := fun k z => Xor.of z =
          seedSum (aesGenerator aes) (dealtLayer m aes height dpfip keys 0 k) d)
        (fun k => planted.zs0 k d) (planted_sum planted 0 d).1 k
    · exact fun k d => push_forall
        (P := fun k z => Xor.of z =
          seedSum (aesGenerator aes) (dealtLayer m aes height dpfip keys 1 k) d)
        (fun k => planted.zs1 k d) (planted_sum planted 1 d).1 k
    · exact fun k d => push_forall
        (P := fun k z => Xor.of z =
          bitSum (aesGenerator aes) (dealtLayer m aes height dpfip keys 0 k) d)
        (fun k => planted.zt0 k d) (planted_sum planted 0 d).2 k
    · exact fun k d => push_forall
        (P := fun k z => Xor.of z =
          bitSum (aesGenerator aes) (dealtLayer m aes height dpfip keys 1 k) d)
        (fun k => planted.zt1 k d) (planted_sum planted 1 d).2 k
    · exact fun k => push_forall
        (P := fun k z => Xor.of z = (dealtWords m aes height dpfip keys k).sigma)
        planted.sigma rfl k
    · exact fun k d => push_forall
        (P := fun k z => Xor.of z = (dealtWords m aes height dpfip keys k).tau d)
        (fun k => planted.tau k d) rfl k

/-- The direction of the path at level `i` of a tree of the given height. -/
def pathDirs (height : Nat) (index : BitVec 64) (i : Nat) : Fin 2 := pathDir index (height - 1 - i)

theorem levelTau_dir {size : Nat} (dpfl : Fin 2 → DpfLayer size) (dir d : Fin 2) :
    levelTau dpfl (BitVec.ofNat 8 dir) d =
      (dpfl 0).zt d ^^^ (dpfl 1).zt d ^^^ (if d = dir then 1#8 else 0#8) := by
  match dir, d with
  | 0, 0 => simp [levelTau]
  | 0, 1 => simp [levelTau]
  | 1, 0 => simp [levelTau, BitVec.xor_assoc]
  | 1, 1 => simp [levelTau]

/-- The dealer's correction word of level `i` fits the two layers of level `i`. -/
theorem dealtWords_correct (i : Nat) :
    Correct (aesGenerator aes) (dealtLayer m aes height dpfip keys 0 i)
      (dealtLayer m aes height dpfip keys 1 i) (dealtWords m aes height dpfip keys i)
      (pathDirs height (dpfip.index 0 + dpfip.index 1).value i) := by
  have planted := planted_keygenLevels m aes height dpfip keys i
  have bit := pathBit_eq (dpfip.index 0 + dpfip.index 1).value (height - 1 - i)
  constructor
  · rw [dealtWords]
    simp only [bit]
    rw [levelSigma, bitIndex_other, Xor.of_xor, (planted_sum planted 0 _).1,
      (planted_sum planted 1 _).1]
    rfl
  · intro d
    rw [dealtWords]
    simp only [bit]
    rw [levelTau_dir, Xor.of_xor, Xor.of_xor, (planted_sum planted 0 d).2,
      (planted_sum planted 1 d).2, apply_ite Xor.of]
    rfl

variable (m aes height dpfip keys) in
theorem dealtWords_corrects :
    Corrects (aesGenerator aes) (dealtRoot keys 0) (dealtRoot keys 1)
      (dealtWords m aes height dpfip keys)
      (pathDirs height (dpfip.index 0 + dpfip.index 1).value) height :=
  fun i _ => dealtWords_correct i

end Levels

/-! ## The result of key generation -/

section Result

variable (m : Machine) (bitlength : Nat) (aes : Cipher) (height w : Nat) (dpfip : DpfInput)
  (keys : Fin 2 → Block)

theorem keygen_words (b : Fin 2) {i : Nat} (hi : i < height) :
    keyWords ((dpfKeygen m bitlength aes height w dpfip keys).key b) i =
      dealtWords m aes height dpfip keys i := by
  have planted := planted_keygenLevels m aes height dpfip keys height
  refine (keyWords_of_lt ((dpfKeygen m bitlength aes height w dpfip keys).key b) hi).trans ?_
  refine Word.ext (planted.sigma ⟨i, hi⟩) (funext fun d => ?_)
  match d with
  | 0 => exact planted.tau ⟨i, hi⟩ 0
  | 1 => exact planted.tau ⟨i, hi⟩ 1

/-- The trees of the returned keys are the trees that the dealer grew. -/
theorem keygen_layer (b : Fin 2) {i : Nat} (hi : i ≤ height) :
    keyLayer aes b ((dpfKeygen m bitlength aes height w dpfip keys).key b) i =
      dealtLayer m aes height dpfip keys b i :=
  layer_congr (aesGenerator aes) (fun _ hk => keygen_words m bitlength aes height w dpfip keys b hk)
    i hi

theorem keygen_zs0 (k : Fin height) (d : Fin 2) :
    Xor.of ((dpfKeygen m bitlength aes height w dpfip keys).ip2.zs0 d k) =
      seedSum (aesGenerator aes) (dealtLayer m aes height dpfip keys 0 k) d :=
  (planted_keygenLevels m aes height dpfip keys height).zs0 k d

theorem keygen_zs1 (k : Fin height) (d : Fin 2) :
    Xor.of ((dpfKeygen m bitlength aes height w dpfip keys).ip2.zs1 d k) =
      seedSum (aesGenerator aes) (dealtLayer m aes height dpfip keys 1 k) d :=
  (planted_keygenLevels m aes height dpfip keys height).zs1 k d

theorem keygen_zt0 (k : Fin height) (d : Fin 2) :
    Xor.of ((dpfKeygen m bitlength aes height w dpfip keys).ip2.zt0 d k) =
      bitSum (aesGenerator aes) (dealtLayer m aes height dpfip keys 0 k) d :=
  (planted_keygenLevels m aes height dpfip keys height).zt0 k d

theorem keygen_zt1 (k : Fin height) (d : Fin 2) :
    Xor.of ((dpfKeygen m bitlength aes height w dpfip keys).ip2.zt1 d k) =
      bitSum (aesGenerator aes) (dealtLayer m aes height dpfip keys 1 k) d :=
  (planted_keygenLevels m aes height dpfip keys height).zt1 k d

theorem keygenLeaves_T (st : KeygenState height) :
    merge (fun total thread => total + thread) 0#32 (keygenLeaves m bitlength aes w st).threadT0 =
      ∑ j, (st.hatt 0 j).setWidth 32 ∧
    merge (fun total thread => total + thread) 0#32 (keygenLeaves m bitlength aes w st).threadT1 =
      ∑ j, (st.hatt 1 j).setWidth 32 :=
  ⟨merge_count (m.schedule (.leaves 0) (2 ^ height)) (keygenLeaf m aes w st.hats st.hatt)
      KeygenLeafState.threadT0 _ (fun _ _ _ => rfl) _ fun _ => rfl,
    merge_count (m.schedule (.leaves 0) (2 ^ height)) (keygenLeaf m aes w st.hats st.hatt)
      KeygenLeafState.threadT1 _ (fun _ _ _ => rfl) _ fun _ => rfl⟩

theorem keygen_T (b : Fin 2) :
    (dpfKeygen m bitlength aes height w dpfip keys).ip2.T b =
      ∑ j, (dealtLayer m aes height dpfip keys b height j).bit.word.setWidth 32 := by
  have planted := planted_keygenLevels m aes height dpfip keys height
  simp only [planted.nodes, Xor.word_of]
  match b with
  | 0 => exact (keygenLeaves_T m bitlength aes height w _).1
  | 1 => exact (keygenLeaves_T m bitlength aes height w _).2

variable {bitlength w}

theorem keygenLeaves_W (hw : w ≤ 64) (low : w ≤ bitlength) (high : bitlength ≤ 64)
    (st : KeygenState height) (b e : Fin 2) :
    let leaves := keygenLeaves m bitlength aes w st
    let total := merge addPair (fun _ => GroupElement.ofValue 0#64 w)
      (![leaves.threadW0, leaves.threadW1] b)
    (total e).bitsize = w ∧ (total e).res w = ∑ j, leafConv aes w e (Xor.of (st.hats b j)) := by
  simp only [← convert_res aes m.beyond hw]
  revert b
  refine Fin.forall_fin_two.mpr ⟨?_, ?_⟩
  · exact merge_addPair hw (m.schedule (.leaves 0) (2 ^ height)) (keygenLeaf m aes w st.hats st.hatt)
      KeygenLeafState.threadW0 (fun j => convert aes m.beyond w 2 (st.hats 0 j)) (fun _ _ _ => rfl)
      _ (threadWInit_wide hw low high) (threadWInit_res bitlength w w) e
  · exact merge_addPair hw (m.schedule (.leaves 0) (2 ^ height)) (keygenLeaf m aes w st.hats st.hatt)
      KeygenLeafState.threadW1 (fun j => convert aes m.beyond w 2 (st.hats 1 j)) (fun _ _ _ => rfl)
      _ (threadWInit_wide hw low high) (threadWInit_res bitlength w w) e

theorem keygen_W (hw : w ≤ 64) (low : w ≤ bitlength) (high : bitlength ≤ 64) (b e : Fin 2) :
    ((dpfKeygen m bitlength aes height w dpfip keys).ip2.W b e).bitsize = w ∧
    ((dpfKeygen m bitlength aes height w dpfip keys).ip2.W b e).res w =
      leafSum (leafConv aes w e) (dealtLayer m aes height dpfip keys b height) := by
  have planted := planted_keygenLevels m aes height dpfip keys height
  have leaves := fun b => keygenLeaves_W m aes height hw low high
    (keygenLevels m aes height dpfip keys height) b e
  simp only [leafSum, planted.nodes]
  revert b
  exact Fin.forall_fin_two.mpr ⟨leaves 0, leaves 1⟩

/-- The final correction word of the dealer in terms of its own record. -/
theorem keygen_gamma (b e : Fin 2) :
    let dealt := dpfKeygen m bitlength aes height w dpfip keys
    (dealt.key b).gamma e =
      keygenGamma ((dealt.ip2.T 0).slt (dealt.ip2.T 1)) (dealt.ip2.W 0) (dealt.ip2.W 1)
        (betaShares w (dpfip.alpha 0) (dpfip.alpha 1)) e := by
  match e with
  | 0 => rfl
  | 1 => rfl

end Result

end DpfPir
