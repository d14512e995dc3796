import DpfPir.PointFunction

/-!
# Parallel and sequential reductions

The loops of `dpf.cpp` run on `nt` threads. Each thread sums up what it meets, and a
sequential loop merges the sums of the threads. This module says that the results
are those of a sequential program, for every number of threads and every assignment
of iterations to threads.

Results:
1. `evalAll_eq`, `dpfKeygen_eq`: keys, packs and outputs depend neither on the
   machine nor on the global `bitlength`, when that is not below the output width.
2. `ExactCounts`: no addition to an `int` total overflows, in any iteration and in
   any step of the merge (`exactCounts`).
3. `parallel_eq_sequential`: the expansion of a layer, key generation and full-domain
   evaluation compute the plain sums over the layer and over the leaves.
-/

namespace DpfPir

open LittleEndian Words ParallelLoop CorrectionTree

/-! ## Results do not depend on the machine -/

section Machines

variable (m m' : Machine) (aes : Cipher)

theorem prgEvalAllAndXor_eq (loop loop' : Loop) {size : Nat} (keynodes : Fin size → Block) :
    prgEvalAllAndXor m loop aes keynodes = prgEvalAllAndXor m' loop' aes keynodes := by
  refine DpfLayer.ext ?_ ?_ ?_ ?_
  · funext j
    rw [prgEvalAllAndXor_nodes, prgEvalAllAndXor_nodes]
  · funext j
    rw [prgEvalAllAndXor_currt, prgEvalAllAndXor_currt]
  · funext d
    exact (prgEvalAllAndXor_zs m loop aes keynodes d).trans
      (prgEvalAllAndXor_zs m' loop' aes keynodes d).symm
  · funext d
    exact (prgEvalAllAndXor_zt m loop aes keynodes d).trans
      (prgEvalAllAndXor_zt m' loop' aes keynodes d).symm

theorem evalLevels_eq (party : Fin 2) (key : DpfKey) :
    ∀ i (hi : i ≤ key.height), evalLevels m aes party key i hi = evalLevels m' aes party key i hi
  | 0, _ => rfl
  | i + 1, hi => by
    have before := evalLevels_eq party key i (Nat.le_of_succ_le hi)
    have nodes : ∀ j : Fin (2 ^ i * 2),
        ((evalLevels m aes party key (i + 1) hi).hats j,
          (evalLevels m aes party key (i + 1) hi).hatt j) =
        ((evalLevels m' aes party key (i + 1) hi).hats j,
          (evalLevels m' aes party key (i + 1) hi).hatt j) := by
      intro j
      rw [evalLevels, evalLevels, evalLevel_nodes, evalLevel_nodes, before]
    refine EvalState.ext ?_ ?_ ?_ ?_ ?_ ?_
    · exact funext fun j => congrArg Prod.fst (nodes j)
    · exact funext fun j => congrArg Prod.snd (nodes j)
    all_goals
      rw [evalLevels, evalLevels, before, evalLevel, evalLevel,
        prgEvalAllAndXor_eq m m' aes (.expand party i) (.expand party i)]

/-- Full-domain evaluation depends neither on the machine nor on the global
`bitlength`, when that is not below the output width. -/
theorem evalAll_eq {bitlength bitlength' : Nat} (party : Fin 2) (key : DpfKey)
    (index payload : GroupElement) (hw : key.Bout.toNat ≤ 64)
    (low : key.Bout.toNat ≤ bitlength) (high : bitlength ≤ 64)
    (low' : key.Bout.toNat ≤ bitlength') (high' : bitlength' ≤ 64) :
    dpfEvalAll m bitlength aes party key index payload =
      dpfEvalAll m' bitlength' aes party key index payload := by
  have levels := evalLevels_eq m m' aes party key key.height le_rfl
  let st := evalLevels m' aes party key key.height le_rfl
  have t : (evalLeaves m bitlength aes party key st).t =
      (evalLeaves m' bitlength' aes party key st).t := by
    funext j
    rw [evalLeaves_t, evalLeaves_t]
  have out : (evalLeaves m bitlength aes party key st).out =
      (evalLeaves m' bitlength' aes party key st).out := by
    funext j
    rw [evalLeaves_out, evalLeaves_out, convert_inside aes m.beyond m'.beyond hw]
  have T := (evalLeaves_T m bitlength aes party key st).trans
    (evalLeaves_T m' bitlength' aes party key st).symm
  have W : merge addPair (fun _ => GroupElement.ofValue 0#64 key.Bout.toNat)
        (evalLeaves m bitlength aes party key st).threadW =
      merge addPair (fun _ => GroupElement.ofValue 0#64 key.Bout.toNat)
        (evalLeaves m' bitlength' aes party key st).threadW := by
    funext e
    obtain ⟨width, value⟩ := evalLeaves_W m bitlength aes party key st hw rfl low high e
    obtain ⟨width', value'⟩ := evalLeaves_W m' bitlength' aes party key st hw rfl low' high' e
    exact GroupElement.ext_res width width' (value.trans value'.symm)
  unfold dpfEvalAll
  simp only [levels]
  rw [t, out, T, W]

theorem keygenLevels_eq (height : Nat) (dpfip : DpfInput) (keys : Fin 2 → Block) :
    ∀ i, keygenLevels m aes height dpfip keys i = keygenLevels m' aes height dpfip keys i
  | 0 => rfl
  | i + 1 => by
    have before := keygenLevels_eq height dpfip keys i
    have expand : ∀ (b : Fin 2) (keynodes : Fin (2 ^ i) → Block),
        prgEvalAllAndXor m (.expand b i) aes keynodes =
          prgEvalAllAndXor m' (.expand b i) aes keynodes :=
      fun b => prgEvalAllAndXor_eq m m' aes (.expand b i) (.expand b i)
    have words : dealtWords m aes height dpfip keys i = dealtWords m' aes height dpfip keys i := by
      unfold dealtWords
      simp only [before, expand]
    have nodes : ∀ b (j : Fin (2 ^ i * 2)),
        ((keygenLevels m aes height dpfip keys (i + 1)).hats b j,
          (keygenLevels m aes height dpfip keys (i + 1)).hatt b j) =
        ((keygenLevels m' aes height dpfip keys (i + 1)).hats b j,
          (keygenLevels m' aes height dpfip keys (i + 1)).hatt b j) := by
      intro b j
      rw [keygenLevel_nodes, keygenLevel_nodes, before, words]
    refine KeygenState.ext ?_ ?_ ?_ ?_ ?_ ?_ ?_ ?_
    · exact funext fun b => funext fun j => congrArg Prod.fst (nodes b j)
    · exact funext fun b => funext fun j => congrArg Prod.snd (nodes b j)
    all_goals
      rw [keygenLevels, keygenLevels, before, keygenLevel, keygenLevel]
      simp only [expand]

/-- Key generation depends neither on the machine nor on the global `bitlength`, when
that is not below the output width. -/
theorem dpfKeygen_eq {bitlength bitlength' : Nat} (height : Nat) {w : Nat} (dpfip : DpfInput)
    (keys : Fin 2 → Block) (hw : w ≤ 64) (low : w ≤ bitlength) (high : bitlength ≤ 64)
    (low' : w ≤ bitlength') (high' : bitlength' ≤ 64) :
    dpfKeygen m bitlength aes height w dpfip keys =
      dpfKeygen m' bitlength' aes height w dpfip keys := by
  have levels := keygenLevels_eq m m' aes height dpfip keys height
  let st := keygenLevels m' aes height dpfip keys height
  obtain ⟨T0, T1⟩ := keygenLeaves_T m bitlength aes height w st
  obtain ⟨T0', T1'⟩ := keygenLeaves_T m' bitlength' aes height w st
  have W : ∀ b,
      merge addPair (fun _ => GroupElement.ofValue 0#64 w)
        (![(keygenLeaves m bitlength aes w st).threadW0,
          (keygenLeaves m bitlength aes w st).threadW1] b) =
      merge addPair (fun _ => GroupElement.ofValue 0#64 w)
        (![(keygenLeaves m' bitlength' aes w st).threadW0,
          (keygenLeaves m' bitlength' aes w st).threadW1] b) := by
    intro b
    funext e
    obtain ⟨width, value⟩ := keygenLeaves_W m aes height hw low high st b e
    obtain ⟨width', value'⟩ := keygenLeaves_W m' aes height hw low' high' st b e
    exact GroupElement.ext_res width width' (value.trans value'.symm)
  have W0 := W 0
  have W1 := W 1
  simp only [Matrix.cons_val_zero, Matrix.cons_val_one] at W0 W1
  unfold dpfKeygen
  simp only [levels]
  rw [T0, T0', T1, T1', W0, W1]

end Machines

/-! ## Totals of type `int` -/

/-- No addition to an `int` accumulator overflows, neither in an iteration of the loop
nor in a step of the merge that follows it. -/
structure ExactCounts {nt n : Nat} {σ : Type} (s : Schedule nt n)
    (body : Fin n → Fin nt → σ → σ) (init : σ) (acc : σ → Fin nt → BitVec 32)
    (count : Fin n → Byte) : Prop where
  iteration : ∀ before j t after, s.order = before ++ (j, t) :: after →
    let st := before.foldl (fun st it => body it.1 it.2 st) init
    (acc (body j t st) t).toInt = (acc st t).toInt + (count j).toNat
  merge : ∀ before t after, List.finRange nt = before ++ t :: after →
    let thread := acc (s.run body init)
    let total := before.foldl (fun total u => total + thread u) 0#32
    (total + thread t).toInt = total.toInt + (thread t).toInt

section Counts

variable {nt n : Nat} {σ : Type}

theorem toInt_add_of_lt {a b : BitVec 32} (small : a.toNat + b.toNat < 2 ^ 31) :
    (a + b).toNat = a.toNat + b.toNat ∧ (a + b).toInt = a.toInt + b.toInt := by
  have sum : (a + b).toNat = a.toNat + b.toNat := by
    rw [BitVec.toNat_add, Nat.mod_eq_of_lt (by omega)]
  refine ⟨sum, ?_⟩
  rw [BitVec.toInt_eq_toNat_of_lt (by omega), BitVec.toInt_eq_toNat_of_lt (by omega),
    BitVec.toInt_eq_toNat_of_lt (by omega), sum, Nat.cast_add]

theorem foldl_add_toNat (thread : Fin nt → BitVec 32) :
    ∀ (l : List (Fin nt)) (total : BitVec 32),
      total.toNat + (l.map fun t => (thread t).toNat).sum < 2 ^ 31 →
      (l.foldl (fun total t => total + thread t) total).toNat =
        total.toNat + (l.map fun t => (thread t).toNat).sum
  | [], _, _ => rfl
  | t :: l, total, small => by
    rw [List.map_cons, List.sum_cons] at small
    have first := (toInt_add_of_lt (a := total) (b := thread t) (by omega)).1
    have rest := foldl_add_toNat thread l (total + thread t) (by omega)
    rw [List.foldl_cons, rest, first, List.map_cons, List.sum_cons, add_assoc]

/-- The accumulators together hold the number of set bits of the iterations in `S`. -/
def Counted (acc : σ → Fin nt → BitVec 32) (count : Fin n → Byte) (S : Finset (Fin n)) (st : σ) :
    Prop :=
  ∑ t, (acc st t).toNat = ∑ i ∈ S, (count i).toNat

variable {acc : σ → Fin nt → BitVec 32} {count : Fin n → Byte} {S : Finset (Fin n)} {st : σ}

theorem Counted.sum_le (counted : Counted acc count S st) (hn : n ≤ 2 ^ 30)
    (bits : ∀ i, (count i).toNat ≤ 1) : ∑ t, (acc st t).toNat ≤ 2 ^ 30 := by
  calc ∑ t, (acc st t).toNat
      = ∑ i ∈ S, (count i).toNat := counted
    _ ≤ ∑ i ∈ S, 1 := Finset.sum_le_sum fun i _ => bits i
    _ = S.card := by rw [Finset.sum_const, smul_eq_mul, mul_one]
    _ ≤ n := by simpa using S.card_le_univ
    _ ≤ 2 ^ 30 := hn

/-- One more bit fits into any of the accumulators. -/
theorem Counted.addition (counted : Counted acc count S st) (hn : n ≤ 2 ^ 30)
    (bits : ∀ i, (count i).toNat ≤ 1) (i : Fin n) (t : Fin nt) :
    (acc st t + (count i).setWidth 32).toNat = (acc st t).toNat + (count i).toNat ∧
    (acc st t + (count i).setWidth 32).toInt = (acc st t).toInt + (count i).toNat := by
  have bit := bits i
  have widened : ((count i).setWidth 32).toNat = (count i).toNat := by
    rw [BitVec.toNat_setWidth, Nat.mod_eq_of_lt (by omega)]
  -- one accumulator holds at most what all of them hold
  have one : (acc st t).toNat ≤ ∑ t, (acc st t).toNat :=
    Finset.single_le_sum (fun u _ => Nat.zero_le (acc st u).toNat) (Finset.mem_univ t)
  have all := counted.sum_le hn bits
  obtain ⟨asNat, asInt⟩ := toInt_add_of_lt (a := acc st t) (b := (count i).setWidth 32) (by omega)
  have single : ((count i).setWidth 32).toInt = (count i).toNat := by
    rw [BitVec.toInt_eq_toNat_of_lt (by omega), widened]
  rw [widened] at asNat
  rw [single] at asInt
  exact ⟨asNat, asInt⟩

theorem Counted.step (counted : Counted acc count S st) (hn : n ≤ 2 ^ 30)
    (bits : ∀ i, (count i).toNat ≤ 1) {i : Fin n} (fresh : i ∉ S) {t : Fin nt} {next : σ}
    (stores : acc next = Function.update (acc st) t (acc st t + (count i).setWidth 32)) :
    Counted acc count (insert i S) next := by
  have before : ∑ t, (acc st t).toNat = ∑ i ∈ S, (count i).toNat := counted
  have added := (counted.addition hn bits i t).1
  show ∑ u, (acc next u).toNat = _
  rw [stores, sum_update_acc BitVec.toNat (acc st) t _ _ added, before, Finset.sum_insert fresh,
    add_comm]

/-- Bits counted over at most `2 ^ 30` iterations fit into an `int` all the way. -/
theorem exactCounts (hn : n ≤ 2 ^ 30) (s : Schedule nt n) (body : Fin n → Fin nt → σ → σ)
    (acc : σ → Fin nt → BitVec 32) (count : Fin n → Byte)
    (stores : ∀ i t st, acc (body i t st) =
      Function.update (acc st) t (acc st t + (count i).setWidth 32))
    (init : σ) (start : ∀ t, acc init t = 0#32) (bits : ∀ i, (count i).toNat ≤ 1) :
    ExactCounts s body init acc count := by
  have empty : Counted acc count ∅ init := by
    show ∑ t, (acc init t).toNat = _
    rw [Finset.sum_empty]
    exact Finset.sum_eq_zero fun t _ => congrArg BitVec.toNat (start t)
  have step : ∀ S i t st, i ∉ S → Counted acc count S st →
      Counted acc count (insert i S) (body i t st) := by
    intro S i t st fresh counted
    exact counted.step hn bits fresh (stores i t st)
  constructor
  · intro before j t after now st
    obtain ⟨S, -, counted⟩ := s.run_induct_before empty step now
    rw [stores, Function.update_self]
    exact (counted.addition hn bits j t).2
  · intro before t after now thread total
    have final : ∑ t, (thread t).toNat ≤ 2 ^ 30 := (s.run_induct empty step).sum_le hn bits
    -- the threads that are merged up to now hold a part of the final sum
    have part : (before.map fun u => (thread u).toNat).sum + (thread t).toNat ≤ 2 ^ 30 := by
      rw [Fin.sum_univ_def, now, List.map_append, List.sum_append, List.map_cons,
        List.sum_cons] at final
      omega
    have merged : total.toNat = (0#32).toNat + (before.map fun u => (thread u).toNat).sum :=
      foldl_add_toNat thread before 0#32 (by rw [BitVec.toNat_ofNat]; omega)
    rw [BitVec.toNat_ofNat] at merged
    exact (toInt_add_of_lt (by omega)).2

end Counts

/-! ## The sequential results -/

/-- The expansion of a layer without threads: children of their own, and plain loops
over the layer for the sums. -/
structure SequentialExpansion (aes : Cipher) {size : Nat} (keynodes : Fin size → Block)
    (dpfl : DpfLayer (size * 2)) : Prop where
  left : ∀ i : Fin size,
    dpfl.nodes ⟨2 * i, by omega⟩ = aes (keynodes i) (toBlock 0#64 0#64) ∧
    dpfl.currt ⟨2 * i, by omega⟩ = lsb (aes (keynodes i) (toBlock 0#64 1#64))
  right : ∀ i : Fin size,
    dpfl.nodes ⟨2 * i + 1, by omega⟩ = aes (keynodes i) (toBlock 0#64 2#64) ∧
    dpfl.currt ⟨2 * i + 1, by omega⟩ = lsb (aes (keynodes i) (toBlock 0#64 3#64))
  zs : ∀ d, dpfl.zs d =
    (List.finRange size).foldl (fun acc i => acc ^^^ childSeed aes (keynodes i) d) 0#128
  zt : ∀ d, dpfl.zt d =
    (List.finRange size).foldl (fun acc i => acc ^^^ childBit aes (keynodes i) d) 0#8

/-- Totals over the leaves that are the plain sums of what the leaves contribute. -/
structure SequentialTotals (w : Nat) {n : Nat} (hatt : Fin n → Byte)
    (gammaInd : Fin n → Fin 2 → GroupElement) (T : BitVec 32) (W : Fin 2 → GroupElement) :
    Prop where
  count : T.toInt = ∑ j, ((hatt j).toNat : ℤ)
  width : ∀ e, (W e).bitsize = w
  sum : ∀ e, (W e).value.toNat = (∑ j, (gammaInd j e).value.toNat) % 2 ^ w

/-- Key generation without threads. -/
structure SequentialKeygen (m : Machine) (aes : Cipher) (height w : Nat) (dpfip : DpfInput)
    (keys : Fin 2 → Block) : Prop where
  totals : ∀ b, SequentialTotals w ((keygenLevels m aes height dpfip keys height).hatt b)
    (fun j => convert aes m.beyond w 2 ((keygenLevels m aes height dpfip keys height).hats b j))
    ((dpfKeygen m w aes height w dpfip keys).ip2.T b)
    ((dpfKeygen m w aes height w dpfip keys).ip2.W b)
  counts : ∀ b, ExactCounts (m.schedule (.leaves 0) (2 ^ height))
    (keygenLeaf m aes w (keygenLevels m aes height dpfip keys height).hats
      (keygenLevels m aes height dpfip keys height).hatt)
    { threadW0 := threadWInit w w
      threadW1 := threadWInit w w
      threadT0 := fun _ => 0#32
      threadT1 := fun _ => 0#32 }
    (fun leaves => ![leaves.threadT0, leaves.threadT1] b)
    ((keygenLevels m aes height dpfip keys height).hatt b)
  machine : ∀ m', dpfKeygen m' w aes height w dpfip keys = dpfKeygen m w aes height w dpfip keys

/-- Full-domain evaluation without threads. -/
structure SequentialEval (m : Machine) (aes : Cipher) (party : Fin 2) (key : DpfKey)
    (index payload : GroupElement) : Prop where
  totals : SequentialTotals key.Bout.toNat (evalLevels m aes party key key.height le_rfl).hatt
    (fun j => convert aes m.beyond key.Bout.toNat 2
      ((evalLevels m aes party key key.height le_rfl).hats j))
    (dpfEvalAll m key.Bout.toNat aes party key index payload).icp.T
    (dpfEvalAll m key.Bout.toNat aes party key index payload).icp.W
  counts : ExactCounts (m.schedule (.leaves party) (2 ^ key.height))
    (evalLeaf m aes party key (evalLevels m aes party key key.height le_rfl).hats
      (evalLevels m aes party key key.height le_rfl).hatt)
    { threadT := fun _ => 0#32
      threadW := threadWInit key.Bout.toNat key.Bout.toNat
      t := fun _ => 0#8
      out := fun _ _ => GroupElement.ofValue 0#64 key.Bout.toNat }
    LeafState.threadT (evalLevels m aes party key key.height le_rfl).hatt
  machine : ∀ m', dpfEvalAll m' key.Bout.toNat aes party key index payload =
    dpfEvalAll m key.Bout.toNat aes party key index payload

section Sequential

variable (m : Machine) (aes : Cipher)

theorem prgEvalAllAndXor_sequential (loop : Loop) {size : Nat} (keynodes : Fin size → Block) :
    SequentialExpansion aes keynodes (prgEvalAllAndXor m loop aes keynodes) := by
  have cell : ∀ (i : Fin size) (d : Fin 2) (j : Fin (size * 2)), j.val = 2 * i + d →
      (prgEvalAllAndXor m loop aes keynodes).nodes j = childSeed aes (keynodes i) d ∧
      (prgEvalAllAndXor m loop aes keynodes).currt j = childBit aes (keynodes i) d := by
    intro i d j place
    have index : j = childIndex i d := Fin.ext (place.trans (childIndex_val i d).symm)
    rw [prgEvalAllAndXor_nodes, prgEvalAllAndXor_currt, index, divNat_childIndex,
      modNat_childIndex]
    exact ⟨rfl, rfl⟩
  constructor
  · intro i
    exact cell i 0 _ rfl
  · intro i
    exact cell i 1 _ rfl
  · intro d
    rw [← Xor.sum_eq_foldl, ← prgEvalAllAndXor_zs m loop, Xor.word_of]
  · intro d
    rw [← Xor.sum_eq_foldl, ← prgEvalAllAndXor_zt m loop, Xor.word_of]

/-- Sums over leaves with bits, from the layer that the totals count and the residues. -/
theorem sequentialTotals {w n : Nat} (hw : w ≤ 64) (hn : n ≤ 2 ^ 30)
    {L : Fin n → Node (Xor 128) (Xor 8)} (bits : ∀ j, IsBit (aesGenerator aes) (L j).bit)
    {hats : Fin n → Block} {hatt : Fin n → Byte}
    (nodes : ∀ j, L j = ⟨Xor.of (hats j), Xor.of (hatt j)⟩) {W : Fin 2 → GroupElement}
    (sums : ∀ e, (W e).bitsize = w ∧ (W e).res w = leafSum (leafConv aes w e) L) :
    SequentialTotals w hatt (fun j => convert aes m.beyond w 2 (hats j)) (leafCount L) W := by
  constructor
  · rw [toInt_leafCount hn bits]
    simp only [nodes, Xor.word_of]
  · exact fun e => (sums e).1
  · intro e
    refine GroupElement.toNat_of_res (sums e).1 ((sums e).2.trans ?_)
    rw [Nat.cast_sum, leafSum]
    refine Finset.sum_congr rfl fun j _ => ?_
    rw [nodes j]
    exact (convert_res aes m.beyond hw (hats j) e).symm

theorem dpfKeygen_sequential {h w : Nat} (hh : h ≤ 30) (hw : w ≤ 64) (dpfip : DpfInput)
    (keys : Fin 2 → Block) : SequentialKeygen m aes h w dpfip keys := by
  have leaves : 2 ^ h ≤ 2 ^ 30 := Nat.pow_le_pow_right (by decide) hh
  have planted := planted_keygenLevels m aes h dpfip keys h
  have bits : ∀ b j, IsBit (aesGenerator aes) (dealtLayer m aes h dpfip keys b h j).bit := by
    intro b
    refine isBit_layer ?_ (fun i _ d => (dealtWords_correct i).isBit_tau d) h le_rfl
    revert b
    exact Fin.forall_fin_two.mpr ⟨Or.inl rfl, Or.inr rfl⟩
  have small : ∀ b j, ((keygenLevels m aes h dpfip keys h).hatt b j).toNat ≤ 1 := by
    intro b j
    have bit := bit_toNat_le (bits b j)
    rwa [planted.nodes b j] at bit
  refine ⟨?_, ?_, ?_⟩
  · intro b
    rw [keygen_T]
    exact sequentialTotals m aes hw leaves (bits b) (planted.nodes b)
      (keygen_W m aes h dpfip keys hw le_rfl hw b)
  · refine Fin.forall_fin_two.mpr ⟨?_, ?_⟩
    · exact exactCounts leaves _ _ _ _ (fun _ _ _ => rfl) _ (fun _ => rfl) (small 0)
    · exact exactCounts leaves _ _ _ _ (fun _ _ _ => rfl) _ (fun _ => rfl) (small 1)
  · intro m'
    exact dpfKeygen_eq m' m aes h dpfip keys hw le_rfl hw le_rfl hw

theorem dpfEvalAll_sequential (party : Fin 2) (key : DpfKey) (index payload : GroupElement)
    (hh : key.height ≤ 30) (hw : key.Bout.toNat ≤ 64)
    (tau0 : ∀ k, key.tau0 k = 0#8 ∨ key.tau0 k = 1#8)
    (tau1 : ∀ k, key.tau1 k = 0#8 ∨ key.tau1 k = 1#8) :
    SequentialEval m aes party key index payload := by
  have leaves : 2 ^ key.height ≤ 2 ^ 30 := Nat.pow_le_pow_right (by decide) hh
  have grown := grown_evalLevels m aes party key key.height le_rfl
  have bits : ∀ j, IsBit (aesGenerator aes) (keyLayer aes party key key.height j).bit := by
    refine isBit_layer ?_ ?_ key.height le_rfl
    · revert party
      exact Fin.forall_fin_two.mpr ⟨fun _ => Or.inl rfl, fun _ => Or.inr rfl⟩
    · intro i hi
      rw [keyWords_of_lt key hi]
      exact Fin.forall_fin_two.mpr ⟨tau0 ⟨i, hi⟩, tau1 ⟨i, hi⟩⟩
  have small : ∀ j, ((evalLevels m aes party key key.height le_rfl).hatt j).toNat ≤ 1 := by
    intro j
    have bit := bit_toNat_le (bits j)
    rwa [grown.nodes j] at bit
  refine ⟨?_, ?_, ?_⟩
  · rw [evalAll_T]
    exact sequentialTotals m aes hw leaves bits grown.nodes
      (evalAll_W m key.Bout.toNat aes party key index payload hw rfl le_rfl hw)
  · exact exactCounts leaves _ _ _ _ (fun _ _ _ => rfl) _ (fun _ => rfl) small
  · intro m'
    exact evalAll_eq m' m aes party key index payload hw le_rfl hw le_rfl hw

/-- Every parallel reduction has the result of the sequential one. -/
theorem parallel_eq_sequential :
    (∀ (loop : Loop) {size : Nat} (keynodes : Fin size → Block),
      SequentialExpansion aes keynodes (prgEvalAllAndXor m loop aes keynodes)) ∧
    (∀ {h w : Nat}, h ≤ 30 → w ≤ 64 → ∀ (dpfip : DpfInput) (keys : Fin 2 → Block),
      SequentialKeygen m aes h w dpfip keys) ∧
    ∀ (party : Fin 2) (key : DpfKey) (index payload : GroupElement), key.height ≤ 30 →
      key.Bout.toNat ≤ 64 → (∀ k, key.tau0 k = 0#8 ∨ key.tau0 k = 1#8) →
      (∀ k, key.tau1 k = 0#8 ∨ key.tau1 k = 1#8) →
      SequentialEval m aes party key index payload :=
  ⟨prgEvalAllAndXor_sequential m aes, dpfKeygen_sequential m aes, dpfEvalAll_sequential m aes⟩

end Sequential

theorem parallel_eq_sequential_toy :
    SequentialKeygen toyDealer toyCipher 1 8 toyInput toySeeds ∧
    SequentialEval toyDealer toyCipher 1 ((toyKeygen toyInput).key 1) (toyInput.index 1)
      (toyInput.alpha 1) := by
  obtain ⟨-, keygen, eval⟩ := parallel_eq_sequential toyDealer toyCipher
  exact ⟨keygen (by decide) (by decide) toyInput toySeeds,
    eval 1 _ _ _ (by decide) (by decide) (by decide) (by decide)⟩

end DpfPir
