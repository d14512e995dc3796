import DpfPir.InnerProd
import DpfPir.PointFunction

/-!
# Retrieval

The client's side of a query (`c.cpp`) and the whole computation of an answer: the
client rotates its query by the index shares, the servers multiply their shares
with the rotated database, and the client adds up the two answers and tests them.

Results:
1. `rotate_queriedLeaf`: the leaf that the keys encode meets the queried entry.
2. `checkBlock_iff`: the client's test of one block, by residues.
3. `Fitting.answers`: the answers for fitting keys add up to the queried entry and
   to its product with the payload.
4. `retrieval_correct`: the client obtains the queried entry of every block, and
   its test passes.
-/

namespace DpfPir

open LittleEndian Words ParallelLoop CorrectionTree

/-! ## The client -/

/-- `GroupElement(q, size) - index[0] - index[1]`: the index at which the servers
start to read their databases. -/
def rotateQuery (q : BitVec 64) (size : Nat) (index : Fin 2 → GroupElement) : GroupElement :=
  GroupElement.ofValue q size - index 0 - index 1

/-- The client's test of one block: the product of the payload and the answer
against the authenticated answer. -/
def checkBlock (bitlength : Nat) (payload o hato : Fin 2 → GroupElement) : Bool :=
  let dbout := o 0 + o 1
  ((payload 0 + payload 1).value.setWidth 128 * dbout.value.setWidth 128 &&&
    ((1#128 <<< bitlength) - 1#128)) == (hato 0 + hato 1).value.setWidth 128

theorem rotateQuery_bitsize (q : BitVec 64) (size : Nat) (index : Fin 2 → GroupElement) :
    (rotateQuery q size index).bitsize = size := rfl

theorem rotateQuery_res {n : Nat} (hn : n ≤ 64) (q : BitVec 64) (index : Fin 2 → GroupElement) :
    (rotateQuery q n index).res n = residue n q - (index 0).res n - (index 1).res n := by
  rw [rotateQuery, GroupElement.res_sub hn rfl, GroupElement.res_sub hn rfl,
    GroupElement.res_ofValue hn]

/-- The leaf that the index shares stand for meets the queried entry. -/
theorem rotate_queriedLeaf {n : Nat} (hn : n ≤ 64) (index : Fin 2 → GroupElement)
    (q leaf : Fin (2 ^ n)) (here : leaf.val = queriedLeaf n index) :
    rotate n (rotateQuery (BitVec.ofNat 64 q) n index) leaf = q := by
  have query : residue n (BitVec.ofNat 64 q.val) = (q.val : ZMod (2 ^ n)) := by
    rw [residue, BitVec.toNat_ofNat, natCast_mod_two_pow hn]
  have shares : ((queriedLeaf n index : Nat) : ZMod (2 ^ n)) =
      (index 0).res n + (index 1).res n := by
    rw [queriedLeaf, natCast_mod_two_pow le_rfl, Nat.cast_add]
    rfl
  -- the shares that the client subtracted come back with the leaf
  have sum : ((leaf.val + (rotateQuery (BitVec.ofNat 64 q) n index).value.toNat : Nat) :
      ZMod (2 ^ n)) = (q.val : ZMod (2 ^ n)) := by
    have rotated := rotateQuery_res hn (BitVec.ofNat 64 q) index
    rw [query] at rotated
    rw [Nat.cast_add, here, shares]
    show _ + GroupElement.res n (rotateQuery (BitVec.ofNat 64 q) n index) = _
    rw [rotated]
    ring
  have same := (ZMod.natCast_eq_natCast_iff' _ _ (2 ^ n)).mp sum
  rw [Nat.mod_eq_of_lt q.isLt] at same
  exact Fin.ext same

theorem checkBlock_iff {w : Nat} (hw : w ≤ 64) {payload o hato : Fin 2 → GroupElement}
    (widths : (payload 0).bitsize = w ∧ (o 0).bitsize = w ∧ (hato 0).bitsize = w) :
    checkBlock w payload o hato = true ↔
      (payload 0 + payload 1).res w * (o 0 + o 1).res w = (hato 0 + hato 1).res w := by
  have bound : ∀ a b : GroupElement, a.bitsize = w → ((a + b).value.setWidth 128).toNat < 2 ^ w := by
    intro a b ha
    have reduced := (a + b).reduced
    rw [GroupElement.bitsize_add, ha] at reduced
    rw [BitVec.toNat_setWidth]
    exact lt_of_le_of_lt (Nat.mod_le _ _) reduced
  have masked : ∀ x : BitVec 128, (x &&& ((1#128 <<< w) - 1#128)).toNat < 2 ^ w ∧
      residue w (x &&& ((1#128 <<< w) - 1#128)) = residue w x := by
    intro x
    refine ⟨?_, residue_lowBits (by omega) x⟩
    exact lt_of_eq_of_lt (lowBits_toNat (by omega) x) (Nat.mod_lt _ (Nat.two_pow_pos w))
  rw [checkBlock, beq_iff_eq, GroupElement.res, GroupElement.res, GroupElement.res,
    ← residue_setWidth (n := 128) (by decide) (payload 0 + payload 1).value,
    ← residue_setWidth (n := 128) (by decide) (o 0 + o 1).value,
    ← residue_setWidth (n := 128) (by decide) (hato 0 + hato 1).value, ← residue_mul (by omega),
    ← (masked _).2]
  exact ⟨fun same => congrArg (residue w) same,
    eq_of_residue (masked _).1 (bound _ _ widths.2.2)⟩

/-! ## The answers -/

/-- The leaf that the index shares stand for, as a position. -/
def queriedPosition (n : Nat) (index : Fin 2 → GroupElement) : Fin (2 ^ n) :=
  ⟨queriedLeaf n index, Nat.mod_lt _ (Nat.two_pow_pos n)⟩

section Answers

variable {aes : Cipher} {n w : Nat} {key : Fin 2 → DpfKey} {index payload : Fin 2 → GroupElement}
  {beta : Fin 2 → ZMod (2 ^ w)}

/-- Weighted sums over the shares of fitting keys pick out the queried leaf. -/
theorem Fitting.weighted (fits : Fitting aes n w (index 0 + index 1).value beta key) (hn : n ≤ 30)
    (indexWidth : ∀ b, (index b).bitsize = n) (weight : Fin (2 ^ n) → ZMod (2 ^ w)) (e : Fin 2) :
    (∑ i, shareValue aes 0 w (key 0).gamma e (keyLayer aes 0 (key 0) n i) * weight i) +
      ∑ i, shareValue aes 1 w (key 1).gamma e (keyLayer aes 1 (key 1) n i) * weight i =
      beta e * weight (queriedPosition n index) := by
  have term : ∀ i : Fin (2 ^ n),
      shareValue aes 0 w (key 0).gamma e (keyLayer aes 0 (key 0) n i) * weight i +
        shareValue aes 1 w (key 1).gamma e (keyLayer aes 1 (key 1) n i) * weight i =
      if i = queriedPosition n index then beta e * weight (queriedPosition n index) else 0 := by
    intro i
    rw [← add_mul, fits.shares hn i e, pointValue, toNat_add_index (by omega) indexWidth]
    have here : i = queriedPosition n index ↔ i.val = queriedLeaf n index := Fin.ext_iff
    by_cases leaf : i = queriedPosition n index
    · rw [if_pos leaf, if_pos (here.mp leaf), leaf]
    · rw [if_neg leaf, if_neg (fun same => leaf (here.mpr same)), zero_mul]
  rw [← Finset.sum_add_distrib, Finset.sum_congr rfl fun i _ => term i, Finset.sum_ite_eq',
    if_pos (Finset.mem_univ _)]

/-- For fitting keys the servers' answers for one database add up to the queried
entry and to its product with the payload. -/
theorem Fitting.answers
    (fits : Fitting aes n w (index 0 + index 1).value (betaRes w (payload 0) (payload 1)) key)
    (hn : n ≤ 30) (hw : w < 64) (height : ∀ b, (key b).height = n)
    (bout : ∀ b, (key b).Bout.toNat = w) (indexWidth : ∀ b, (index b).bitsize = n)
    (m : Fin 2 → Machine) (bitlength : Nat) (index' payload' : Fin 2 → GroupElement)
    (database : Fin (2 ^ n) → GroupElement) (q : Fin (2 ^ n)) :
    ∃ o hato : Fin 2 → GroupElement,
      (∀ b, innerProd w (2 ^ n) (rotateQuery (BitVec.ofNat 64 q) n index) database
        (fun x => (dpfEvalAll (m b) bitlength aes b (key b) (index' b) (payload' b)).out
          (leafAt (height b) x)) = some (o b, hato b)) ∧
      (∀ b, (o b).bitsize = w ∧ (hato b).bitsize = w) ∧
      (o 0 + o 1).res w = (database q).res w ∧
      (hato 0 + hato 1).res w =
        ((payload 0).res w + (payload 1).res w) * (database q).res w := by
  have prod : ∀ b, ∃ o : Fin 2 → GroupElement,
      innerProd w (2 ^ n) (rotateQuery (BitVec.ofNat 64 q) n index) database
        (fun x => (dpfEvalAll (m b) bitlength aes b (key b) (index' b) (payload' b)).out
          (leafAt (height b) x)) = some (o 0, o 1) ∧
      ∀ e, (o e).bitsize = w ∧ (o e).res w =
        ∑ i, shareValue aes b w (key b).gamma e (keyLayer aes b (key b) n i) *
          (database (rotate n (rotateQuery (BitVec.ofNat 64 q) n index) i)).res w := by
    intro b
    obtain ⟨o, run, value⟩ := innerProd_eq (by omega) hw (rotateQuery_bitsize _ n index) database
      fun x => (dpfEvalAll (m b) bitlength aes b (key b) (index' b) (payload' b)).out
        (leafAt (height b) x)
    refine ⟨o, run, fun e => ⟨(value e).1, (value e).2.trans ?_⟩⟩
    refine Finset.sum_congr rfl fun i _ => ?_
    rw [(evalAll_out_at aes (m b) bitlength b (key b) (index' b) (payload' b) hw.le (bout b)
      (height b) i e).2]
  obtain ⟨o0, run0, value0⟩ := prod 0
  obtain ⟨o1, run1, value1⟩ := prod 1
  have entry : rotate n (rotateQuery (BitVec.ofNat 64 q) n index) (queriedPosition n index) = q :=
    rotate_queriedLeaf (by omega) index q _ rfl
  have sum : ∀ e, (o0 e + o1 e).res w =
      betaRes w (payload 0) (payload 1) e * (database q).res w := by
    intro e
    rw [GroupElement.res_add hw.le (value0 e).1, (value0 e).2, (value1 e).2,
      fits.weighted hn indexWidth, entry]
  refine ⟨![o0 0, o1 0], ![o0 1, o1 1], ?_, ?_, ?_, sum 1⟩
  · exact Fin.forall_fin_two.mpr ⟨run0, run1⟩
  · exact Fin.forall_fin_two.mpr
      ⟨⟨(value0 0).1, (value0 1).1⟩, (value1 0).1, (value1 1).1⟩
  · exact (sum 0).trans (one_mul _)

end Answers

/-- The answers of the two servers for the keys of `dpf_keygen`, for any number of blocks. -/
theorem dealt_answers (dealer : Machine) (server : Fin 2 → Machine) (aes : Cipher) {n w : Nat}
    (hn : n ≤ 30) (hw : w ≤ 63) (dpfip : DpfInput)
    (indexWidth : ∀ b, (dpfip.index b).bitsize = n) (alphaWidth : ∀ b, (dpfip.alpha b).bitsize = w)
    (seeds : Fin 2 → Block) {blocks : Nat} (db : Fin blocks → Fin (2 ^ n) → GroupElement)
    (q : Fin (2 ^ n)) :
    let key := (dpfKeygen dealer w aes n w dpfip seeds).key
    let eval := fun b => dpfEvalAll (server b) w aes b (key b) (dpfip.index b) (dpfip.alpha b)
    ∃ o hato : Fin 2 → Fin blocks → GroupElement,
      (∀ b, computeInnerProdZp (server b) w (2 ^ n) (rotateQuery (BitVec.ofNat 64 q) n dpfip.index)
        db (eval b).out = some (o b, hato b)) ∧
      (∀ b j, (o b j).bitsize = w ∧ (hato b j).bitsize = w) ∧
      ∀ j, (o 0 j + o 1 j).res w = (db j q).res w ∧
        (hato 0 j + hato 1 j).res w = (dpfip.alpha 0 + dpfip.alpha 1).res w * (db j q).res w := by
  intro key eval
  have fits := dpfKeygen_fitting dealer aes (h := n) dpfip seeds (by omega) alphaWidth
  have answers := fun j => fits.answers hn (by omega) (fun _ => rfl)
    (toNat_keygen_Bout dealer aes dpfip seeds (by omega)) indexWidth server w dpfip.index
    dpfip.alpha (db j) q
  choose o hato prod widths entry authenticated using answers
  refine ⟨fun b j => o j b, fun b j => hato j b, ?_, fun b j => widths j b, ?_⟩
  · intro b
    exact computeInnerProdZp_eq (server b) fun j => prod j b
  · intro j
    rw [GroupElement.res_add (by omega) (alphaWidth 0)]
    exact ⟨entry j, authenticated j⟩

/-- End-to-end retrieval: for the keys of `dpf_keygen` the client's sum of the two
answers is the queried entry of every block, and its test passes. Both inner
products are defined, so they stay inside the arrays. -/
theorem retrieval_correct (dealer : Machine) (server : Fin 2 → Machine) (aes : Cipher) {n w : Nat}
    (hn : n ≤ 30) (hw : w ≤ 63) (dpfip : DpfInput)
    (indexWidth : ∀ b, (dpfip.index b).bitsize = n) (alphaWidth : ∀ b, (dpfip.alpha b).bitsize = w)
    (seeds : Fin 2 → Block) {blocks : Nat} (db : Fin blocks → Fin (2 ^ n) → GroupElement)
    (reduced : ∀ j i, (db j i).value.toNat < 2 ^ w) (q : Fin (2 ^ n)) :
    let key := (dpfKeygen dealer w aes n w dpfip seeds).key
    let eval := fun b => dpfEvalAll (server b) w aes b (key b) (dpfip.index b) (dpfip.alpha b)
    let rotatedIndex := rotateQuery (BitVec.ofNat 64 q) n dpfip.index
    (∃ o hato : Fin 2 → Fin blocks → GroupElement,
      (∀ b, computeInnerProdZp (server b) w (2 ^ n) rotatedIndex db (eval b).out =
        some (o b, hato b)) ∧
      (∀ j, (o 0 j + o 1 j).value = (db j q).value) ∧
      ∀ j, checkBlock w dpfip.alpha (fun b => o b j) (fun b => hato b j) = true) ∧
    ∀ i, i < 2 ^ n → ∃ ind, rotatedInd rotatedIndex i = some ind ∧ ind < 2 ^ n := by
  intro key eval rotatedIndex
  obtain ⟨o, hato, run, widths, sums⟩ := dealt_answers dealer server aes hn hw dpfip indexWidth
    alphaWidth seeds db q
  refine ⟨⟨o, hato, run, ?_, ?_⟩, ?_⟩
  · intro j
    have sum := (o 0 j + o 1 j).reduced
    rw [GroupElement.bitsize_add, (widths 0 j).1] at sum
    exact eq_of_residue sum (reduced j q) (sums j).1
  · intro j
    refine (checkBlock_iff (by omega) ⟨alphaWidth 0, (widths 0 j).1, (widths 0 j).2⟩).mpr ?_
    rw [(sums j).1, (sums j).2]
  · intro i _
    exact ⟨_, rotatedInd_eq (by omega) (rotateQuery_bitsize _ n dpfip.index) i,
      Nat.mod_lt _ (Nat.two_pow_pos n)⟩

/-- Two blocks of two entries. -/
def toyDatabase (j : Fin 2) (i : Fin (2 ^ 1)) : GroupElement :=
  GroupElement.ofValue (BitVec.ofNat 64 (10 * j + i)) 8

/-- The second block queried at 0, by shares of the index 1. -/
theorem retrieval_correct_toy :
    ∃ o hato : Fin 2 → Fin 2 → GroupElement,
      (∀ b, computeInnerProdZp (toyServers b) 8 2 (rotateQuery 0#64 1 toyInput.index) toyDatabase
        (toyEval b).out = some (o b, hato b)) ∧
      (o 0 1 + o 1 1).value = 10#64 := by
  obtain ⟨⟨o, hato, run, entry, -⟩, -⟩ := retrieval_correct toyDealer toyServers toyCipher (n := 1)
    (w := 8) (by decide) (by decide) toyInput toyInput_index toyInput_alpha toySeeds toyDatabase
    (by decide) 0
  exact ⟨o, hato, run, (entry 1).trans (by decide)⟩

end DpfPir
