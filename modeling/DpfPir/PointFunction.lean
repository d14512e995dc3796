import DpfPir.Check
import DpfPir.Keygen

/-!
# The point function that two keys share

Two keys whose correction words and final correction word fit the trees they grow
are shares of a point function. The dealer's keys fit (this module), and keys
that the client's check accepts fit (`Acceptance`).

Results:
1. `toInt_leafCount`: up to `2 ^ 30` leaves the 32-bit leaf-bit total does not
   wrap, so `T0 < T1` compares the counts.
2. `Fitting.differ`: the two-tree invariant on every layer of fitting keys.
3. `Fitting.add_out`: the outputs of fitting keys add up to the point function.
4. `dpfKeygen_fitting`, `dpfKeygen_correct`: the keys of `dpf_keygen` fit, so the
   two servers' full-domain evaluations share the point function, and their final
   control bits differ exactly at the queried leaf.
-/

namespace DpfPir

open LittleEndian Words ParallelLoop CorrectionTree

/-! ## Counting leaf bits -/

/-- The leaf-bit total of a layer as the accumulators of type `int` hold it. -/
def leafCount {n : Nat} (L : Fin n → Node (Xor 128) (Xor 8)) : BitVec 32 :=
  ∑ j, (L j).bit.word.setWidth 32

theorem bit_toNat_le {aes : Cipher} {b : Xor 8} (bit : IsBit (aesGenerator aes) b) :
    b.word.toNat ≤ 1 := by
  cases bit with
  | inl zero => rw [zero]; decide
  | inr one =>
    rw [one]
    show (1#8 : BitVec 8).toNat ≤ 1
    decide

theorem toNat_leafCount {aes : Cipher} {n : Nat} (hn : n ≤ 2 ^ 30)
    {L : Fin n → Node (Xor 128) (Xor 8)} (bits : ∀ j, IsBit (aesGenerator aes) (L j).bit) :
    (leafCount L).toNat = ∑ j, (L j).bit.word.toNat ∧ ∑ j, (L j).bit.word.toNat ≤ 2 ^ 30 := by
  have bound : ∑ j, (L j).bit.word.toNat ≤ 2 ^ 30 := by
    calc ∑ j, (L j).bit.word.toNat
        ≤ ∑ _j : Fin n, 1 := Finset.sum_le_sum fun j _ => bit_toNat_le (bits j)
      _ = n := by simp
      _ ≤ 2 ^ 30 := hn
  -- below `2 ^ 32` the wrapping sum is the sum
  have cast : leafCount L = ((∑ j, (L j).bit.word.toNat : Nat) : BitVec 32) := by
    rw [leafCount, Nat.cast_sum]
    refine Finset.sum_congr rfl fun j _ => BitVec.eq_of_toNat_eq ?_
    rw [BitVec.toNat_setWidth]
    rfl
  refine ⟨?_, bound⟩
  rw [cast]
  show (∑ j, (L j).bit.word.toNat) % 2 ^ 32 = _
  exact Nat.mod_eq_of_lt (lt_of_le_of_lt bound (by decide))

theorem toInt_leafCount {aes : Cipher} {n : Nat} (hn : n ≤ 2 ^ 30)
    {L : Fin n → Node (Xor 128) (Xor 8)} (bits : ∀ j, IsBit (aesGenerator aes) (L j).bit) :
    (leafCount L).toInt = ∑ j, ((L j).bit.word.toNat : ℤ) := by
  obtain ⟨count, bound⟩ := toNat_leafCount hn bits
  rw [BitVec.toInt_eq_toNat_of_lt (by omega), count, Nat.cast_sum]

/-- The comparison `T0 < T1` tells which party's control bit is set at the
special leaf. -/
theorem slt_leafCount {aes : Cipher} {n : Nat} (hn : n ≤ 2 ^ 30)
    {L0 L1 : Fin n → Node (Xor 128) (Xor 8)} {p : Fin n}
    (h : Differ (aesGenerator aes) L0 L1 p) :
    (leafCount L0).slt (leafCount L1) = true ↔ (L1 p).bit = (aesGenerator aes).one := by
  rw [BitVec.slt_iff_toInt_lt, toInt_leafCount hn h.isBit0, toInt_leafCount hn h.isBit1]
  exact h.count_lt (fun b => (b.word.toNat : ℤ)) rfl rfl

/-! ## Fitting keys -/

/-- Two keys of height `h` whose correction words fit the trees they grow along
the path to `index`, and whose final correction word fits the output `beta`. -/
structure Fitting (aes : Cipher) (h w : Nat) (index : BitVec 64) (beta : Fin 2 → ZMod (2 ^ w))
    (key : Fin 2 → DpfKey) : Prop where
  words : ∀ i, i < h → keyWords (key 0) i = keyWords (key 1) i
  corrects : Corrects (aesGenerator aes) (keyRoot 0 (key 0)) (keyRoot 1 (key 1))
    (keyWords (key 0)) (pathDirs h index) h
  gamma : ∀ e, ((key 0).gamma e).res w = ((key 1).gamma e).res w
  final : ∀ e, ((key 0).gamma e).res w =
    finalWord ((leafCount (keyLayer aes 0 (key 0) h)).slt (leafCount (keyLayer aes 1 (key 1) h)))
      (leafSum (leafConv aes w e) (keyLayer aes 0 (key 0) h))
      (leafSum (leafConv aes w e) (keyLayer aes 1 (key 1) h)) (beta e)

section Fitting

variable {aes : Cipher} {h w : Nat} {index : BitVec 64} {beta : Fin 2 → ZMod (2 ^ w)}
  {key : Fin 2 → DpfKey}

theorem Fitting.keyLayer_one (fits : Fitting aes h w index beta key) {i : Nat} (hi : i ≤ h) :
    keyLayer aes 1 (key 1) i =
      layer (aesGenerator aes) (keyRoot 1 (key 1)) (keyWords (key 0)) i :=
  (layer_congr (aesGenerator aes) fits.words i hi).symm

theorem Fitting.correct (fits : Fitting aes h w index beta key) {i : Nat} (hi : i < h) :
    Correct (aesGenerator aes) (keyLayer aes 0 (key 0) i) (keyLayer aes 1 (key 1) i)
      (keyWords (key 0) i) (pathDirs h index i) := by
  rw [fits.keyLayer_one hi.le]
  exact fits.corrects i hi

/-- The layers of fitting keys agree off the path, and their control bits differ
on it. -/
theorem Fitting.differ (fits : Fitting aes h w index beta key) {i : Nat} (hi : i ≤ h) :
    Differ (aesGenerator aes) (keyLayer aes 0 (key 0) i) (keyLayer aes 1 (key 1) i)
      (position (pathDirs h index) i) := by
  rw [fits.keyLayer_one hi]
  exact differ_layer rfl rfl fits.corrects i hi

/-- The path to `index` ends at the leaf `index % 2 ^ h`. -/
theorem position_pathDirs (h : Nat) (index : BitVec 64) :
    (position (pathDirs h index) h).val = index.toNat % 2 ^ h := by
  have digits : ∀ i, i < h → (pathDirs h index i).val = index.toNat / 2 ^ (h - 1 - i) % 2 :=
    fun _ _ => rfl
  have leaf := position_val digits h le_rfl
  rwa [Nat.sub_self, pow_zero, Nat.div_one] at leaf

/-- The value of the shared function at leaf `x`. -/
def pointValue (h : Nat) (index : BitVec 64) {w : Nat} (beta : Fin 2 → ZMod (2 ^ w)) (x : Nat)
    (e : Fin 2) : ZMod (2 ^ w) :=
  if x = index.toNat % 2 ^ h then beta e else 0

theorem Fitting.shares (fits : Fitting aes h w index beta key) (hh : h ≤ 30) (x : Fin (2 ^ h))
    (e : Fin 2) :
    shareValue aes 0 w (key 0).gamma e (keyLayer aes 0 (key 0) h x) +
      shareValue aes 1 w (key 1).gamma e (keyLayer aes 1 (key 1) h x) =
      pointValue h index beta x e := by
  have leaves : 2 ^ h ≤ 2 ^ 30 := Nat.pow_le_pow_right (by decide) hh
  have differ := fits.differ le_rfl
  have sum := differ.shares (leafConv aes w e) (slt_leafCount leaves differ) (fits.final e) x
  have here : x = position (pathDirs h index) h ↔ x.val = index.toNat % 2 ^ h := by
    rw [Fin.ext_iff, position_pathDirs]
  simp only [here] at sum
  show leafShare _ (((key 0).gamma e).res w) _ + -leafShare _ (((key 1).gamma e).res w) _ = _
  rw [← fits.gamma e, ← sub_eq_add_neg]
  exact sum

end Fitting

/-! ## Output shares -/

/-- Leaf `x` of a key of height `h`. -/
def leafAt {h height : Nat} (same : height = h) (x : Fin (2 ^ h)) : Fin (2 ^ height) :=
  x.cast (congrArg (2 ^ ·) same.symm)

/-- The leaf that two index shares of width `h` stand for. -/
def queriedLeaf (h : Nat) (index : Fin 2 → GroupElement) : Nat :=
  ((index 0).value.toNat + (index 1).value.toNat) % 2 ^ h

/-- The output pair at leaf `x`: 1 and the payload at the queried leaf, and zeros
everywhere else. -/
def pointFunction (h w : Nat) (index payload : Fin 2 → GroupElement) (x : Nat) :
    Fin 2 → GroupElement :=
  if x = queriedLeaf h index then ![GroupElement.ofValue 1#64 w, payload 0 + payload 1]
  else ![GroupElement.ofValue 0#64 w, GroupElement.ofValue 0#64 w]

theorem toNat_add_index {h : Nat} (hh : h ≤ 64) {index : Fin 2 → GroupElement}
    (width : ∀ b, (index b).bitsize = h) :
    (index 0 + index 1).value.toNat % 2 ^ h = queriedLeaf h index := by
  have wide : 2 ^ h ∣ 2 ^ 64 := Nat.pow_dvd_pow 2 hh
  show (GroupElement.mod (index 0).bitsize ((index 0).value + (index 1).value)).value.toNat % _ = _
  rw [width 0, GroupElement.mod_toNat hh, Nat.mod_mod, BitVec.toNat_add, Nat.mod_mod_of_dvd _ wide,
    queriedLeaf]

theorem pointFunction_res {h w : Nat} (hh : h ≤ 64) (hw : w ≤ 64)
    {index payload : Fin 2 → GroupElement} (indexWidth : ∀ b, (index b).bitsize = h)
    (payloadWidth : ∀ b, (payload b).bitsize = w) (x : Nat) (e : Fin 2) :
    (pointFunction h w index payload x e).bitsize = w ∧
    (pointFunction h w index payload x e).res w =
      pointValue h (index 0 + index 1).value (betaRes w (payload 0) (payload 1)) x e := by
  rw [pointValue, toNat_add_index hh indexWidth, pointFunction]
  by_cases here : x = queriedLeaf h index
  · rw [if_pos here, if_pos here]
    match e with
    | 0 => exact ⟨rfl, GroupElement.res_one hw⟩
    | 1 => exact ⟨payloadWidth 0, GroupElement.res_add hw (payloadWidth 0) _⟩
  · rw [if_neg here, if_neg here]
    match e with
    | 0 => exact ⟨rfl, GroupElement.res_zero w w⟩
    | 1 => exact ⟨rfl, GroupElement.res_zero w w⟩

section Outputs

variable {aes : Cipher} {h w : Nat} {key : Fin 2 → DpfKey} {index payload : Fin 2 → GroupElement}

variable (aes) in
theorem evalAll_out_at (m : Machine) (bitlength : Nat) (party : Fin 2) (k : DpfKey)
    (index payload : GroupElement) (hw : w ≤ 64) (bout : k.Bout.toNat = w) (height : k.height = h)
    (x : Fin (2 ^ h)) (e : Fin 2) :
    ((dpfEvalAll m bitlength aes party k index payload).out (leafAt height x) e).bitsize = w ∧
    ((dpfEvalAll m bitlength aes party k index payload).out (leafAt height x) e).res w =
      shareValue aes party w k.gamma e (keyLayer aes party k h x) := by
  subst height
  exact evalAll_share m bitlength aes party k index payload hw bout x e

/-- The full-domain evaluations of fitting keys add up to the point function. -/
theorem Fitting.add_out
    (fits : Fitting aes h w (index 0 + index 1).value (betaRes w (payload 0) (payload 1)) key)
    (hh : h ≤ 30) (hw : w ≤ 64) (height : ∀ b, (key b).height = h)
    (bout : ∀ b, (key b).Bout.toNat = w) (indexWidth : ∀ b, (index b).bitsize = h)
    (payloadWidth : ∀ b, (payload b).bitsize = w) (m : Fin 2 → Machine) (bitlength : Nat)
    (index' payload' : Fin 2 → GroupElement) (x : Fin (2 ^ h)) :
    let eval := fun b => dpfEvalAll (m b) bitlength aes b (key b) (index' b) (payload' b)
    addPair ((eval 0).out (leafAt (height 0) x)) ((eval 1).out (leafAt (height 1) x)) =
      pointFunction h w index payload x := by
  intro eval
  have point := pointFunction_res (h := h) (by omega) hw indexWidth payloadWidth x
  have row : ∀ b e, ((eval b).out (leafAt (height b) x) e).bitsize = w ∧
      ((eval b).out (leafAt (height b) x) e).res w =
        shareValue aes b w (key b).gamma e (keyLayer aes b (key b) h x) := fun b e =>
    evalAll_out_at aes (m b) bitlength b (key b) (index' b) (payload' b) hw (bout b) (height b) x e
  have sum : ∀ e, (eval 0).out (leafAt (height 0) x) e + (eval 1).out (leafAt (height 1) x) e =
      pointFunction h w index payload x e := by
    intro e
    refine GroupElement.ext_res (w := w) (row 0 e).1 (point e).1 ?_
    rw [GroupElement.res_add hw (row 0 e).1, (row 0 e).2, (row 1 e).2, (point e).2]
    exact fits.shares hh x e
  funext e
  match e with
  | 0 => exact sum 0
  | 1 => exact sum 1

end Outputs

/-! ## The dealer's keys -/

section Dealt

variable (m : Machine) (aes : Cipher) {h w : Nat} (dpfip : DpfInput) (keys : Fin 2 → Block)

/-- The final correction word of the dealer, by residues. -/
theorem keygenGamma_res (hw : w ≤ 64) {second : Bool} {w0 w1 : Fin 2 → GroupElement}
    {payload0 payload1 : GroupElement} {e : Fin 2} (width : (w0 e).bitsize = w)
    (payloadWidth : payload0.bitsize = w) :
    (keygenGamma second w0 w1 (betaShares w payload0 payload1) e).bitsize = w ∧
    (keygenGamma second w0 w1 (betaShares w payload0 payload1) e).res w =
      finalWord second ((w0 e).res w) ((w1 e).res w) (betaRes w payload0 payload1 e) := by
  have betaWidth : (betaShares w payload0 payload1 0 e).bitsize = w := by
    match e with
    | 0 => rfl
    | 1 => exact payloadWidth
  have size : (keygenGamma second w0 w1 (betaShares w payload0 payload1) e).bitsize = w := by
    cases second with
    | true => exact width
    | false => exact betaWidth
  refine ⟨size, ?_⟩
  rw [← res_betaShares hw, ← gamma_eq_iff hw size width betaWidth]
  cases second with
  | true => exact (GroupElement.beq_iff _ _).mpr rfl
  | false => exact (GroupElement.beq_iff _ _).mpr rfl

theorem keygen_gamma_width (hw : w ≤ 64) (alphaWidth : (dpfip.alpha 0).bitsize = w) (b e : Fin 2) :
    (((dpfKeygen m w aes h w dpfip keys).key b).gamma e).bitsize = w := by
  rw [keygen_gamma]
  exact (keygenGamma_res hw (keygen_W m aes h dpfip keys hw le_rfl hw 0 e).1 alphaWidth).1

/-- The keys of `dpf_keygen` fit the queried path and the payload. -/
theorem dpfKeygen_fitting (hw : w ≤ 64) (alphaWidth : ∀ b, (dpfip.alpha b).bitsize = w) :
    Fitting aes h w (dpfip.index 0 + dpfip.index 1).value
      (betaRes w (dpfip.alpha 0) (dpfip.alpha 1)) (dpfKeygen m w aes h w dpfip keys).key where
  words i hi := by
    rw [keygen_words m w aes h w dpfip keys 0 hi, keygen_words m w aes h w dpfip keys 1 hi]
  corrects := (dealtWords_corrects m aes h dpfip keys).congr fun _ hi =>
    (keygen_words m w aes h w dpfip keys 0 hi).symm
  gamma e := rfl
  final e := by
    obtain ⟨width0, sum0⟩ := keygen_W m aes h dpfip keys hw le_rfl hw 0 e
    obtain ⟨width1, sum1⟩ := keygen_W m aes h dpfip keys hw le_rfl hw 1 e
    rw [keygen_gamma, (keygenGamma_res hw width0 (alphaWidth 0)).2, sum0, sum1, keygen_T, keygen_T,
      keygen_layer m w aes h w dpfip keys 0 le_rfl, keygen_layer m w aes h w dpfip keys 1 le_rfl]
    rfl

theorem toNat_keygen_Bout (hw : w ≤ 64) (b : Fin 2) :
    ((dpfKeygen m w aes h w dpfip keys).key b).Bout.toNat = w := by
  show w % 2 ^ 32 = w
  exact Nat.mod_eq_of_lt (by omega)

/-- Set bits that differ: the control bits of two layers at a leaf. -/
theorem differ_bits {n : Nat} {L0 L1 : Fin n → Node (Xor 128) (Xor 8)} {p : Fin n}
    (differ : Differ (aesGenerator aes) L0 L1 p) (x : Fin n) : (L0 x).bit ≠ (L1 x).bit ↔ x = p := by
  constructor
  · intro apart
    by_contra off
    exact apart (by rw [differ.agree x off])
  · rintro rfl
    have one := (aesGenerator aes).one_ne_zero
    cases differ.one_set with
    | inl set => rw [set.1, set.2]; exact one
    | inr set => rw [set.1, set.2]; exact one.symm

/-- Full-domain evaluation of the two keys that `dpf_keygen` returns: the outputs
add up to the point function, the final control bits are bits, and they differ
exactly at the queried leaf. The dealer and the two servers run on machines of
their own. -/
theorem dpfKeygen_correct (hh : h ≤ 30) (hw : w ≤ 64)
    (indexWidth : ∀ b, (dpfip.index b).bitsize = h) (alphaWidth : ∀ b, (dpfip.alpha b).bitsize = w)
    (server : Fin 2 → Machine) (index payload : Fin 2 → GroupElement) (x : Fin (2 ^ h)) :
    let key := (dpfKeygen m w aes h w dpfip keys).key
    let eval := fun b => dpfEvalAll (server b) w aes b (key b) (index b) (payload b)
    addPair ((eval 0).out x) ((eval 1).out x) = pointFunction h w dpfip.index dpfip.alpha x ∧
    (∀ b, (eval b).t x = 0#8 ∨ (eval b).t x = 1#8) ∧
    ((eval 0).t x ≠ (eval 1).t x ↔ x = queriedLeaf h dpfip.index) := by
  intro key eval
  have fits := dpfKeygen_fitting m aes (h := h) dpfip keys hw alphaWidth
  have differ := fits.differ le_rfl
  have bit : ∀ b, Xor.of ((eval b).t x) = (keyLayer aes b (key b) h x).bit := fun b =>
    evalAll_t (server b) w aes b (key b) (index b) (payload b) x
  refine ⟨?_, ?_, ?_⟩
  · exact fits.add_out hh hw (fun _ => rfl) (toNat_keygen_Bout m aes dpfip keys hw) indexWidth
      alphaWidth server w index payload x
  · intro b
    show IsBit (aesGenerator aes) (Xor.of ((eval b).t x))
    rw [bit b]
    match b with
    | 0 => exact differ.isBit0 x
    | 1 => exact differ.isBit1 x
  · have leaf : x = position (pathDirs h (dpfip.index 0 + dpfip.index 1).value) h ↔
        x.val = queriedLeaf h dpfip.index := by
      rw [Fin.ext_iff, position_pathDirs, toNat_add_index (by omega) indexWidth]
    rw [← leaf, ← differ_bits aes differ x, ← bit 0, ← bit 1]
    exact Iff.rfl

end Dealt

/-! ## A run of height one -/

/-- A cipher to compute with. -/
def toyCipher : Cipher := fun k p => k ^^^ p

/-- Shares of the index 1 and of the payload 200. -/
def toyInput : DpfInput where
  index := ![GroupElement.ofValue 1#64 1, GroupElement.ofValue 0#64 1]
  alpha := ![GroupElement.ofValue 150#64 8, GroupElement.ofValue 50#64 8]

def toySeeds : Fin 2 → Block := ![3#128, 5#128]

/-- A dealer with two threads, and two servers with three threads each. -/
def toyDealer : Machine := Machine.static 2 (by decide)

def toyServers (_ : Fin 2) : Machine := Machine.static 3 (by decide)

/-- The keys that the dealer deals for shares of an index and a payload. -/
def toyKeygen (dpfip : DpfInput) : Keygen :=
  dpfKeygen toyDealer 8 toyCipher 1 8 dpfip toySeeds

/-- What server `b` computes from its key. -/
def toyEval (b : Fin 2) : EvalAll 1 :=
  dpfEvalAll (toyServers b) 8 toyCipher b ((toyKeygen toyInput).key b) (toyInput.index b)
    (toyInput.alpha b)

theorem toyInput_index (b : Fin 2) : (toyInput.index b).bitsize = 1 := by
  revert b; decide

theorem toyInput_alpha (b : Fin 2) : (toyInput.alpha b).bitsize = 8 := by
  revert b; decide

theorem dpfKeygen_correct_toy :
    addPair ((toyEval 0).out 1) ((toyEval 1).out 1) =
      ![GroupElement.ofValue 1#64 8, GroupElement.ofValue 200#64 8] ∧
    (toyEval 0).t 1 ≠ (toyEval 1).t 1 := by
  have run := dpfKeygen_correct toyDealer toyCipher (h := 1) (w := 8) toyInput toySeeds
    (by decide) (by decide) toyInput_index toyInput_alpha toyServers toyInput.index
    toyInput.alpha 1
  exact ⟨run.1, run.2.2.mpr rfl⟩

end DpfPir
