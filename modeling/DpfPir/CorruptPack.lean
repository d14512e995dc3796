import DpfPir.Acceptance
import DpfPir.Wire

/-!
# The pack of a corrupt server

The dealer and one server follow the protocol, the other server sends the client any pack
that it likes. `check_xor` compares all fields of the pack with the dealer's record except
the total of the leaf bits, of which one agreement is enough.

Results:
1. `Recorded.eq_withTotal`: two packs that agree with one record differ at most in the
   total.
2. `corruptPack_accepted_iff`: the client accepts exactly the packs that differ from the
   honest one in the total only, as long as the order of the two totals stays as it was or
   the final correction word is its own negative.
-/

namespace DpfPir

open LittleEndian Words CorrectionTree

/-! ## The dealer's record of one server -/

/-- What the dealer has recorded for server `b`. -/
def InputCheckPack2.of (x2 : InputCheckPack2) (b : Fin 2) : InputCheckPack where
  index := x2.index b
  payload := x2.payload b
  size := x2.size
  zs := ![x2.zs0, x2.zs1] b
  zt := ![x2.zt0, x2.zt1] b
  sigma := x2.sigma
  tau := x2.tau
  T := x2.T b
  W := x2.W b
  gamma := x2.gamma

def InputCheckPack.withTotal (x : InputCheckPack) (T : BitVec 32) : InputCheckPack :=
  { x with T := T }

/-- Agreement with a record in everything but the total, as the client compares. -/
structure Recorded (x r : InputCheckPack) : Prop where
  index : x.index.value = r.index.value
  payload : x.payload.value = r.payload.value
  size : x.size = r.size
  zs : ∀ d (i : Fin x.size) (j : Fin r.size), i.val = j.val → x.zs d i = r.zs d j
  zt : ∀ d (i : Fin x.size) (j : Fin r.size), i.val = j.val → x.zt d i = r.zt d j
  sigma : ∀ (i : Fin x.size) (j : Fin r.size), i.val = j.val → x.sigma i = r.sigma j
  tau : ∀ d (i : Fin x.size) (j : Fin r.size), i.val = j.val → x.tau d i = r.tau d j
  W : ∀ e, (x.W e).value = (r.W e).value
  gamma : ∀ e, (x.gamma e).value = (r.gamma e).value

section Recorded

variable {bw n : Nat} {x0 x1 x y r : InputCheckPack} {x2 : InputCheckPack2}

theorem AgreesUpToTotals.recorded0 (agrees : AgreesUpToTotals bw x0 x1 x2) :
    Recorded x0 (x2.of 0) := by
  have level : ∀ (i : Fin x0.size) (j : Fin x2.size), i.val = j.val →
      LevelConsistent x0 x1 x2 i (i.cast agrees.size01) j :=
    fun i j same => agrees.levels i _ j rfl same
  exact
    { index := agrees.index0
      payload := agrees.payload0
      size := agrees.size01.trans agrees.size12
      zs := fun d i j same => (level i j same).zs0 d
      zt := fun d i j same => (level i j same).zt0 d
      sigma := fun i j same => (level i j same).sigma0
      tau := fun d i j same => (level i j same).tau0 d
      W := agrees.final.W0
      gamma := agrees.final.gamma0 }

theorem AgreesUpToTotals.recorded1 (agrees : AgreesUpToTotals bw x0 x1 x2) :
    Recorded x1 (x2.of 1) := by
  have level : ∀ (i : Fin x1.size) (j : Fin x2.size), i.val = j.val →
      LevelConsistent x0 x1 x2 (i.cast agrees.size01.symm) i j :=
    fun i j same => agrees.levels _ i j rfl same
  exact
    { index := agrees.index1
      payload := agrees.payload1
      size := agrees.size12
      zs := fun d i j same => (level i j same).zs1 d
      zt := fun d i j same => (level i j same).zt1 d
      sigma := fun i j same => (level i j same).sigma1
      tau := fun d i j same => (level i j same).tau1 d
      W := agrees.final.W1
      gamma := agrees.final.gamma1 }

/-- Two packs of the same widths that agree with one record. -/
theorem Recorded.eq_withTotal (recorded : Recorded x r) (recorded' : Recorded y r)
    (widths : x.OnWire n bw) (widths' : y.OnWire n bw) : y = x.withTotal y.T := by
  have size : y.size = x.size := recorded'.size.trans recorded.size.symm
  obtain ⟨index, payload, size', zs, zt, sigma, tau, T, W, gamma⟩ := y
  dsimp only at size
  subst size
  let place := fun i : Fin x.size => i.cast recorded.size
  obtain rfl : index = x.index :=
    GroupElement.ext (widths'.index.trans widths.index.symm)
      (recorded'.index.trans recorded.index.symm)
  obtain rfl : payload = x.payload :=
    GroupElement.ext (widths'.payload.trans widths.payload.symm)
      (recorded'.payload.trans recorded.payload.symm)
  obtain rfl : zs = x.zs := funext fun d => funext fun i =>
    (recorded'.zs d i (place i) rfl).trans (recorded.zs d i (place i) rfl).symm
  obtain rfl : zt = x.zt := funext fun d => funext fun i =>
    (recorded'.zt d i (place i) rfl).trans (recorded.zt d i (place i) rfl).symm
  obtain rfl : sigma = x.sigma := funext fun i =>
    (recorded'.sigma i (place i) rfl).trans (recorded.sigma i (place i) rfl).symm
  obtain rfl : tau = x.tau := funext fun d => funext fun i =>
    (recorded'.tau d i (place i) rfl).trans (recorded.tau d i (place i) rfl).symm
  obtain rfl : W = x.W := funext fun e =>
    GroupElement.ext ((widths'.W e).trans (widths.W e).symm)
      ((recorded'.W e).trans (recorded.W e).symm)
  obtain rfl : gamma = x.gamma := funext fun e =>
    GroupElement.ext ((widths'.gamma e).trans (widths.gamma e).symm)
      ((recorded'.gamma e).trans (recorded.gamma e).symm)
  rfl

end Recorded

/-! ## What is accepted -/

/-- The two cases of the final correction word are each other's negative. -/
theorem finalWord_eq_iff {w : Nat} (second second' : Bool) (sum0 sum1 beta gamma : ZMod (2 ^ w))
    (final : gamma = finalWord second' sum0 sum1 beta) :
    gamma = finalWord second sum0 sum1 beta ↔ second = second' ∨ 2 * gamma = 0 := by
  have negative : ∀ b, finalWord (!b) sum0 sum1 beta = -finalWord b sum0 sum1 beta := by
    intro b
    cases b with
    | false =>
      show sum0 - beta - sum1 = -(beta - sum0 + sum1)
      ring
    | true =>
      show beta - sum0 + sum1 = -(sum0 - beta - sum1)
      ring
  by_cases same : second = second'
  · rw [same]
    exact ⟨fun _ => Or.inl rfl, fun _ => final⟩
  · have other : second = !second' := Bool.eq_not.mpr same
    rw [other, negative, ← final, two_mul, eq_neg_iff_add_eq_zero]
    constructor
    · exact Or.inr
    · rintro (absurd_eq | double)
      · exact absurd absurd_eq (Bool.not_ne_self _)
      · exact double

/-- Both equations of the final correction word, for another order of the totals. -/
theorem finalWords_iff {w : Nat} (second second' : Bool) (sum0 sum1 beta gamma : Fin 2 → ZMod (2 ^ w))
    (final : ∀ e, gamma e = finalWord second' (sum0 e) (sum1 e) (beta e)) :
    (∀ e, gamma e = finalWord second (sum0 e) (sum1 e) (beta e)) ↔
      second = second' ∨ ∀ e, 2 * gamma e = 0 := by
  have each := fun e => finalWord_eq_iff second second' (sum0 e) (sum1 e) (beta e) (gamma e) (final e)
  constructor
  · intro holds
    by_cases same : second = second'
    · exact Or.inl same
    · exact Or.inr fun e => ((each e).mp (holds e)).resolve_left same
  · rintro (same | double) e
    · exact (each e).mpr (Or.inl same)
    · exact (each e).mpr (Or.inr (double e))

section Replaced

variable {bw n : Nat} {x0 x1 y : InputCheckPack} {x2 : InputCheckPack2}

/-- Another total of the first server leaves everything else as it was. -/
theorem AgreesUpToTotals.withTotal0 (agrees : AgreesUpToTotals bw x0 x1 x2) {T : BitVec 32}
    (final : ∀ e, (x0.gamma e).res bw = finalWord (T.slt x1.T) ((x0.W e).res bw)
      ((x1.W e).res bw) (betaRes bw x0.payload x1.payload e)) :
    AgreesUpToTotals bw (x0.withTotal T) x1 x2 where
  index0 := agrees.index0
  index1 := agrees.index1
  payload0 := agrees.payload0
  payload1 := agrees.payload1
  size01 := agrees.size01
  size12 := agrees.size12
  levels := by
    intro i0 i1 i2 same01 same12
    have level := agrees.levels i0 i1 i2 same01 same12
    exact ⟨level.zs0, level.zs1, level.zt0, level.zt1, level.sigma0, level.sigma1, level.sigma,
      level.tau0, level.tau1, level.tau⟩
  final :=
    { W0 := agrees.final.W0
      W1 := agrees.final.W1
      gamma0 := agrees.final.gamma0
      gamma1 := agrees.final.gamma1
      final := final }

theorem AgreesUpToTotals.withTotal1 (agrees : AgreesUpToTotals bw x0 x1 x2) {T : BitVec 32}
    (final : ∀ e, (x0.gamma e).res bw = finalWord (x0.T.slt T) ((x0.W e).res bw)
      ((x1.W e).res bw) (betaRes bw x0.payload x1.payload e)) :
    AgreesUpToTotals bw x0 (x1.withTotal T) x2 where
  index0 := agrees.index0
  index1 := agrees.index1
  payload0 := agrees.payload0
  payload1 := agrees.payload1
  size01 := agrees.size01
  size12 := agrees.size12
  levels := by
    intro i0 i1 i2 same01 same12
    have level := agrees.levels i0 i1 i2 same01 same12
    exact ⟨level.zs0, level.zs1, level.zt0, level.zt1, level.sigma0, level.sigma1, level.sigma,
      level.tau0, level.tau1, level.tau⟩
  final :=
    { W0 := agrees.final.W0
      W1 := agrees.final.W1
      gamma0 := agrees.final.gamma0
      gamma1 := agrees.final.gamma1
      final := final }

/-- Another pack from the first server. -/
theorem replaced0_iff (hw : bw ≤ 64) (consistent : Consistent bw x0 x1 x2)
    (widths : x0.OnWire n bw) (widths' : y.OnWire n bw) :
    checkXor bw y x1 x2 = true ↔ y = x0.withTotal y.T ∧
      (y.T.slt x1.T = x0.T.slt x1.T ∨ ∀ e, 2 * (x0.gamma e).res bw = 0) := by
  have order := finalWords_iff (y.T.slt x1.T) _ _ _ _ _ consistent.final.final
  rw [checkXor_iff hw ⟨widths'.payload, widths'.W, widths'.gamma⟩, ← order]
  constructor
  · rintro ⟨agrees, -⟩
    have same := consistent.recorded0.eq_withTotal agrees.recorded0 widths widths'
    refine ⟨same, fun e => ?_⟩
    have final := agrees.final.final e
    rw [same] at final
    exact final
  · rintro ⟨same, final⟩
    have agrees := consistent.withTotal0 final
    rw [← same] at agrees
    exact ⟨agrees, Or.inr consistent.T1⟩

/-- Another pack from the second server. -/
theorem replaced1_iff (hw : bw ≤ 64) (consistent : Consistent bw x0 x1 x2)
    (widths0 : x0.OnWire n bw) (widths : x1.OnWire n bw) (widths' : y.OnWire n bw) :
    checkXor bw x0 y x2 = true ↔ y = x1.withTotal y.T ∧
      (x0.T.slt y.T = x0.T.slt x1.T ∨ ∀ e, 2 * (x0.gamma e).res bw = 0) := by
  have order := finalWords_iff (x0.T.slt y.T) _ _ _ _ _ consistent.final.final
  rw [checkXor_iff hw ⟨widths0.payload, widths0.W, widths0.gamma⟩, ← order]
  constructor
  · rintro ⟨agrees, -⟩
    have same := consistent.recorded1.eq_withTotal agrees.recorded1 widths widths'
    refine ⟨same, fun e => ?_⟩
    have final := agrees.final.final e
    rw [same] at final
    exact final
  · rintro ⟨same, final⟩
    have agrees := consistent.withTotal1 final
    rw [← same] at agrees
    exact ⟨agrees, Or.inl consistent.T0⟩

end Replaced

section Corrupt

variable (dealer : Machine) (m : Fin 2 → Machine) (aes : Cipher) {h w : Nat} (dpfip : DpfInput)
  (keys : Fin 2 → Block)

theorem dealtPack_onWire (hh : h < 2 ^ 64) (hw : w ≤ 64)
    (indexWidth : ∀ b, (dpfip.index b).bitsize = h) (alphaWidth : ∀ b, (dpfip.alpha b).bitsize = w)
    (b : Fin 2) : (dealtPack dealer m aes dpfip keys w h b).OnWire h w := by
  have index : ∀ b, ((dpfKeygen dealer w aes h w dpfip keys).ip2.index b).bitsize = h :=
    Fin.forall_fin_two.mpr ⟨indexWidth 0, indexWidth 1⟩
  have payload : ∀ b, ((dpfKeygen dealer w aes h w dpfip keys).ip2.payload b).bitsize = w :=
    Fin.forall_fin_two.mpr ⟨alphaWidth 0, alphaWidth 1⟩
  have widths : PackWidths w (dealtPack dealer m aes dpfip keys w h b) :=
    evalAll_widths (m b) aes b _ hw (toNat_keygen_Bout dealer aes dpfip keys hw b) le_rfl hw (payload b)
      (keygen_gamma_width dealer aes dpfip keys hw (alphaWidth 0) b)
  exact ⟨hh, index b, payload b, widths.W, widths.gamma⟩

/-- The packs that the client accepts from a corrupt server next to an honest dealer and an
honest server. Only the total can differ from the honest pack, and where it changes the
order of the two totals, both halves of the final correction word have to be their own
negatives. -/
theorem corruptPack_accepted_iff (hh : h < 2 ^ 64) (hw : w ≤ 64)
    (indexWidth : ∀ b, (dpfip.index b).bitsize = h) (alphaWidth : ∀ b, (dpfip.alpha b).bitsize = w)
    (b : Fin 2) {y : InputCheckPack} (arrived : y.OnWire h w) :
    let ip2 := (dpfKeygen dealer w aes h w dpfip keys).ip2
    let honest := dealtPack dealer m aes dpfip keys w h
    let packs := Function.update honest b y
    checkXor w (packs 0) (packs 1) ip2 = true ↔ y = (honest b).withTotal y.T ∧
      ((packs 0).T.slt (packs 1).T = (honest 0).T.slt (honest 1).T ∨
        ∀ e, 2 * (ip2.gamma e).res w = 0) := by
  intro ip2 honest packs
  have consistent := dealt_consistent dealer m aes (h := h) dpfip keys hw alphaWidth
  have widths := dealtPack_onWire dealer m aes dpfip keys hh hw indexWidth alphaWidth
  have gamma : ∀ e, ((honest 0).gamma e).res w = (ip2.gamma e).res w := fun e =>
    congrArg (residue w) (consistent.final.gamma0 e)
  revert b
  refine Fin.forall_fin_two.mpr ⟨?_, ?_⟩
  · intro packs
    have iff := replaced0_iff hw consistent (widths 0) arrived
    simp only [← gamma]
    exact iff
  · intro packs
    have iff := replaced1_iff hw consistent (widths 0) (widths 1) arrived
    simp only [← gamma]
    exact iff

end Corrupt

/-- The first server reports 9 leaves too few. The second still counts more. -/
theorem corruptPack_accepted_iff_toy :
    checkXor 8 ((toyPack toyInput 0).withTotal (-9#32)) (toyPack toyInput 1)
      (toyKeygen toyInput).ip2 = true := by
  have arrived : ((toyPack toyInput 0).withTotal (-9#32)).OnWire 1 8 :=
    ⟨by decide, by decide, by decide, by decide, by decide⟩
  exact (corruptPack_accepted_iff toyDealer toyServers toyCipher toyInput toySeeds (by decide)
    (by decide) toyInput_index toyInput_alpha 0 arrived).mpr ⟨rfl, Or.inl (by decide)⟩

end DpfPir
