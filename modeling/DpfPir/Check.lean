import DpfPir.CorrectionTree
import DpfPir.Keys

/-!
# What the client's check accepts

`check_xor` (`keys.cpp`) accumulates its verdict over the levels and over the
final correction word. This module says what the verdict means.

Results:
1. `checkLevel_iff`, `checkFinal_iff`: one level, and the final correction word, in
   terms of the packs.
2. `checkXor_iff`: acceptance is agreement in everything but the leaf-bit totals,
   together with one of the two totals.
3. `checkXor_iff_consistent_iff`: acceptance is consistency exactly when the two
   totals agree or disagree together, or something else disagrees.
-/

namespace DpfPir

open LittleEndian Words CorrectionTree

/-! ## Consistent packs -/

/-- The widths that a server's pack has: an equation between group elements means
one modulo `2 ^ bw` only between elements of width `bw`. -/
structure PackWidths (bw : Nat) (x : InputCheckPack) : Prop where
  payload : x.payload.bitsize = bw
  W : ∀ e, (x.W e).bitsize = bw
  gamma : ∀ e, (x.gamma e).bitsize = bw

/-- The direction of the queried path at level `i`, from the two index shares. -/
def queryDir (x0 x1 : InputCheckPack) (i : Fin x0.size) : Fin 2 :=
  pathDir (x0.index + x1.index).value (x0.size - 1 - i)

/-- One level of three consistent packs. -/
structure LevelConsistent (x0 x1 : InputCheckPack) (x2 : InputCheckPack2) (i0 : Fin x0.size)
    (i1 : Fin x1.size) (i2 : Fin x2.size) : Prop where
  zs0 : ∀ d, x0.zs d i0 = x2.zs0 d i2
  zs1 : ∀ d, x1.zs d i1 = x2.zs1 d i2
  zt0 : ∀ d, x0.zt d i0 = x2.zt0 d i2
  zt1 : ∀ d, x1.zt d i1 = x2.zt1 d i2
  sigma0 : x0.sigma i0 = x2.sigma i2
  sigma1 : x1.sigma i1 = x2.sigma i2
  sigma : x2.sigma i2 =
    x0.zs (queryDir x0 x1 i0 + 1) i0 ^^^ x1.zs (queryDir x0 x1 i0 + 1) i1
  tau0 : ∀ b, x0.tau b i0 = x2.tau b i2
  tau1 : ∀ b, x1.tau b i1 = x2.tau b i2
  tau : ∀ b, x2.tau b i2 =
    x0.zt b i0 ^^^ x1.zt b i1 ^^^ (if b = queryDir x0 x1 i0 then 1#8 else 0#8)

/-- The output pair that the shares stand for at the queried leaf. -/
def betaRes (bw : Nat) (payload0 payload1 : GroupElement) : Fin 2 → ZMod (2 ^ bw) :=
  ![1, payload0.res bw + payload1.res bw]

/-- The final correction word of three consistent packs. -/
structure FinalConsistent (bw : Nat) (x0 x1 : InputCheckPack) (x2 : InputCheckPack2) : Prop where
  W0 : ∀ e, (x0.W e).value = (x2.W 0 e).value
  W1 : ∀ e, (x1.W e).value = (x2.W 1 e).value
  gamma0 : ∀ e, (x0.gamma e).value = (x2.gamma e).value
  gamma1 : ∀ e, (x1.gamma e).value = (x2.gamma e).value
  final : ∀ e, (x0.gamma e).res bw =
    finalWord (x0.T.slt x1.T) ((x0.W e).res bw) ((x1.W e).res bw)
      (betaRes bw x0.payload x1.payload e)

/-- Agreement of three packs in everything but the leaf-bit totals. Group elements
agree by value, which between elements of one width is equality. -/
structure AgreesUpToTotals (bw : Nat) (x0 x1 : InputCheckPack) (x2 : InputCheckPack2) : Prop where
  index0 : x0.index.value = (x2.index 0).value
  index1 : x1.index.value = (x2.index 1).value
  payload0 : x0.payload.value = (x2.payload 0).value
  payload1 : x1.payload.value = (x2.payload 1).value
  size01 : x0.size = x1.size
  size12 : x1.size = x2.size
  levels : ∀ (i0 : Fin x0.size) (i1 : Fin x1.size) (i2 : Fin x2.size), i0.val = i1.val →
    i1.val = i2.val → LevelConsistent x0 x1 x2 i0 i1 i2
  final : FinalConsistent bw x0 x1 x2

/-- Three consistent packs: the dealer recorded what both servers computed, and
the correction words are those of the queried path and the payload. -/
structure Consistent (bw : Nat) (x0 x1 : InputCheckPack) (x2 : InputCheckPack2) : Prop
    extends AgreesUpToTotals bw x0 x1 x2 where
  T0 : x0.T = x2.T 0
  T1 : x1.T = x2.T 1

/-! ## One level and the final word -/

section Verdict

variable {bw : Nat} {x0 x1 : InputCheckPack} {x2 : InputCheckPack2}

theorem checkLevel_iff (h01 : x0.size = x1.size) (h12 : x1.size = x2.size) (i : Fin x1.size) :
    checkLevel x0 x1 x2 h01 h12 i = true ↔
      LevelConsistent x0 x1 x2 (i.cast h01.symm) i (i.cast h12) := by
  have bit : pathBit (x0.index + x1.index).value (x0.size - 1 - i) =
      BitVec.ofNat 8 (queryDir x0 x1 (i.cast h01.symm)) := pathBit_eq _ _
  -- the source adds the path bit, flipped for the left child, to the sums of the bits
  have left : ∀ d : Fin 2, BitVec.ofNat 8 d ^^^ 1#8 = if 0 = d then 1#8 else 0#8 := by decide
  have right : ∀ d : Fin 2, BitVec.ofNat 8 d = if 1 = d then 1#8 else 0#8 := by decide
  unfold checkLevel
  simp only [bit, bitIndex_other, Bool.and_eq_true, eqBlock_iff, beq_iff_eq, BitVec.xor_assoc,
    left]
  rw [right]
  simp only [← BitVec.xor_assoc]
  constructor
  · rintro ⟨⟨⟨⟨⟨⟨⟨⟨⟨⟨⟨⟨⟨⟨⟨⟨a, b⟩, c⟩, d⟩, e⟩, f⟩, g⟩, h⟩, j⟩, k⟩, l⟩, m⟩, n⟩, o⟩, p⟩, q⟩, r⟩
    exact
      { zs0 := Fin.forall_fin_two.mpr ⟨a, c⟩
        zs1 := Fin.forall_fin_two.mpr ⟨b, d⟩
        zt0 := Fin.forall_fin_two.mpr ⟨h, k⟩
        zt1 := Fin.forall_fin_two.mpr ⟨j, l⟩
        sigma0 := e
        sigma1 := f
        sigma := g
        tau0 := Fin.forall_fin_two.mpr ⟨m, n⟩
        tau1 := Fin.forall_fin_two.mpr ⟨o, p⟩
        tau := Fin.forall_fin_two.mpr ⟨q, r⟩ }
  · intro level
    exact ⟨⟨⟨⟨⟨⟨⟨⟨⟨⟨⟨⟨⟨⟨⟨⟨level.zs0 0, level.zs1 0⟩, level.zs0 1⟩, level.zs1 1⟩, level.sigma0⟩,
      level.sigma1⟩, level.sigma⟩, level.zt0 0⟩, level.zt1 0⟩, level.zt0 1⟩, level.zt1 1⟩,
      level.tau0 0⟩, level.tau0 1⟩, level.tau1 0⟩, level.tau1 1⟩, level.tau 0⟩, level.tau 1⟩

/-- The two equations that the source writes with group elements, by residues. -/
theorem gamma_eq_iff (hw : bw ≤ 64) {second : Bool} {g w0 w1 beta0 beta1 : GroupElement}
    (hg : g.bitsize = bw) (hw0 : w0.bitsize = bw) (hb0 : beta0.bitsize = bw) :
    (if second then g == w0 - beta0 - beta1 - w1 else g == beta0 + beta1 - w0 + w1) = true ↔
      g.res bw = finalWord second (w0.res bw) (w1.res bw) (beta0.res bw + beta1.res bw) := by
  cases second with
  | true =>
    rw [if_pos rfl, GroupElement.beq_iff_res hg (by exact hw0), finalWord, if_pos rfl,
      GroupElement.res_sub hw (by exact hw0), GroupElement.res_sub hw (by exact hw0),
      GroupElement.res_sub hw hw0, sub_add_eq_sub_sub]
  | false =>
    rw [if_neg Bool.false_ne_true, GroupElement.beq_iff_res hg (by exact hb0), finalWord,
      if_neg Bool.false_ne_true, GroupElement.res_add hw (by exact hb0),
      GroupElement.res_sub hw (by exact hb0), GroupElement.res_add hw hb0]

theorem res_betaShares (hw : bw ≤ 64) (payload0 payload1 : GroupElement) (e : Fin 2) :
    (betaShares bw payload0 payload1 0 e).res bw + (betaShares bw payload0 payload1 1 e).res bw =
      betaRes bw payload0 payload1 e := by
  match e with
  | 0 =>
    show (GroupElement.ofValue 0#64 bw).res bw + (GroupElement.ofValue 1#64 bw).res bw = 1
    rw [GroupElement.res_zero, GroupElement.res_one hw, zero_add]
  | 1 => rfl

theorem checkFinal_iff (hw : bw ≤ 64) (widths0 : PackWidths bw x0) :
    checkFinal bw x0 x1 x2 = true ↔ FinalConsistent bw x0 x1 x2 := by
  have width : ∀ e, (betaShares bw x0.payload x1.payload 0 e).bitsize = bw :=
    Fin.forall_fin_two.mpr ⟨rfl, widths0.payload⟩
  -- the two branches of the source each test both components
  have branches : ∀ (second a0 a1 b0 b1 : Bool),
      (if second then a0 && a1 else b0 && b1) = true ↔
        (if second then a0 else b0) = true ∧ (if second then a1 else b1) = true := by
    decide
  have equation : ∀ e,
      (if x0.T.slt x1.T then
        x0.gamma e == x0.W e - betaShares bw x0.payload x1.payload 0 e -
          betaShares bw x0.payload x1.payload 1 e - x1.W e
      else
        x0.gamma e == betaShares bw x0.payload x1.payload 0 e +
          betaShares bw x0.payload x1.payload 1 e - x0.W e + x1.W e) = true ↔
      (x0.gamma e).res bw = finalWord (x0.T.slt x1.T) ((x0.W e).res bw) ((x1.W e).res bw)
        (betaRes bw x0.payload x1.payload e) := by
    intro e
    rw [gamma_eq_iff hw (widths0.gamma e) (widths0.W e) (width e), res_betaShares hw]
  unfold checkFinal
  simp only [Bool.and_eq_true, branches, equation, GroupElement.beq_iff]
  constructor
  · rintro ⟨⟨⟨⟨⟨⟨⟨⟨a, b⟩, c⟩, d⟩, e⟩, f⟩, g⟩, h⟩, i, j⟩
    exact
      { W0 := Fin.forall_fin_two.mpr ⟨a, c⟩
        W1 := Fin.forall_fin_two.mpr ⟨b, d⟩
        gamma0 := Fin.forall_fin_two.mpr ⟨e, g⟩
        gamma1 := Fin.forall_fin_two.mpr ⟨f, h⟩
        final := Fin.forall_fin_two.mpr ⟨i, j⟩ }
  · intro final
    exact ⟨⟨⟨⟨⟨⟨⟨⟨final.W0 0, final.W1 0⟩, final.W0 1⟩, final.W1 1⟩, final.gamma0 0⟩,
      final.gamma1 0⟩, final.gamma0 1⟩, final.gamma1 1⟩, final.final 0, final.final 1⟩

/-! ## The verdict -/

/-- A verdict accumulated with `&=` is the conjunction of the tests. -/
theorem foldl_and_iff {α : Type} (test : α → Bool) (l : List α) (out : Bool) :
    l.foldl (fun out i => out && test i) out = true ↔ out = true ∧ ∀ i ∈ l, test i = true := by
  induction l generalizing out with
  | nil => simp
  | cons i l ih =>
    rw [List.foldl_cons, ih, Bool.and_eq_true, List.forall_mem_cons, and_assoc]

theorem levels_iff (h01 : x0.size = x1.size) (h12 : x1.size = x2.size) :
    (List.finRange x1.size).foldl (fun out i => out && checkLevel x0 x1 x2 h01 h12 i) true = true ↔
      ∀ (i0 : Fin x0.size) (i1 : Fin x1.size) (i2 : Fin x2.size), i0.val = i1.val →
        i1.val = i2.val → LevelConsistent x0 x1 x2 i0 i1 i2 := by
  rw [foldl_and_iff]
  constructor
  · rintro ⟨-, tests⟩ i0 i1 i2 same01 same12
    have level := (checkLevel_iff h01 h12 i1).mp (tests i1 (List.mem_finRange i1))
    rwa [show i1.cast h01.symm = i0 from Fin.ext same01.symm,
      show i1.cast h12 = i2 from Fin.ext same12] at level
  · intro levels
    exact ⟨rfl, fun i _ => (checkLevel_iff h01 h12 i).mpr (levels _ i _ rfl rfl)⟩

/-- Accepted packs announce one size. -/
theorem checkXor_size (accepted : checkXor bw x0 x1 x2 = true) :
    x0.size = x1.size ∧ x1.size = x2.size := by
  unfold checkXor at accepted
  split at accepted
  · exact absurd accepted Bool.false_ne_true
  split at accepted
  · exact absurd accepted Bool.false_ne_true
  split at accepted
  · rename_i sizes
    exact sizes
  · exact absurd accepted Bool.false_ne_true

/-- What `check_xor` accepts: the guard on the totals asks for one of them only. -/
theorem checkXor_iff (hw : bw ≤ 64) (widths0 : PackWidths bw x0) :
    checkXor bw x0 x1 x2 = true ↔
      AgreesUpToTotals bw x0 x1 x2 ∧ (x0.T = x2.T 0 ∨ x1.T = x2.T 1) := by
  have final : checkFinal bw x0 x1 x2 = true ↔ FinalConsistent bw x0 x1 x2 :=
    checkFinal_iff hw widths0
  constructor
  · intro accepted
    unfold checkXor at accepted
    split at accepted
    · exact absurd accepted Bool.false_ne_true
    rename_i indices
    split at accepted
    · exact absurd accepted Bool.false_ne_true
    rename_i payloads
    split at accepted
    · rename_i sizes
      dsimp only at accepted
      split at accepted
      · rename_i totals
        rw [Bool.and_eq_true, levels_iff, final] at accepted
        simp only [Bool.or_eq_true, GroupElement.bne_iff, ne_eq, not_or, not_not]
          at indices payloads
        rw [Bool.or_eq_true, beq_iff_eq, beq_iff_eq] at totals
        exact ⟨⟨indices.1, indices.2, payloads.1, payloads.2, sizes.1, sizes.2, accepted.1,
          accepted.2⟩, totals⟩
      · exact absurd accepted Bool.false_ne_true
    · exact absurd accepted Bool.false_ne_true
  · rintro ⟨agrees, totals⟩
    have sizes : x0.size = x1.size ∧ x1.size = x2.size := ⟨agrees.size01, agrees.size12⟩
    have total : (x0.T == x2.T 0 || x1.T == x2.T 1) = true := by
      rw [Bool.or_eq_true, beq_iff_eq, beq_iff_eq]
      exact totals
    have levels := (levels_iff sizes.1 sizes.2).mpr agrees.levels
    unfold checkXor
    simp only [bne, (GroupElement.beq_iff _ _).mpr agrees.index0,
      (GroupElement.beq_iff _ _).mpr agrees.index1, (GroupElement.beq_iff _ _).mpr agrees.payload0,
      (GroupElement.beq_iff _ _).mpr agrees.payload1, total, dif_pos sizes, levels,
      final.mpr agrees.final]
    rfl

/-- Acceptance is consistency exactly when the two totals agree or disagree
together, unless another comparison fails anyway. -/
theorem checkXor_iff_consistent_iff (hw : bw ≤ 64) (widths0 : PackWidths bw x0) :
    (checkXor bw x0 x1 x2 = true ↔ Consistent bw x0 x1 x2) ↔
      ((x0.T = x2.T 0 ↔ x1.T = x2.T 1) ∨ ¬ AgreesUpToTotals bw x0 x1 x2) := by
  rw [checkXor_iff hw widths0]
  have both : Consistent bw x0 x1 x2 ↔
      AgreesUpToTotals bw x0 x1 x2 ∧ x0.T = x2.T 0 ∧ x1.T = x2.T 1 :=
    ⟨fun c => ⟨c.toAgreesUpToTotals, c.T0, c.T1⟩, fun c => ⟨c.1, c.2.1, c.2.2⟩⟩
  rw [both]
  by_cases agrees : AgreesUpToTotals bw x0 x1 x2
  · by_cases t0 : x0.T = x2.T 0
    · by_cases t1 : x1.T = x2.T 1 <;> simp [agrees, t0, t1]
    · by_cases t1 : x1.T = x2.T 1 <;> simp [agrees, t0, t1]
  · simp [agrees]

end Verdict

/-! ## A dealer's total that nobody compares -/

/-- A server's pack of height 1 for index 0 and payload 0 over bytes. -/
def heightOnePack (T : BitVec 32) : InputCheckPack where
  index := GroupElement.ofValue 0#64 1
  payload := GroupElement.ofValue 0#64 8
  size := 1
  zs := fun _ _ => 0#128
  zt := fun _ _ => 0#8
  sigma := fun _ => 0#128
  tau := fun b _ => ![1#8, 0#8] b
  T := T
  W := fun _ => GroupElement.ofValue 0#64 8
  gamma := ![GroupElement.ofValue 255#64 8, GroupElement.ofValue 0#64 8]

/-- The dealer's pack for the same index and payload. -/
def heightOnePack2 (T : Fin 2 → BitVec 32) : InputCheckPack2 where
  index := fun _ => GroupElement.ofValue 0#64 1
  payload := fun _ => GroupElement.ofValue 0#64 8
  size := 1
  zs0 := fun _ _ => 0#128
  zs1 := fun _ _ => 0#128
  zt0 := fun _ _ => 0#8
  zt1 := fun _ _ => 0#8
  sigma := fun _ => 0#128
  tau := fun b _ => ![1#8, 0#8] b
  T := T
  W := fun _ _ => GroupElement.ofValue 0#64 8
  gamma := ![GroupElement.ofValue 255#64 8, GroupElement.ofValue 0#64 8]

theorem heightOnePack_widths (T : BitVec 32) : PackWidths 8 (heightOnePack T) where
  payload := rfl
  W _ := rfl
  gamma := Fin.forall_fin_two.mpr ⟨rfl, rfl⟩

/-- The exact condition at a triple with agreeing totals. -/
theorem checkXor_iff_consistent_iff_heightOne :
    (checkXor 8 (heightOnePack 0#32) (heightOnePack 1#32) (heightOnePack2 ![0#32, 1#32]) = true ↔
      Consistent 8 (heightOnePack 0#32) (heightOnePack 1#32) (heightOnePack2 ![0#32, 1#32])) ↔
    (((0#32 : BitVec 32) = 0#32 ↔ (1#32 : BitVec 32) = 1#32) ∨
      ¬ AgreesUpToTotals 8 (heightOnePack 0#32) (heightOnePack 1#32)
        (heightOnePack2 ![0#32, 1#32])) :=
  checkXor_iff_consistent_iff (by decide) (heightOnePack_widths _)

/-- A dealer who reports 7 where the second server counted 1 is accepted. -/
theorem checkXor_accepts_wrong_total :
    ¬ (checkXor 8 (heightOnePack 0#32) (heightOnePack 1#32) (heightOnePack2 ![0#32, 7#32]) = true ↔
      Consistent 8 (heightOnePack 0#32) (heightOnePack 1#32)
        (heightOnePack2 ![0#32, 7#32])) := by
  intro claimed
  have accepted : checkXor 8 (heightOnePack 0#32) (heightOnePack 1#32)
      (heightOnePack2 ![0#32, 7#32]) = true := by decide
  have total : (1#32 : BitVec 32) = 7#32 := (claimed.mp accepted).T1
  exact absurd total (by decide)

end DpfPir
