import DpfPir.Reduction

/-!
# The output width and the global `bitlength`

`dpf_keygen` and `dpf_eval_all` take the output width as a parameter. Their totals `W`
get that width, and so does the first element of their per-thread accumulators. The
initialisers of the accumulators leave all other elements at the width of the global
`bitlength` (`threadWInit`).

Results:
1. `widthIndependent_of_le`: a global `bitlength` that is not below the output width
   changes no key, no pack and no output.
2. `not_widthIndependent`: below the output width it does. The accumulators forget
   contributions that are multiples of `2 ^ bitlength` (`accumulator_narrow`), and there
   are a cipher and seeds for which this is all that a leaf contributes.
3. `widthIndependent_iff`: the two together.
-/

namespace DpfPir

open LittleEndian Words ParallelLoop CorrectionTree

/-- With the global `bitlength` the dealer and the servers compute what they compute
when it equals the output width `w`, and the outputs still add up to the point function. -/
structure WidthIndependent (m : Machine) (server : Fin 2 → Machine) (bitlength : Nat)
    (aes : Cipher) (h w : Nat) (dpfip : DpfInput) (keys : Fin 2 → Block) : Prop where
  keygen : dpfKeygen m bitlength aes h w dpfip keys = dpfKeygen m w aes h w dpfip keys
  eval : ∀ b,
    let key := (dpfKeygen m bitlength aes h w dpfip keys).key b
    let eval := dpfEvalAll (server b) bitlength aes b key (dpfip.index b) (dpfip.alpha b)
    let eval' := dpfEvalAll (server b) w aes b key (dpfip.index b) (dpfip.alpha b)
    eval.out = eval'.out ∧ eval.icp.T = eval'.icp.T ∧ eval.icp.W = eval'.icp.W ∧
      eval.icp.gamma = eval'.icp.gamma
  sum : ∀ x : Fin (2 ^ h),
    let eval := fun b => dpfEvalAll (server b) bitlength aes b
      ((dpfKeygen m bitlength aes h w dpfip keys).key b) (dpfip.index b) (dpfip.alpha b)
    addPair ((eval 0).out x) ((eval 1).out x) = pointFunction h w dpfip.index dpfip.alpha x

section Widths

variable {m : Machine} {server : Fin 2 → Machine} {bitlength h w : Nat} {dpfip : DpfInput}

/-! ## Wide accumulators -/

theorem widthIndependent_of_le (hh : h ≤ 30) (hw : w ≤ 64) (high : bitlength ≤ 64)
    (indexWidth : ∀ b, (dpfip.index b).bitsize = h) (alphaWidth : ∀ b, (dpfip.alpha b).bitsize = w)
    (low : w ≤ bitlength) (aes : Cipher) (keys : Fin 2 → Block) :
    WidthIndependent m server bitlength aes h w dpfip keys := by
  have keygen := dpfKeygen_eq m m aes h dpfip keys hw low high le_rfl hw
  have bout := toNat_keygen_Bout m aes (h := h) dpfip keys hw
  have fits := dpfKeygen_fitting m aes (h := h) dpfip keys hw alphaWidth
  rw [← keygen] at bout fits
  refine ⟨keygen, ?_, ?_⟩
  · intro b key
    have width : key.Bout.toNat = w := bout b
    have eval : dpfEvalAll (server b) bitlength aes b key (dpfip.index b) (dpfip.alpha b) =
        dpfEvalAll (server b) w aes b key (dpfip.index b) (dpfip.alpha b) :=
      evalAll_eq (server b) (server b) aes b key (dpfip.index b) (dpfip.alpha b)
        (width.trans_le hw) (width.trans_le low) high width.le hw
    rw [eval]
    exact ⟨rfl, rfl, rfl, rfl⟩
  · exact fits.add_out hh hw (fun _ => rfl) bout indexWidth alphaWidth server bitlength dpfip.index
      dpfip.alpha

/-! ## Narrow accumulators -/

/-- An accumulator of width `bitlength` forgets multiples of `2 ^ bitlength`. -/
theorem accumulator_narrow {nt n : Nat} {σ : Type} (high : bitlength ≤ 64) (s : Schedule nt n)
    (body : Fin n → Fin nt → σ → σ) (acc : σ → Fin nt → Fin 2 → GroupElement)
    (pair : Fin n → Fin 2 → GroupElement)
    (stores : ∀ i t st,
      acc (body i t st) = Function.update (acc st) t (addPair (acc st t) (pair i)))
    (init : σ) (start : ∀ t, acc init t 1 = GroupElement.ofValue 0#64 bitlength)
    (lost : ∀ i, 2 ^ bitlength ∣ (pair i 1).value.toNat) (t : Fin nt) :
    acc (s.run body init) t 1 = GroupElement.ofValue 0#64 bitlength := by
  refine s.run_induct (I := fun _ st => ∀ t, acc st t 1 = GroupElement.ofValue 0#64 bitlength)
    start ?_ t
  intro S i t st fresh inv u
  rw [stores]
  by_cases same : u = t
  · rw [same, Function.update_self]
    show acc st t 1 + pair i 1 = _
    rw [inv t]
    refine GroupElement.ext_res (w := bitlength) rfl rfl ?_
    have none : (pair i 1).res bitlength = 0 := (ZMod.natCast_eq_zero_iff _ _).mpr (lost i)
    rw [GroupElement.res_add high rfl, none, add_zero]
  · rw [Function.update_of_ne same]
    exact inv u

/-- The second component that `convert` cuts out of a block. -/
theorem convert_second (aes : Cipher) (beyond : Nat → Byte) (hw : w ≤ 64) (b : Block) :
    (convert aes beyond w 2 b 1).value.toNat =
      b.toNat / 256 ^ ((w + 7) / 8) % 256 ^ ((w + 7) / 8) % 2 ^ w := by
  have short : 2 * ((w + 7) / 8) ≤ 16 := by omega
  rw [convert_toNat aes beyond hw, convertSource, if_pos short, ofBytes_field]
  · rw [Fin.val_one, Nat.one_mul]
  · rw [Fin.val_one, Nat.one_mul]
    omega

/-! ## Seeds on the leftmost path -/

/-- A cipher under which the left child inherits its parent's seed, and the right child
gets the seed zero. -/
def inheritCipher : Cipher := fun k p => if p = toBlock 0#64 0#64 then k else 0#128

theorem generator_inherit (s : Xor 128) (d : Fin 2) :
    (aesGenerator inheritCipher).seed s d = if d = 0 then s else 0 := by
  revert d
  exact Fin.forall_fin_two.mpr ⟨rfl, rfl⟩

/-- Grown from equal roots with this cipher, both of the dealer's trees keep the seed at
their first node, and have zeros everywhere else. -/
theorem seed_inherit (m : Machine) (h : Nat) (dpfip : DpfInput) (seed : Block) :
    ∀ i b j, (dealtLayer m inheritCipher h dpfip (fun _ => seed) b i j).seed =
      if j.val = 0 then Xor.of seed else 0
  | 0, b, j => by
    rw [if_pos (Nat.lt_one_iff.mp j.isLt)]
    rfl
  | i + 1, b, j => by
    have parents := seed_inherit m h dpfip seed i
    have sigma : (dealtWords m inheritCipher h dpfip (fun _ => seed) i).sigma = 0 :=
      (dealtWords_correct i).sigma_eq_zero fun j => (parents 0 j).trans (parents 1 j).symm
    have parent : j.divNat.val = j.val / 2 := rfl
    have side : j.modNat.val = j.val % 2 := rfl
    show (child (aesGenerator inheritCipher) _
      (dealtLayer m inheritCipher h dpfip (fun _ => seed) b i j.divNat) j.modNat).seed = _
    rw [child_seed_of_sigma sigma, parents, generator_inherit]
    by_cases first : j.val = 0
    · rw [if_pos (Fin.ext (side.trans (by omega))), if_pos (parent.trans (by omega)), if_pos first]
    · rw [if_neg first]
      by_cases left : j.modNat = 0
      · have even : j.val % 2 = 0 := side.symm.trans (congrArg Fin.val left)
        rw [if_pos left, if_neg (by omega)]
      · rw [if_neg left]

/-- A seed whose second component is `2 ^ bitlength`. -/
def spikeSeed (w bitlength : Nat) : Block := BitVec.ofNat 128 (256 ^ ((w + 7) / 8) * 2 ^ bitlength)

theorem convert_spikeSeed (aes : Cipher) (beyond : Nat → Byte) (hw : w ≤ 64)
    (narrow : bitlength < w) :
    (convert aes beyond w 2 (spikeSeed w bitlength) 1).value.toNat = 2 ^ bitlength := by
  have bytes : ∀ k, 256 ^ k = 2 ^ (8 * k) := fun k => by rw [Nat.pow_mul]
  have fits : 256 ^ ((w + 7) / 8) * 2 ^ bitlength < 2 ^ 128 := by
    rw [bytes, ← Nat.pow_add]
    exact Nat.pow_lt_pow_right (by decide) (by omega)
  have inside : 2 ^ bitlength < 256 ^ ((w + 7) / 8) := by
    rw [bytes]
    exact Nat.pow_lt_pow_right (by decide) (by omega)
  rw [convert_second aes beyond hw, spikeSeed, BitVec.toNat_ofNat, Nat.mod_eq_of_lt fits,
    Nat.mul_div_cancel_left _ (Nat.pow_pos (by decide)), Nat.mod_eq_of_lt inside,
    Nat.mod_eq_of_lt (Nat.pow_lt_pow_right (by decide) narrow)]

theorem convert_zeroSeed (aes : Cipher) (beyond : Nat → Byte) (hw : w ≤ 64) :
    (convert aes beyond w 2 0#128 1).value.toNat = 0 := by
  rw [convert_second aes beyond hw]
  simp

/-- The total over the leaves is what the first leaf contributes. -/
theorem leafSum_spike (hw : w ≤ 64) (narrow : bitlength < w) :
    leafSum (leafConv inheritCipher w 1)
      (dealtLayer m inheritCipher h dpfip (fun _ => spikeSeed w bitlength) 0 h) =
      ((2 ^ bitlength : Nat) : ZMod (2 ^ w)) := by
  have seeds := seed_inherit m h dpfip (spikeSeed w bitlength) h 0
  rw [leafSum, Finset.sum_eq_single_of_mem ⟨0, Nat.two_pow_pos h⟩ (Finset.mem_univ _)]
  · rw [seeds, if_pos rfl]
    exact congrArg Nat.cast (convert_spikeSeed inheritCipher (fun _ => 0#8) hw narrow)
  · intro j _ later
    rw [seeds, if_neg fun zero => later (Fin.ext zero)]
    refine (congrArg Nat.cast (convert_zeroSeed inheritCipher (fun _ => 0#8) hw)).trans ?_
    exact Nat.cast_zero

/-- The dealer's total vanishes when all contributions are lost. -/
theorem keygen_W_narrow (aes : Cipher) (keys : Fin 2 → Block) (hw : w ≤ 64)
    (narrow : bitlength < w)
    (lost : ∀ j, 2 ^ bitlength ∣
      (convert aes m.beyond w 2 ((keygenLevels m aes h dpfip keys h).hats 0 j) 1).value.toNat) :
    ((dpfKeygen m bitlength aes h w dpfip keys).ip2.W 0 1).res w = 0 := by
  let st := keygenLevels m aes h dpfip keys h
  refine (merge_pairs hw (keygenLeaves m bitlength aes w st).threadW0 1).2.trans ?_
  refine Finset.sum_eq_zero fun t _ => ?_
  have empty : (keygenLeaves m bitlength aes w st).threadW0 t 1 =
      GroupElement.ofValue 0#64 bitlength :=
    accumulator_narrow (narrow.le.trans hw) (m.schedule (.leaves 0) (2 ^ h))
      (keygenLeaf m aes w st.hats st.hatt) KeygenLeafState.threadW0
      (fun j => convert aes m.beyond w 2 (st.hats 0 j)) (fun _ _ _ => rfl) _
      (fun t => if_neg fun both => absurd both.2 (by decide)) lost t
  rw [empty]
  exact GroupElement.res_zero bitlength w

/-- With `bitlength` below the output width the dealer loses the total of the seeds that
`seed_inherit` describes. -/
theorem not_widthIndependent (hw : w ≤ 64) (narrow : bitlength < w) :
    ¬ WidthIndependent m server bitlength inheritCipher h w dpfip
      fun _ => spikeSeed w bitlength := by
  intro same
  let keys : Fin 2 → Block := fun _ => spikeSeed w bitlength
  have planted := planted_keygenLevels m inheritCipher h dpfip keys h
  have lost : ∀ j, 2 ^ bitlength ∣ (convert inheritCipher m.beyond w 2
      ((keygenLevels m inheritCipher h dpfip keys h).hats 0 j) 1).value.toNat := by
    intro j
    have seed := seed_inherit m h dpfip (spikeSeed w bitlength) h 0 j
    have hats : (keygenLevels m inheritCipher h dpfip keys h).hats 0 j =
        if j.val = 0 then spikeSeed w bitlength else 0#128 :=
      (congrArg Node.seed (planted.nodes 0 j)).symm.trans seed
    rw [hats]
    split
    · rw [convert_spikeSeed inheritCipher m.beyond hw narrow]
    · rw [convert_zeroSeed inheritCipher m.beyond hw]
      exact dvd_zero _
  have kept := (keygen_W m inheritCipher h dpfip keys hw le_rfl hw 0 1).2
  rw [← same.keygen, keygen_W_narrow inheritCipher keys hw narrow lost,
    leafSum_spike hw narrow] at kept
  have divides := (ZMod.natCast_eq_zero_iff _ _).mp kept.symm
  exact absurd (Nat.le_of_dvd (Nat.two_pow_pos bitlength) divides)
    (Nat.not_le.mpr (Nat.pow_lt_pow_right (by decide) narrow))

end Widths

/-! ## The exact condition -/

/-- The global `bitlength` has no influence, whatever AES and the seeds are, if and only
if it is not below the output width. -/
theorem widthIndependent_iff (m : Machine) (server : Fin 2 → Machine) {bitlength h w : Nat}
    (dpfip : DpfInput) (hh : h ≤ 30) (hw : w ≤ 64) (high : bitlength ≤ 64)
    (indexWidth : ∀ b, (dpfip.index b).bitsize = h)
    (alphaWidth : ∀ b, (dpfip.alpha b).bitsize = w) :
    (∀ aes keys, WidthIndependent m server bitlength aes h w dpfip keys) ↔ w ≤ bitlength := by
  constructor
  · intro independent
    by_contra narrow
    exact not_widthIndependent hw (Nat.not_le.mp narrow) (independent inheritCipher _)
  · intro low aes keys
    exact widthIndependent_of_le hh hw high indexWidth alphaWidth low aes keys

theorem widthIndependent_iff_toy :
    WidthIndependent toyDealer toyServers 20 toyCipher 1 8 toyInput toySeeds :=
  (widthIndependent_iff toyDealer toyServers toyInput (by decide) (by decide) (by decide)
    toyInput_index toyInput_alpha).mpr (by decide) toyCipher toySeeds

/-- A cipher under which the seeds at the leaves of a tree of height one differ. -/
def productCipher : Cipher := fun k p => k * (p + 1#128)

/-- Shares of the index 1 and of the payload 200, in 16 bits. -/
def wideInput : DpfInput where
  index := ![GroupElement.ofValue 1#64 1, GroupElement.ofValue 0#64 1]
  alpha := ![GroupElement.ofValue 150#64 16, GroupElement.ofValue 50#64 16]

/-- With a global `bitlength` of 8 the outputs of width 16 add up to 712 in place of the
payload 200. -/
theorem not_widthIndependent_wide :
    ¬ WidthIndependent toyDealer toyServers 8 productCipher 1 16 wideInput
      ![0x1000003#128, 5#128] := by
  intro same
  have payload := congrArg (fun pair => (pair 1).value) (same.sum 1)
  revert payload
  decide

end DpfPir
