import DpfPir.PointFunction

/-!
# Accepted keys

The client's check against an arbitrary dealer: the keys, and the pack that the
dealer reports, are arbitrary. The two servers evaluate honestly.

Results:
1. `AgreesUpToTotals.fitting`: keys whose evaluations agree with a dealer's pack
   fit the queried path and the payload.
2. `checkXor_sound`: after acceptance the outputs add up to the point function.
3. `checkXor_complete`: the keys and the pack of `dpf_keygen` are accepted.
4. `checkXor_determines_keys`: the correction words of accepted keys are
   determined by the seeds, the index and the payload, and are the dealer's.
-/

namespace DpfPir

open LittleEndian Words ParallelLoop CorrectionTree

/-! ## The packs of full-domain evaluation -/

section Packs

variable {h w : Nat} (m : Machine) (bitlength : Nat) (aes : Cipher) (party : Fin 2) (key : DpfKey)
  (index payload : GroupElement)

theorem evalAll_T_at (height : key.height = h) :
    (dpfEvalAll m bitlength aes party key index payload).icp.T =
      leafCount (keyLayer aes party key h) := by
  subst height
  exact evalAll_T m bitlength aes party key index payload

theorem evalAll_W_at (hw : w ≤ 64) (bout : key.Bout.toNat = w) (low : w ≤ bitlength)
    (high : bitlength ≤ 64) (height : key.height = h) (e : Fin 2) :
    ((dpfEvalAll m bitlength aes party key index payload).icp.W e).bitsize = w ∧
    ((dpfEvalAll m bitlength aes party key index payload).icp.W e).res w =
      leafSum (leafConv aes w e) (keyLayer aes party key h) := by
  subst height
  exact evalAll_W m bitlength aes party key index payload hw bout low high e

variable {bitlength key payload} in
theorem evalAll_widths (hw : w ≤ 64) (bout : key.Bout.toNat = w) (low : w ≤ bitlength)
    (high : bitlength ≤ 64) (payloadWidth : payload.bitsize = w)
    (gammaWidth : ∀ e, (key.gamma e).bitsize = w) :
    PackWidths w (dpfEvalAll m bitlength aes party key index payload).icp where
  payload := payloadWidth
  W e := (evalAll_W m bitlength aes party key index payload hw bout low high e).1
  gamma e := by rw [evalAll_gamma]; exact gammaWidth e

end Packs

/-! ## Accepted keys fit -/

section Accepted

variable {aes : Cipher} {h w : Nat} {key : Fin 2 → DpfKey} {index payload : Fin 2 → GroupElement}
  {m : Fin 2 → Machine} {x2 : InputCheckPack2}

/-- The packs that the two servers fill in for the client. -/
def serverPack (m : Fin 2 → Machine) (bitlength : Nat) (aes : Cipher) (key : Fin 2 → DpfKey)
    (index payload : Fin 2 → GroupElement) (b : Fin 2) : InputCheckPack :=
  (dpfEvalAll (m b) bitlength aes b (key b) (index b) (payload b)).icp

variable (aes key index payload m) in
/-- The equation of the check on the final correction word, by the trees of the keys. -/
theorem serverPack_final (hw : w ≤ 64) (height : ∀ b, (key b).height = h)
    (bout : ∀ b, (key b).Bout.toNat = w) (e : Fin 2) :
    let pack := serverPack m w aes key index payload
    (((pack 0).gamma e).res w =
      finalWord ((pack 0).T.slt (pack 1).T) (((pack 0).W e).res w) (((pack 1).W e).res w)
        (betaRes w (pack 0).payload (pack 1).payload e)) ↔
    (((key 0).gamma e).res w =
      finalWord ((leafCount (keyLayer aes 0 (key 0) h)).slt (leafCount (keyLayer aes 1 (key 1) h)))
        (leafSum (leafConv aes w e) (keyLayer aes 0 (key 0) h))
        (leafSum (leafConv aes w e) (keyLayer aes 1 (key 1) h))
        (betaRes w (payload 0) (payload 1) e)) := by
  intro pack
  have T := fun b => evalAll_T_at (m b) w aes b (key b) (index b) (payload b) (height b)
  have W := fun b =>
    (evalAll_W_at (m b) w aes b (key b) (index b) (payload b) hw (bout b) le_rfl hw (height b)
      e).2
  have gamma := evalAll_gamma (m 0) w aes 0 (key 0) (index 0) (payload 0) e
  rw [← T 0, ← T 1, ← W 0, ← W 1, ← gamma]
  rfl

theorem agrees_words
    (agrees : AgreesUpToTotals w (serverPack m w aes key index payload 0)
      (serverPack m w aes key index payload 1) x2)
    (height : ∀ b, (key b).height = h) {i : Nat} (hi : i < h) :
    keyWords (key 0) i = keyWords (key 1) i := by
  have h0 : i < (key 0).height := by rw [height]; exact hi
  have h1 : i < (key 1).height := by rw [height]; exact hi
  have h2 : i < x2.size := agrees.size12 ▸ h1
  have level := agrees.levels ⟨i, h0⟩ ⟨i, h1⟩ ⟨i, h2⟩ rfl rfl
  have sigma0 := evalAll_sigma (m 0) w aes 0 (key 0) (index 0) (payload 0) ⟨i, h0⟩
  have sigma1 := evalAll_sigma (m 1) w aes 1 (key 1) (index 1) (payload 1) ⟨i, h1⟩
  rw [keyWords_of_lt _ h0, keyWords_of_lt _ h1]
  refine Word.ext ?_ (funext fun d => ?_)
  · exact congrArg Xor.of
      (sigma0.symm.trans (level.sigma0.trans (level.sigma1.symm.trans sigma1)))
  · have tau0 := evalAll_tau (m 0) w aes 0 (key 0) (index 0) (payload 0) ⟨i, h0⟩ d
    have tau1 := evalAll_tau (m 1) w aes 1 (key 1) (index 1) (payload 1) ⟨i, h1⟩ d
    exact congrArg Xor.of
      (tau0.symm.trans ((level.tau0 d).trans ((level.tau1 d).symm.trans tau1)))

/-- One level of an accepted pack: the equations of the check are the equations of
a fitting correction word. -/
theorem agrees_correct
    (agrees : AgreesUpToTotals w (serverPack m w aes key index payload 0)
      (serverPack m w aes key index payload 1) x2)
    (height : ∀ b, (key b).height = h) {i : Nat} (hi : i < h) :
    Correct (aesGenerator aes) (keyLayer aes 0 (key 0) i) (keyLayer aes 1 (key 1) i)
      (keyWords (key 0) i) (pathDirs h (index 0 + index 1).value i) := by
  have h0 : i < (key 0).height := by rw [height]; exact hi
  have h1 : i < (key 1).height := by rw [height]; exact hi
  have h2 : i < x2.size := agrees.size12 ▸ h1
  have level := agrees.levels ⟨i, h0⟩ ⟨i, h1⟩ ⟨i, h2⟩ rfl rfl
  have dir : queryDir (serverPack m w aes key index payload 0)
      (serverPack m w aes key index payload 1) ⟨i, h0⟩ =
      pathDirs h (index 0 + index 1).value i := by
    show pathDir (index 0 + index 1).value ((key 0).height - 1 - i) = _
    rw [height]
    rfl
  have sigma0 := evalAll_sigma (m 0) w aes 0 (key 0) (index 0) (payload 0) ⟨i, h0⟩
  rw [keyWords_of_lt _ h0]
  constructor
  · have zs0 := evalAll_zs (m 0) w aes 0 (key 0) (index 0) (payload 0) ⟨i, h0⟩
    have zs1 := evalAll_zs (m 1) w aes 1 (key 1) (index 1) (payload 1) ⟨i, h1⟩
    have sigma := sigma0.symm.trans (level.sigma0.trans level.sigma)
    rw [dir] at sigma
    show Xor.of ((key 0).sigma ⟨i, h0⟩) = _
    rw [sigma, ← zs0, ← zs1]
    rfl
  · intro d
    have zt0 := evalAll_zt (m 0) w aes 0 (key 0) (index 0) (payload 0) ⟨i, h0⟩ d
    have zt1 := evalAll_zt (m 1) w aes 1 (key 1) (index 1) (payload 1) ⟨i, h1⟩ d
    have tau0 := evalAll_tau (m 0) w aes 0 (key 0) (index 0) (payload 0) ⟨i, h0⟩ d
    have tau := tau0.symm.trans ((level.tau0 d).trans (level.tau d))
    rw [dir] at tau
    show Xor.of (![(key 0).tau0 ⟨i, h0⟩, (key 0).tau1 ⟨i, h0⟩] d) = _
    rw [tau, Xor.of_xor, Xor.of_xor, apply_ite Xor.of, ← zt0, ← zt1]
    rfl

/-- Keys whose evaluations agree with what some dealer reports are fitting keys. -/
theorem AgreesUpToTotals.fitting
    (agrees : AgreesUpToTotals w (serverPack m w aes key index payload 0)
      (serverPack m w aes key index payload 1) x2)
    (hw : w ≤ 64) (height : ∀ b, (key b).height = h) (bout : ∀ b, (key b).Bout.toNat = w) :
    Fitting aes h w (index 0 + index 1).value (betaRes w (payload 0) (payload 1)) key where
  words i hi := agrees_words agrees height hi
  corrects := by
    intro i hi
    have same : keyLayer aes 1 (key 1) i =
        layer (aesGenerator aes) (keyRoot 1 (key 1)) (keyWords (key 0)) i :=
      (layer_congr (aesGenerator aes) (fun k hk => agrees_words agrees height hk) i hi.le).symm
    rw [← same]
    exact agrees_correct agrees height hi
  gamma e := by
    have gamma0 := agrees.final.gamma0 e
    have gamma1 := agrees.final.gamma1 e
    rw [serverPack, evalAll_gamma] at gamma0 gamma1
    rw [GroupElement.res, gamma0, ← gamma1]
    rfl
  final e := (serverPack_final aes key index payload m hw height bout e).mp (agrees.final.final e)

/-- Accepted keys are fitting keys. -/
theorem fitting_of_accepted (hw : w ≤ 64) (height : ∀ b, (key b).height = h)
    (bout : ∀ b, (key b).Bout.toNat = w) (gammaWidth : ∀ b e, ((key b).gamma e).bitsize = w)
    (payloadWidth : ∀ b, (payload b).bitsize = w)
    (accepted : checkXor w (serverPack m w aes key index payload 0)
      (serverPack m w aes key index payload 1) x2 = true) :
    Fitting aes h w (index 0 + index 1).value (betaRes w (payload 0) (payload 1)) key := by
  have widths : PackWidths w (serverPack m w aes key index payload 0) :=
    evalAll_widths (m 0) aes 0 (index 0) hw (bout 0) le_rfl hw (payloadWidth 0) (gammaWidth 0)
  obtain ⟨agrees, -⟩ := (checkXor_iff hw widths).mp accepted
  exact agrees.fitting hw height bout

variable (m aes key index payload x2) in
/-- Soundness of the client's check: whatever the dealer sent, the outputs of
accepted keys add up to the point function. -/
theorem checkXor_sound (hh : h ≤ 30) (hw : w ≤ 64) (height : ∀ b, (key b).height = h)
    (bout : ∀ b, (key b).Bout.toNat = w) (gammaWidth : ∀ b e, ((key b).gamma e).bitsize = w)
    (indexWidth : ∀ b, (index b).bitsize = h) (payloadWidth : ∀ b, (payload b).bitsize = w)
    (accepted : checkXor w (serverPack m w aes key index payload 0)
      (serverPack m w aes key index payload 1) x2 = true) (x : Fin (2 ^ h)) :
    let eval := fun b => dpfEvalAll (m b) w aes b (key b) (index b) (payload b)
    addPair ((eval 0).out (leafAt (height 0) x)) ((eval 1).out (leafAt (height 1) x)) =
      pointFunction h w index payload x :=
  (fitting_of_accepted hw height bout gammaWidth payloadWidth accepted).add_out hh hw height bout
    indexWidth payloadWidth m w index payload x

end Accepted

/-! ## The dealer's keys are accepted -/

section Dealt

variable (dealer : Machine) (m : Fin 2 → Machine) (aes : Cipher) {h w : Nat} (dpfip : DpfInput)
  (keys : Fin 2 → Block)

/-- The pack that server `b` fills in for the keys of `dpf_keygen`, from the shares
that the dealer recorded. -/
def dealtPack (w h : Nat) (b : Fin 2) : InputCheckPack :=
  let dealt := dpfKeygen dealer w aes h w dpfip keys
  serverPack m w aes dealt.key dealt.ip2.index dealt.ip2.payload b

/-- The sums of one level that the servers recompute are the dealer's. -/
theorem dealt_sums (k : Fin h) (d : Fin 2) :
    let ip2 := (dpfKeygen dealer w aes h w dpfip keys).ip2
    (dealtPack dealer m aes dpfip keys w h 0).zs d k = ip2.zs0 d k ∧
    (dealtPack dealer m aes dpfip keys w h 1).zs d k = ip2.zs1 d k ∧
    (dealtPack dealer m aes dpfip keys w h 0).zt d k = ip2.zt0 d k ∧
    (dealtPack dealer m aes dpfip keys w h 1).zt d k = ip2.zt1 d k := by
  intro ip2
  have layer := fun b => keygen_layer dealer w aes h w dpfip keys b k.isLt.le
  have zs := fun b => evalAll_zs (m b) w aes b ((dpfKeygen dealer w aes h w dpfip keys).key b)
    (ip2.index b) (ip2.payload b) k d
  have zt := fun b => evalAll_zt (m b) w aes b ((dpfKeygen dealer w aes h w dpfip keys).key b)
    (ip2.index b) (ip2.payload b) k d
  simp only [layer] at zs zt
  exact ⟨(zs 0).trans (keygen_zs0 dealer w aes h w dpfip keys k d).symm,
    (zs 1).trans (keygen_zs1 dealer w aes h w dpfip keys k d).symm,
    (zt 0).trans (keygen_zt0 dealer w aes h w dpfip keys k d).symm,
    (zt 1).trans (keygen_zt1 dealer w aes h w dpfip keys k d).symm⟩

/-- The correction word of one level as the servers report it is the dealer's. -/
theorem dealt_word (b : Fin 2) (k : Fin h) :
    let ip2 := (dpfKeygen dealer w aes h w dpfip keys).ip2
    (dealtPack dealer m aes dpfip keys w h b).sigma k = ip2.sigma k ∧
    ∀ d, (dealtPack dealer m aes dpfip keys w h b).tau d k = ip2.tau d k := by
  intro ip2
  refine ⟨evalAll_sigma (m b) w aes b ((dpfKeygen dealer w aes h w dpfip keys).key b)
    (ip2.index b) (ip2.payload b) k, fun d => ?_⟩
  have tau := evalAll_tau (m b) w aes b ((dpfKeygen dealer w aes h w dpfip keys).key b)
    (ip2.index b) (ip2.payload b) k d
  match d with
  | 0 => exact tau
  | 1 => exact tau

/-- Every level of the dealer's record is what the servers recompute. -/
theorem dealt_level (hw : w ≤ 64) (alphaWidth : ∀ b, (dpfip.alpha b).bitsize = w) (k : Fin h) :
    LevelConsistent (dealtPack dealer m aes dpfip keys w h 0)
      (dealtPack dealer m aes dpfip keys w h 1) (dpfKeygen dealer w aes h w dpfip keys).ip2
      k k k := by
  have sums := dealt_sums dealer m aes (w := w) dpfip keys k
  have word := fun b => dealt_word dealer m aes (w := w) dpfip keys b k
  have fits := dpfKeygen_fitting dealer aes (h := h) dpfip keys hw alphaWidth
  have correct := fits.correct k.isLt
  have server := fun b => evalAll_zs (m b) w aes b ((dpfKeygen dealer w aes h w dpfip keys).key b)
    (dpfip.index b) (dpfip.alpha b) k
  have serverBit := fun b => evalAll_zt (m b) w aes b
    ((dpfKeygen dealer w aes h w dpfip keys).key b) (dpfip.index b) (dpfip.alpha b) k
  have sigma := correct.sigma
  have tau := correct.tau
  rw [keyWords_of_lt _ k.isLt] at sigma
  rw [keyWords_of_lt _ k.isLt] at tau
  exact
    { zs0 := fun d => (sums d).1
      zs1 := fun d => (sums d).2.1
      zt0 := fun d => (sums d).2.2.1
      zt1 := fun d => (sums d).2.2.2
      sigma0 := (word 0).1
      sigma1 := (word 1).1
      sigma := sigma.trans (congrArg₂ (· + ·) (server 0 _).symm (server 1 _).symm)
      tau0 := (word 0).2
      tau1 := (word 1).2
      tau := by
        intro b
        have bits := tau b
        rw [← serverBit 0 b, ← serverBit 1 b] at bits
        have recorded : (dpfKeygen dealer w aes h w dpfip keys).ip2.tau b k =
            ![((dpfKeygen dealer w aes h w dpfip keys).key 0).tau0 k,
              ((dpfKeygen dealer w aes h w dpfip keys).key 0).tau1 k] b := by
          match b with
          | 0 => rfl
          | 1 => rfl
        refine recorded.trans (Eq.trans bits ?_)
        show _ = _ ^^^ _ ^^^
          (if b = pathDirs h (dpfip.index 0 + dpfip.index 1).value k then 1#8 else 0#8)
        split <;> rfl }

theorem dealt_T (b : Fin 2) : (dealtPack dealer m aes dpfip keys w h b).T =
    (dpfKeygen dealer w aes h w dpfip keys).ip2.T b := by
  have server := evalAll_T (m b) w aes b ((dpfKeygen dealer w aes h w dpfip keys).key b)
    (dpfip.index b) (dpfip.alpha b)
  have layer := keygen_layer dealer w aes h w dpfip keys b le_rfl
  rw [keygen_T, ← layer]
  match b with
  | 0 => exact server
  | 1 => exact server

theorem dealt_W (hw : w ≤ 64) (b e : Fin 2) : (dealtPack dealer m aes dpfip keys w h b).W e =
    (dpfKeygen dealer w aes h w dpfip keys).ip2.W b e := by
  obtain ⟨width, sum⟩ := evalAll_W_at (h := h) (m b) w aes b
    ((dpfKeygen dealer w aes h w dpfip keys).key b)
    ((dpfKeygen dealer w aes h w dpfip keys).ip2.index b)
    ((dpfKeygen dealer w aes h w dpfip keys).ip2.payload b) hw
    (toNat_keygen_Bout dealer aes dpfip keys hw b) le_rfl hw rfl e
  obtain ⟨width', sum'⟩ := keygen_W dealer aes h dpfip keys hw le_rfl hw b e
  rw [keygen_layer dealer w aes h w dpfip keys b le_rfl] at sum
  exact GroupElement.ext_res width width' (sum.trans sum'.symm)

theorem dealt_final (hw : w ≤ 64) (alphaWidth : ∀ b, (dpfip.alpha b).bitsize = w) (e : Fin 2) :
    ((dealtPack dealer m aes dpfip keys w h 0).gamma e).res w =
      finalWord ((dealtPack dealer m aes dpfip keys w h 0).T.slt
          (dealtPack dealer m aes dpfip keys w h 1).T)
        (((dealtPack dealer m aes dpfip keys w h 0).W e).res w)
        (((dealtPack dealer m aes dpfip keys w h 1).W e).res w)
        (betaRes w (dpfip.alpha 0) (dpfip.alpha 1) e) := by
  have fits := dpfKeygen_fitting dealer aes (h := h) dpfip keys hw alphaWidth
  have final := serverPack_final aes (dpfKeygen dealer w aes h w dpfip keys).key dpfip.index
    dpfip.alpha m hw (fun _ => rfl) (toNat_keygen_Bout dealer aes dpfip keys hw) e
  exact final.mpr (fits.final e)

/-- The servers recompute from the keys of `dpf_keygen` everything that the dealer
recorded, and the tested equations hold. -/
theorem dealt_consistent (hw : w ≤ 64) (alphaWidth : ∀ b, (dpfip.alpha b).bitsize = w) :
    Consistent w (dealtPack dealer m aes dpfip keys w h 0)
      (dealtPack dealer m aes dpfip keys w h 1) (dpfKeygen dealer w aes h w dpfip keys).ip2 where
  index0 := rfl
  index1 := rfl
  payload0 := rfl
  payload1 := rfl
  size01 := rfl
  size12 := rfl
  levels := by
    intro i0 i1 i2 same01 same12
    obtain rfl : i1 = i0 := Fin.ext same01.symm
    obtain rfl : i2 = i1 := Fin.ext same12.symm
    exact dealt_level dealer m aes dpfip keys hw alphaWidth i2
  final :=
    { W0 := fun e => congrArg GroupElement.value (dealt_W dealer m aes dpfip keys hw 0 e)
      W1 := fun e => congrArg GroupElement.value (dealt_W dealer m aes dpfip keys hw 1 e)
      gamma0 := fun e => by rw [dealtPack, serverPack, evalAll_gamma]; rfl
      gamma1 := fun e => by rw [dealtPack, serverPack, evalAll_gamma]; rfl
      final := dealt_final dealer m aes dpfip keys hw alphaWidth }
  T0 := dealt_T dealer m aes dpfip keys 0
  T1 := dealt_T dealer m aes dpfip keys 1

/-- Completeness of the client's check. -/
theorem checkXor_complete (hw : w ≤ 64) (alphaWidth : ∀ b, (dpfip.alpha b).bitsize = w) :
    checkXor w (dealtPack dealer m aes dpfip keys w h 0) (dealtPack dealer m aes dpfip keys w h 1)
      (dpfKeygen dealer w aes h w dpfip keys).ip2 = true ∧
    Consistent w (dealtPack dealer m aes dpfip keys w h 0) (dealtPack dealer m aes dpfip keys w h 1)
      (dpfKeygen dealer w aes h w dpfip keys).ip2 := by
  have consistent := dealt_consistent dealer m aes (h := h) dpfip keys hw alphaWidth
  have widths : PackWidths w (dealtPack dealer m aes dpfip keys w h 0) :=
    evalAll_widths (m 0) aes 0 _ hw (toNat_keygen_Bout dealer aes dpfip keys hw 0) le_rfl hw
      (alphaWidth 0) (keygen_gamma_width dealer aes dpfip keys hw (alphaWidth 0) 0)
  exact ⟨(checkXor_iff hw widths).mpr ⟨consistent.toAgreesUpToTotals, Or.inl consistent.T0⟩,
    consistent⟩

end Dealt

/-! ## Accepted keys are determined -/

/-- Two keys with the same correction words and the same final correction word. -/
structure SameCorrection (k k' : DpfKey) : Prop where
  sigma : ∀ i (hi : i < k.height) (hi' : i < k'.height), k.sigma ⟨i, hi⟩ = k'.sigma ⟨i, hi'⟩
  tau0 : ∀ i (hi : i < k.height) (hi' : i < k'.height), k.tau0 ⟨i, hi⟩ = k'.tau0 ⟨i, hi'⟩
  tau1 : ∀ i (hi : i < k.height) (hi' : i < k'.height), k.tau1 ⟨i, hi⟩ = k'.tau1 ⟨i, hi'⟩
  gamma : ∀ e, k.gamma e = k'.gamma e

section Unique

variable {aes : Cipher} {h w : Nat} {beta : Fin 2 → ZMod (2 ^ w)} {target : BitVec 64}
  {key key' : Fin 2 → DpfKey}

/-- The words of two keys at one level determine each other field by field. -/
theorem sameCorrection_of_words {k k' : DpfKey} (height : k.height = h)
    (words : ∀ i, i < h → keyWords k i = keyWords k' i) (gamma : ∀ e, k.gamma e = k'.gamma e) :
    SameCorrection k k' := by
  have word : ∀ i (hi : i < k.height) (hi' : i < k'.height),
      k.sigma ⟨i, hi⟩ = k'.sigma ⟨i, hi'⟩ ∧
      ∀ d, ![k.tau0 ⟨i, hi⟩, k.tau1 ⟨i, hi⟩] d = ![k'.tau0 ⟨i, hi'⟩, k'.tau1 ⟨i, hi'⟩] d := by
    intro i hi hi'
    have same := words i (height ▸ hi)
    rw [keyWords_of_lt k hi, keyWords_of_lt k' hi'] at same
    obtain ⟨sigma, tau⟩ := Word.ext_iff.mp same
    exact ⟨sigma, fun d => congrFun tau d⟩
  exact
    { sigma := fun i hi hi' => (word i hi hi').1
      tau0 := fun i hi hi' => (word i hi hi').2 0
      tau1 := fun i hi hi' => (word i hi hi').2 1
      gamma := gamma }

/-- The second key of a run repeats the corrections of the first. -/
theorem Fitting.words_first (fits : Fitting aes h w target beta key) (b : Fin 2) {i : Nat}
    (hi : i < h) : keyWords (key b) i = keyWords (key 0) i := by
  match b with
  | 0 => rfl
  | 1 => exact (fits.words i hi).symm

theorem Fitting.gamma_first (fits : Fitting aes h w target beta key) (b e : Fin 2) :
    ((key b).gamma e).res w = ((key 0).gamma e).res w := by
  match b with
  | 0 => rfl
  | 1 => exact (fits.gamma e).symm

/-- Fitting keys from the same seeds, for the same path and output, have the same
correction words and hence grow the same trees. -/
theorem Fitting.words_eq (fits : Fitting aes h w target beta key)
    (fits' : Fitting aes h w target beta key') (seeds : ∀ b, (key b).s = (key' b).s)
    (b b' : Fin 2) {i : Nat} (hi : i < h) : keyWords (key b) i = keyWords (key' b') i := by
  have root : ∀ b, keyRoot b (key b) = keyRoot b (key' b) := by
    intro b
    rw [keyRoot, keyRoot, seeds b]
  have first := fits'.corrects
  rw [← root 0, ← root 1] at first
  -- the two keys of a run share their words, so the first keys decide
  calc keyWords (key b) i
      = keyWords (key 0) i := fits.words_first b hi
    _ = keyWords (key' 0) i := words_unique fits.corrects first i hi
    _ = keyWords (key' b') i := (fits'.words_first b' hi).symm

theorem Fitting.keyLayer_eq (fits : Fitting aes h w target beta key)
    (fits' : Fitting aes h w target beta key') (seeds : ∀ b, (key b).s = (key' b).s)
    (b : Fin 2) : keyLayer aes b (key b) h = keyLayer aes b (key' b) h := by
  rw [keyLayer, keyLayer, keyRoot, keyRoot, seeds b]
  exact layer_congr (aesGenerator aes) (fun i hi => fits.words_eq fits' seeds b b hi) h le_rfl

theorem Fitting.gamma_eq (fits : Fitting aes h w target beta key)
    (fits' : Fitting aes h w target beta key') (seeds : ∀ b, (key b).s = (key' b).s)
    (width : ∀ b e, ((key b).gamma e).bitsize = w) (width' : ∀ b e, ((key' b).gamma e).bitsize = w)
    (b b' : Fin 2) (e : Fin 2) : (key b).gamma e = (key' b').gamma e := by
  have same : ((key 0).gamma e).res w = ((key' 0).gamma e).res w := by
    rw [fits.final e, fits'.final e, fits.keyLayer_eq fits' seeds 0, fits.keyLayer_eq fits' seeds 1]
  refine GroupElement.ext_res (width b e) (width' b' e) ?_
  rw [fits.gamma_first b, same, fits'.gamma_first b']

theorem Fitting.sameCorrection (fits : Fitting aes h w target beta key)
    (fits' : Fitting aes h w target beta key') (height : ∀ b, (key b).height = h)
    (seeds : ∀ b, (key b).s = (key' b).s) (width : ∀ b e, ((key b).gamma e).bitsize = w)
    (width' : ∀ b e, ((key' b).gamma e).bitsize = w) (b b' : Fin 2) :
    SameCorrection (key b) (key' b') :=
  sameCorrection_of_words (height b) (fun _ hi => fits.words_eq fits' seeds b b' hi)
    (fits.gamma_eq fits' seeds width width' b b')

/-- The output vectors of fitting keys from the same seeds are equal. -/
theorem Fitting.out_eq (fits : Fitting aes h w target beta key)
    (fits' : Fitting aes h w target beta key') (seeds : ∀ b, (key b).s = (key' b).s) (hw : w ≤ 64)
    (height : ∀ b, (key b).height = h) (height' : ∀ b, (key' b).height = h)
    (bout : ∀ b, (key b).Bout.toNat = w) (bout' : ∀ b, (key' b).Bout.toNat = w)
    (width : ∀ b e, ((key b).gamma e).bitsize = w) (width' : ∀ b e, ((key' b).gamma e).bitsize = w)
    (m m' : Machine) (bitlength : Nat) (index payload index' payload' : GroupElement) (b : Fin 2)
    (x : Fin (2 ^ h)) :
    (dpfEvalAll m bitlength aes b (key b) index payload).out (leafAt (height b) x) =
      (dpfEvalAll m' bitlength aes b (key' b) index' payload').out (leafAt (height' b) x) := by
  funext e
  obtain ⟨size, value⟩ := evalAll_out_at aes m bitlength b (key b) index payload hw (bout b)
    (height b) x e
  obtain ⟨size', value'⟩ := evalAll_out_at aes m' bitlength b (key' b) index' payload' hw
    (bout' b) (height' b) x e
  refine GroupElement.ext_res size size' ?_
  rw [value, value', shareValue, shareValue, fits.keyLayer_eq fits' seeds b,
    fits.gamma_eq fits' seeds width width' b b e]

end Unique

/-- Accepted keys are not malleable: two accepted runs with the same seeds, index
and payload, however the index and the payload are split into shares, have the
same correction words and the same outputs, and the correction words are those of
`dpf_keygen`. -/
theorem checkXor_determines_keys (dealer : Machine) (m m' : Fin 2 → Machine) (aes : Cipher)
    {h w : Nat} (key key' : Fin 2 → DpfKey) (index payload index' payload' : Fin 2 → GroupElement)
    (x2 x2' : InputCheckPack2) (hw : w ≤ 64)
    (height : ∀ b, (key b).height = h) (height' : ∀ b, (key' b).height = h)
    (bout : ∀ b, (key b).Bout.toNat = w) (bout' : ∀ b, (key' b).Bout.toNat = w)
    (gammaWidth : ∀ b e, ((key b).gamma e).bitsize = w)
    (gammaWidth' : ∀ b e, ((key' b).gamma e).bitsize = w)
    (payloadWidth : ∀ b, (payload b).bitsize = w) (payloadWidth' : ∀ b, (payload' b).bitsize = w)
    (accepted : checkXor w (serverPack m w aes key index payload 0)
      (serverPack m w aes key index payload 1) x2 = true)
    (accepted' : checkXor w (serverPack m' w aes key' index' payload' 0)
      (serverPack m' w aes key' index' payload' 1) x2' = true)
    (seeds : ∀ b, (key b).s = (key' b).s) (sameIndex : index 0 + index 1 = index' 0 + index' 1)
    (samePayload : payload 0 + payload 1 = payload' 0 + payload' 1) :
    (∀ b b', SameCorrection (key b) (key' b')) ∧
    (∀ b (x : Fin (2 ^ h)),
      (dpfEvalAll (m b) w aes b (key b) (index b) (payload b)).out (leafAt (height b) x) =
        (dpfEvalAll (m' b) w aes b (key' b) (index' b) (payload' b)).out (leafAt (height' b) x)) ∧
    ∀ b b', SameCorrection (key b)
      ((dpfKeygen dealer w aes h w ⟨index, payload⟩ fun b => (key b).s).key b') := by
  have fits := fitting_of_accepted hw height bout gammaWidth payloadWidth accepted
  have fits' := fitting_of_accepted hw height' bout' gammaWidth' payloadWidth' accepted'
  have beta : betaRes w (payload' 0) (payload' 1) = betaRes w (payload 0) (payload 1) := by
    rw [betaRes, betaRes, ← GroupElement.res_add hw (payloadWidth 0),
      ← GroupElement.res_add hw (payloadWidth' 0), samePayload]
  rw [← sameIndex, beta] at fits'
  have dealt := dpfKeygen_fitting dealer aes (h := h) ⟨index, payload⟩ (fun b => (key b).s) hw
    payloadWidth
  have dealtWidth : ∀ b e, (((dpfKeygen dealer w aes h w ⟨index, payload⟩
      fun b => (key b).s).key b).gamma e).bitsize = w :=
    keygen_gamma_width dealer aes ⟨index, payload⟩ (fun b => (key b).s) hw (payloadWidth 0)
  refine ⟨fits.sameCorrection fits' height seeds gammaWidth gammaWidth', ?_, ?_⟩
  · intro b x
    exact fits.out_eq fits' seeds hw height height' bout bout' gammaWidth gammaWidth' (m b) (m' b) w
      (index b) (payload b) (index' b) (payload' b) b x
  · exact fits.sameCorrection dealt height (fun _ => rfl) gammaWidth dealtWidth

/-! ## Runs of height one -/

/-- Other shares of the index 1 and of the payload 200. -/
def toyInput' : DpfInput where
  index := ![GroupElement.ofValue 0#64 1, GroupElement.ofValue 1#64 1]
  alpha := ![GroupElement.ofValue 200#64 8, GroupElement.ofValue 0#64 8]

theorem toyInput'_alpha (b : Fin 2) : (toyInput'.alpha b).bitsize = 8 := by
  revert b; decide

/-- The packs of the two servers for the dealt keys. -/
def toyPack (dpfip : DpfInput) (b : Fin 2) : InputCheckPack :=
  serverPack toyServers 8 toyCipher (toyKeygen dpfip).key dpfip.index dpfip.alpha b

theorem toyGamma_width (b e : Fin 2) :
    (((toyKeygen toyInput).key b).gamma e).bitsize = 8 ∧
    (((toyKeygen toyInput').key b).gamma e).bitsize = 8 := by
  revert b e
  decide

theorem checkXor_sound_toy :
    addPair ((toyEval 0).out 0) ((toyEval 1).out 0) =
      ![GroupElement.ofValue 0#64 8, GroupElement.ofValue 0#64 8] := by
  have accepted : checkXor 8 (toyPack toyInput 0) (toyPack toyInput 1) (toyKeygen toyInput).ip2 =
      true := by
    decide
  exact checkXor_sound toyCipher (toyKeygen toyInput).key toyInput.index toyInput.alpha toyServers
    (toyKeygen toyInput).ip2 (h := 1) (w := 8) (by decide) (by decide) (fun _ => rfl) (fun _ => rfl)
    (fun b e => (toyGamma_width b e).1) toyInput_index toyInput_alpha accepted 0

theorem checkXor_complete_toy :
    checkXor 8 (toyPack toyInput 0) (toyPack toyInput 1) (toyKeygen toyInput).ip2 = true :=
  (checkXor_complete toyDealer toyServers toyCipher (h := 1) toyInput toySeeds (by decide)
    toyInput_alpha).1

theorem checkXor_determines_keys_toy :
    SameCorrection ((toyKeygen toyInput).key 0) ((toyKeygen toyInput').key 1) := by
  have accepted : checkXor 8 (toyPack toyInput 0) (toyPack toyInput 1) (toyKeygen toyInput).ip2 =
      true := by
    decide
  have accepted' : checkXor 8 (toyPack toyInput' 0) (toyPack toyInput' 1)
      (toyKeygen toyInput').ip2 = true := by
    decide
  have run := checkXor_determines_keys toyDealer toyServers toyServers toyCipher (h := 1) (w := 8)
    (toyKeygen toyInput).key (toyKeygen toyInput').key toyInput.index toyInput.alpha
    toyInput'.index toyInput'.alpha (toyKeygen toyInput).ip2 (toyKeygen toyInput').ip2 (by decide)
    (fun _ => rfl) (fun _ => rfl) (fun _ => rfl) (fun _ => rfl)
    (fun b e => (toyGamma_width b e).1) (fun b e => (toyGamma_width b e).2)
    toyInput_alpha toyInput'_alpha accepted accepted' (fun _ => rfl)
  have sameIndex : toyInput.index 0 + toyInput.index 1 =
      toyInput'.index 0 + toyInput'.index 1 := GroupElement.ext rfl (by decide)
  have samePayload : toyInput.alpha 0 + toyInput.alpha 1 =
      toyInput'.alpha 0 + toyInput'.alpha 1 := GroupElement.ext rfl (by decide)
  exact (run sameIndex samePayload).1 0 1

end DpfPir
