import DpfPir.Acceptance
import DpfPir.Session

/-!
# The dimensions of accepted keys

The height and the output width of a key travel with the key. The client compares
the three sizes that it receives with each other, but neither with its own
`input_size` nor the widths with `bitlength`. This module says which dimensions
acceptance leaves open, and what the servers do with them.

Results:
1. `pinned_of_dimensions`: an accepted session whose keys have the right dimensions
   stays inside all arrays, and the rows are shares of the point function.
2. `Forgery.accepted`: for every common height and all output widths there are keys
   and a pack that the client accepts.
3. `accepted_pins_dimensions_iff`: acceptance pins the dimensions exactly when there
   is nothing to pin.
4. `Forgery.aborts`: with forged keys of another height the session reaches a state
   in which both servers have left one of their arrays.
-/

namespace DpfPir

open LittleEndian Words ParallelLoop CorrectionTree Network

/-! ## What acceptance should pin -/

section Pinned

variable {setup : Setup} (session : Session setup)

/-- The rotated index that server `b` reads. -/
def Session.rotatedAt (b : Fin 2) : GroupElement :=
  GroupElement.ofValue session.rotatedIndex.value (session.eval b).icp.size

/-- The dimensions that the servers go on to use: the rows that `inner_prod` reads
exist, the entries that it reads exist, and the rows are shares modulo
`2 ^ bitlength` of the point function. -/
structure Session.Pinned : Prop where
  height : ∀ b, (session.key b).height = setup.inputSize
  bout : ∀ b, (session.key b).Bout.toNat = setup.bitlength
  rows : ∀ b i, i < 2 ^ setup.inputSize → i < 2 ^ (session.key b).height
  entries : ∀ b i, i < 2 ^ setup.inputSize →
    ∃ ind, rotatedInd (session.rotatedAt b) i = some ind ∧ ind < 2 ^ setup.inputSize
  width : ∀ b x e, ((session.eval b).out x e).bitsize = setup.bitlength
  shares : ∀ x, addPair ((session.eval 0).out (leafAt (height 0) x))
      ((session.eval 1).out (leafAt (height 1) x)) =
    pointFunction setup.inputSize setup.bitlength session.index session.payload x

variable {session}

/-- The pack of a server whose key has the output width of the wire arrives unchanged. -/
theorem icp_eq (hn : setup.inputSize ≤ 64) (hw : setup.bitlength ≤ 64) {b : Fin 2}
    (size : (session.key b).height < 2 ^ 64)
    (bout : (session.key b).Bout.toNat = setup.bitlength) :
    session.icp b = (session.eval b).icp := by
  refine InputCheckPack.OnWire.eq hn hw ⟨size, rfl, rfl, fun e => ?_, fun e => ?_⟩
  · exact (evalAll_W _ _ _ _ _ _ _ hw bout le_rfl hw e).1
  · rw [Session.eval, evalAll_gamma]
    rfl

/-- What acceptance says of the packs that the servers make from keys of the right
dimensions. -/
theorem agrees_of_output (hn : setup.inputSize ≤ 30) (hw : setup.bitlength ≤ 64)
    (height : ∀ b, (session.key b).height = setup.inputSize)
    (bout : ∀ b, (session.key b).Bout.toNat = setup.bitlength)
    (accepted : session.output = true) :
    AgreesUpToTotals setup.bitlength (session.eval 0).icp (session.eval 1).icp session.ip2 := by
  have short : ∀ b, (session.key b).height < 2 ^ 64 := by
    intro b
    rw [height b]
    exact lt_of_le_of_lt hn (by decide)
  have tested : checkXor setup.bitlength (session.eval 0).icp (session.eval 1).icp session.ip2 =
      true := by
    rw [← icp_eq (by omega) hw (short 0) (bout 0), ← icp_eq (by omega) hw (short 1) (bout 1)]
    exact accepted
  have widths : PackWidths setup.bitlength (session.eval 0).icp :=
    evalAll_widths (session.server 0).machine session.aes 0 (session.index 0) hw (bout 0) le_rfl hw
      rfl (fun _ => rfl)
  exact ((checkXor_iff hw widths).mp tested).1

/-- Accepted keys of the right dimensions are fitting keys. -/
theorem fitting_of_output (hn : setup.inputSize ≤ 30) (hw : setup.bitlength ≤ 64)
    (height : ∀ b, (session.key b).height = setup.inputSize)
    (bout : ∀ b, (session.key b).Bout.toNat = setup.bitlength)
    (accepted : session.output = true) :
    Fitting session.aes setup.inputSize setup.bitlength
      (session.index 0 + session.index 1).value
      (betaRes setup.bitlength (session.payload 0) (session.payload 1)) session.key :=
  AgreesUpToTotals.fitting (m := fun b => (session.server b).machine)
    (agrees_of_output hn hw height bout accepted) hw height bout

/-- Accepted keys of the right dimensions. -/
theorem pinned_of_dimensions (hn : setup.inputSize ≤ 30) (hw : setup.bitlength ≤ 64)
    (height : ∀ b, (session.key b).height = setup.inputSize)
    (bout : ∀ b, (session.key b).Bout.toNat = setup.bitlength)
    (accepted : session.output = true) : session.Pinned := by
  have fits := fitting_of_output hn hw height bout accepted
  exact
    { height := height
      bout := bout
      rows := fun b i hi => by rw [height b]; exact hi
      entries := fun b i _ =>
        ⟨_, rotatedInd_eq (by omega) (height b) i, Nat.mod_lt _ (Nat.two_pow_pos _)⟩
      width := fun b x e => (evalAll_share _ _ _ _ _ _ _ hw (bout b) x e).1
      shares := fits.add_out hn hw height bout (fun _ => rfl) (fun _ => rfl)
        (fun b => (session.server b).machine) setup.bitlength session.index session.payload }

end Pinned

/-! ## Keys of any dimensions that are accepted -/

/-- The servers that a dealer wants to cheat, and the dimensions of the keys that it
wants them to accept: one height and two output widths. -/
structure Forgery (setup : Setup) where
  aes : Cipher
  server : Fin 2 → ServerSide setup
  stack : Stack
  height : Nat
  bout : Fin 2 → Nat

namespace Forgery

variable {setup : Setup} (forgery : Forgery setup)

/-- Zero shares in the widths of the wire. -/
def input (setup : Setup) : DpfInput where
  index := fun _ => GroupElement.ofValue 0#64 setup.inputSize
  alpha := fun _ => GroupElement.ofValue 0#64 setup.bitlength

/-- The keys and the pack of an honest dealer for a domain of `2 ^ height` points. -/
def deal : Keygen :=
  dpfKeygen (Machine.static 1 (by decide)) setup.bitlength forgery.aes forgery.height
    setup.bitlength (input setup) fun _ => 0#128

/-- The tree of server `b`, which does not depend on the output width. -/
def layer (b : Fin 2) : Fin (2 ^ forgery.height) → Node (Xor 128) (Xor 8) :=
  keyLayer forgery.aes b (forgery.deal.key b) forgery.height

/-- The sums `W` of server `b` for a key of output width `bout b`, as they arrive. -/
def W (b e : Fin 2) : GroupElement :=
  GroupElement.ofValue (leafTotals (forgery.server b).machine setup.bitlength forgery.aes b
    (forgery.bout b) (fun j => (forgery.layer b j).seed.word) e).value setup.bitlength

/-- The final correction word that the client expects for these sums. -/
def gamma (e : Fin 2) : GroupElement :=
  keygenGamma ((leafCount (forgery.layer 0)).slt (leafCount (forgery.layer 1))) (forgery.W 0)
    (forgery.W 1) (betaShares setup.bitlength ((input setup).alpha 0) ((input setup).alpha 1)) e

/-- The honest dealer's keys and pack, but with the output widths `bout`, and with the
final correction word and the sums that go with these. -/
def offer : Offer where
  index := (input setup).index
  alpha := (input setup).alpha
  key := fun b =>
    { forgery.deal.key b with
      Bout := BitVec.ofNat 32 (forgery.bout b)
      gamma := forgery.gamma }
  kgtime := 0#32
  ip2 :=
    { forgery.deal.ip2 with
      T := fun b => leafCount (forgery.layer b)
      W := forgery.W
      gamma := forgery.gamma }

def session : Session setup where
  aes := forgery.aes
  server := forgery.server
  stack := forgery.stack
  offer := forgery.offer

/-- The pack that server `b` would fill in for the honest dealer. -/
def pack (b : Fin 2) : InputCheckPack :=
  dealtPack (Machine.static 1 (by decide)) (fun b => (forgery.server b).machine) forgery.aes
    (input setup) (fun _ => 0#128) setup.bitlength forgery.height b

theorem gamma_res (hw : setup.bitlength ≤ 64) (e : Fin 2) :
    (forgery.gamma e).bitsize = setup.bitlength ∧
    (forgery.gamma e).res setup.bitlength =
      finalWord ((leafCount (forgery.layer 0)).slt (leafCount (forgery.layer 1)))
        ((forgery.W 0 e).res setup.bitlength) ((forgery.W 1 e).res setup.bitlength)
        (betaRes setup.bitlength ((input setup).alpha 0) ((input setup).alpha 1) e) :=
  keygenGamma_res hw rfl rfl

/-- The servers expand the forged keys as they expand the honest dealer's. -/
theorem icp_sums (b d : Fin 2) (k : Fin forgery.height) :
    (forgery.session.icp b).zs d k = (forgery.pack b).zs d k ∧
    (forgery.session.icp b).zt d k = (forgery.pack b).zt d k ∧
    (forgery.session.icp b).sigma k = (forgery.pack b).sigma k ∧
    (forgery.session.icp b).tau d k = (forgery.pack b).tau d k := by
  have zs := evalAll_zs (forgery.server b).machine setup.bitlength forgery.aes b
    (forgery.session.key b) (forgery.session.index b) (forgery.session.payload b) k d
  have zs' := evalAll_zs (forgery.server b).machine setup.bitlength forgery.aes b
    (forgery.deal.key b) (forgery.deal.ip2.index b) (forgery.deal.ip2.payload b) k d
  have zt := evalAll_zt (forgery.server b).machine setup.bitlength forgery.aes b
    (forgery.session.key b) (forgery.session.index b) (forgery.session.payload b) k d
  have zt' := evalAll_zt (forgery.server b).machine setup.bitlength forgery.aes b
    (forgery.deal.key b) (forgery.deal.ip2.index b) (forgery.deal.ip2.payload b) k d
  have sigma := evalAll_sigma (forgery.server b).machine setup.bitlength forgery.aes b
    (forgery.session.key b) (forgery.session.index b) (forgery.session.payload b) k
  have sigma' := evalAll_sigma (forgery.server b).machine setup.bitlength forgery.aes b
    (forgery.deal.key b) (forgery.deal.ip2.index b) (forgery.deal.ip2.payload b) k
  have tau := evalAll_tau (forgery.server b).machine setup.bitlength forgery.aes b
    (forgery.session.key b) (forgery.session.index b) (forgery.session.payload b) k d
  have tau' := evalAll_tau (forgery.server b).machine setup.bitlength forgery.aes b
    (forgery.deal.key b) (forgery.deal.ip2.index b) (forgery.deal.ip2.payload b) k d
  exact ⟨zs.trans zs'.symm, zt.trans zt'.symm, sigma.trans sigma'.symm, tau.trans tau'.symm⟩

/-- The zero shares arrive as zeros. -/
theorem icp_index (b : Fin 2) :
    (forgery.session.icp b).index = GroupElement.ofValue 0#64 setup.inputSize := by
  show GroupElement.ofValue (GroupElement.ofValue
    (GroupElement.ofValue 0#64 setup.inputSize).value setup.inputSize).value setup.inputSize = _
  rw [GroupElement.value_zero, GroupElement.value_zero]

theorem icp_payload (b : Fin 2) :
    (forgery.session.icp b).payload = GroupElement.ofValue 0#64 setup.bitlength := by
  show GroupElement.ofValue (GroupElement.ofValue
    (GroupElement.ofValue 0#64 setup.bitlength).value setup.bitlength).value setup.bitlength = _
  rw [GroupElement.value_zero, GroupElement.value_zero]

theorem ip2_index (b : Fin 2) :
    forgery.session.ip2.index b = GroupElement.ofValue 0#64 setup.inputSize := by
  have recorded : forgery.session.offer.ip2.index b = GroupElement.ofValue 0#64 setup.inputSize :=
    congrFun (vec_eta (input setup).index) b
  show GroupElement.ofValue (forgery.session.offer.ip2.index b).value setup.inputSize = _
  rw [recorded, GroupElement.value_zero]

theorem ip2_payload (b : Fin 2) :
    forgery.session.ip2.payload b = GroupElement.ofValue 0#64 setup.bitlength := by
  have recorded :
      forgery.session.offer.ip2.payload b = GroupElement.ofValue 0#64 setup.bitlength :=
    congrFun (vec_eta (input setup).alpha) b
  show GroupElement.ofValue (forgery.session.offer.ip2.payload b).value setup.bitlength = _
  rw [recorded, GroupElement.value_zero]

/-- One level of the forged packs. -/
theorem level (hw : setup.bitlength ≤ 64) (k : Fin forgery.height) :
    LevelConsistent (forgery.session.icp 0) (forgery.session.icp 1) forgery.session.ip2 k k k := by
  have honest := dealt_level (Machine.static 1 (by decide)) (fun b => (forgery.server b).machine)
    forgery.aes (input setup) (fun _ => 0#128) hw (fun _ => rfl) k
  have sums := fun b d => forgery.icp_sums b d k
  have dir : queryDir (forgery.session.icp 0) (forgery.session.icp 1) k =
      queryDir (forgery.pack 0) (forgery.pack 1) k := by
    show pathDir ((forgery.session.icp 0).index + (forgery.session.icp 1).index).value
      (forgery.height - 1 - k) = _
    rw [forgery.icp_index, forgery.icp_index]
    rfl
  exact
    { zs0 := fun d => (sums 0 d).1.trans (honest.zs0 d)
      zs1 := fun d => (sums 1 d).1.trans (honest.zs1 d)
      zt0 := fun d => (sums 0 d).2.1.trans (honest.zt0 d)
      zt1 := fun d => (sums 1 d).2.1.trans (honest.zt1 d)
      sigma0 := (sums 0 0).2.2.1.trans honest.sigma0
      sigma1 := (sums 1 0).2.2.1.trans honest.sigma1
      sigma := by
        rw [dir, (sums 0 _).1, (sums 1 _).1]
        exact honest.sigma
      tau0 := fun d => (sums 0 d).2.2.2.trans (honest.tau0 d)
      tau1 := fun d => (sums 1 d).2.2.2.trans (honest.tau1 d)
      tau := by
        intro d
        rw [dir, (sums 0 d).2.1, (sums 1 d).2.1]
        exact honest.tau d }

theorem icp_T (b : Fin 2) : (forgery.session.icp b).T = forgery.session.ip2.T b :=
  evalAll_T_at (forgery.server b).machine setup.bitlength forgery.aes b (forgery.session.key b)
    (forgery.session.index b) (forgery.session.payload b) rfl

theorem icp_W (hbout : ∀ b, forgery.bout b ≤ 64) (b e : Fin 2) :
    (forgery.session.icp b).W e = forgery.W b e := by
  have bout : (forgery.session.key b).Bout.toNat = forgery.bout b := by
    show (BitVec.ofNat 32 (forgery.bout b)).toNat = forgery.bout b
    rw [BitVec.toNat_ofNat, Nat.mod_eq_of_lt (lt_of_le_of_lt (hbout b) (by decide))]
  have totals := evalAll_W_totals (forgery.server b).machine setup.bitlength forgery.aes b
    (forgery.session.key b) (forgery.session.index b) (forgery.session.payload b)
  rw [bout] at totals
  exact congrArg (fun W => GroupElement.ofValue (W e).value setup.bitlength) totals

theorem icp_gamma (hw : setup.bitlength ≤ 64) (b e : Fin 2) :
    (forgery.session.icp b).gamma e = forgery.gamma e := by
  have key := evalAll_gamma (forgery.server b).machine setup.bitlength forgery.aes b
    (forgery.session.key b) (forgery.session.index b) (forgery.session.payload b) e
  have arrives := ofValue_of_bitsize hw (forgery.gamma_res hw e).1
  have received : (forgery.session.key b).gamma e = forgery.gamma e := arrives
  rw [received] at key
  exact (congrArg (fun g => GroupElement.ofValue g.value setup.bitlength) key).trans arrives

theorem ip2_W (hw : setup.bitlength ≤ 64) (b e : Fin 2) :
    forgery.session.ip2.W b e = forgery.W b e :=
  ofValue_of_bitsize hw rfl

theorem ip2_gamma (hw : setup.bitlength ≤ 64) (e : Fin 2) :
    forgery.session.ip2.gamma e = forgery.gamma e :=
  ofValue_of_bitsize hw (forgery.gamma_res hw e).1

/-- The client accepts the forged keys. -/
theorem accepted (hw : setup.bitlength ≤ 64) (hbout : ∀ b, forgery.bout b ≤ 64) :
    forgery.session.output = true := by
  have widths : PackWidths setup.bitlength (forgery.session.icp 0) :=
    ⟨rfl, fun _ => rfl, fun _ => rfl⟩
  refine (checkXor_iff hw widths).mpr ⟨?_, Or.inl (forgery.icp_T 0)⟩
  have indices : ∀ b, (forgery.session.icp b).index.value = (forgery.session.ip2.index b).value := by
    intro b
    rw [forgery.icp_index, forgery.ip2_index]
  have payloads : ∀ b,
      (forgery.session.icp b).payload.value = (forgery.session.ip2.payload b).value := by
    intro b
    rw [forgery.icp_payload, forgery.ip2_payload]
  refine ⟨indices 0, indices 1, payloads 0, payloads 1, rfl, rfl, ?_, ?_⟩
  · intro i0 i1 i2 same01 same12
    obtain rfl : i1 = i0 := Fin.ext same01.symm
    obtain rfl : i2 = i1 := Fin.ext same12.symm
    exact forgery.level hw i2
  · exact
      { W0 := fun e => by rw [forgery.icp_W hbout, forgery.ip2_W hw]
        W1 := fun e => by rw [forgery.icp_W hbout, forgery.ip2_W hw]
        gamma0 := fun e => by rw [forgery.icp_gamma hw, forgery.ip2_gamma hw]
        gamma1 := fun e => by rw [forgery.icp_gamma hw, forgery.ip2_gamma hw]
        final := fun e => by
          rw [forgery.icp_gamma hw, forgery.icp_W hbout, forgery.icp_W hbout, forgery.icp_T,
            forgery.icp_T, forgery.icp_payload, forgery.icp_payload]
          exact (forgery.gamma_res hw e).2 }

end Forgery

/-! ## What acceptance pins -/

/-- The dimensions that travel with the keys. -/
def Offer.Announces (offer : Offer) (height bout : Fin 2 → Nat) : Prop :=
  ∀ b, (offer.key b).height = height b ∧ (offer.key b).Bout.toNat = bout b

/-- Acceptance pins the dimensions of the keys exactly when there is nothing to pin:
keys of two heights are always rejected, keys of the right dimensions are safe, and
for all other dimensions some dealer is accepted. -/
theorem accepted_pins_dimensions_iff {setup : Setup} (hn : setup.inputSize ≤ 30)
    (hw : setup.bitlength ≤ 64) (aes : Cipher) (server : Fin 2 → ServerSide setup) (stack : Stack)
    (height bout : Fin 2 → Nat) (hbout : ∀ b, bout b ≤ 64) :
    (∀ offer : Offer, offer.Announces height bout →
      (Session.mk aes server stack offer).output = true →
      (Session.mk aes server stack offer).Pinned) ↔
    (height 0 = height 1 → ∀ b, height b = setup.inputSize ∧ bout b = setup.bitlength) := by
  constructor
  -- a dealer who announces one height can forge keys of it, so these dimensions must be right
  · intro claimed same
    let forgery : Forgery setup := ⟨aes, server, stack, height 0, bout⟩
    have width : ∀ b, (BitVec.ofNat 32 (bout b)).toNat = bout b := by
      intro b
      rw [BitVec.toNat_ofNat, Nat.mod_eq_of_lt (lt_of_le_of_lt (hbout b) (by decide))]
    have announces : forgery.offer.Announces height bout :=
      Fin.forall_fin_two.mpr ⟨⟨rfl, width 0⟩, same, width 1⟩
    have pinned := claimed forgery.offer announces (forgery.accepted hw hbout)
    intro b
    exact ⟨(announces b).1.symm.trans (pinned.height b),
      (announces b).2.symm.trans (pinned.bout b)⟩
  · intro dimensions offer announces accepted
    have same : height 0 = height 1 :=
      (announces 0).1.symm.trans ((checkXor_size accepted).1.trans (announces 1).1)
    exact pinned_of_dimensions hn hw (fun b => (announces b).1.trans (dimensions same b).1)
      (fun b => (announces b).2.trans (dimensions same b).2) accepted

/-- The dimensions of the honest dealer. -/
theorem accepted_pins_dimensions_iff_toy :
    (∀ offer : Offer, offer.Announces ![1, 1] ![8, 8] →
      (Session.mk toyCipher toySession.server toySession.stack offer).output = true →
      (Session.mk toyCipher toySession.server toySession.stack offer).Pinned) ↔
    (1 = 1 → ∀ b : Fin 2, ![1, 1] b = toySetup.inputSize ∧ ![8, 8] b = toySetup.bitlength) :=
  accepted_pins_dimensions_iff (by decide) (by decide) toyCipher toySession.server toySession.stack
    ![1, 1] ![8, 8] (by decide)

/-! ## What the servers do with keys of another height -/

section WrongHeight

variable {setup : Setup} {session : Session setup} {h : Nat}

/-- Both servers have left their defined behaviour. -/
def ServersAborted (final : Lineup setup.block) : Prop :=
  final .p0 = .abort ∧ final .p1 = .abort

/-- The inner product runs to the size of the database and asks for a row that a key
of too small a height does not have. -/
theorem innerProd_eq_none {w rows databaseSize databaseLen : Nat} (few : rows < databaseSize)
    (rotatedIndex : GroupElement) (database : Fin databaseLen → GroupElement)
    (out : Fin rows → Fin 2 → GroupElement) :
    innerProd w databaseSize rotatedIndex database out = none := by
  cases run : innerProd w databaseSize rotatedIndex database out with
  | none => rfl
  | some result => exact absurd (innerProd_defined run rows few).1 (lt_irrefl rows)

theorem serveReply_abort (positive : 0 < setup.bitlength) {b : Fin 2}
    (short : (session.key b).height < setup.inputSize) (rotatedIndex : GroupElement)
    (k : Counters) :
    serveReply setup (session.server b) (session.serverLocals b none) rotatedIndex k = .abort := by
  have few : 2 ^ (session.serverLocals b none).key.height < 2 ^ setup.inputSize :=
    Nat.pow_lt_pow_right (by decide) short
  have prod := fun database : Fin (2 ^ setup.inputSize) → GroupElement =>
    innerProd_eq_none (w := setup.bitlength) few rotatedIndex database
      (session.serverLocals b none).eval.out
  unfold serveReply
  by_cases single : setup.entrySize ≤ setup.bitlength
  · rw [if_pos single, prod]
    rfl
  · have some_block : 0 < setup.block := by
      have quotient : 0 < setup.entrySize / setup.bitlength :=
        Nat.div_pos (not_le.mp single).le positive
      unfold Setup.block
      split
      · exact Nat.succ_pos _
      · exact quotient
    rw [if_neg single, computeInnerProdZp_eq_none _ some_block fun j => prod _]
    rfl

/-- Keys of too small a height: the servers abort after the client has accepted. -/
theorem short_keys_abort (hn : setup.inputSize ≤ 30) (hw : setup.bitlength ≤ 64)
    (positive : 0 < setup.bitlength) (height : ∀ b, (session.key b).height = h)
    (short : h < setup.inputSize) (accepted : session.output = true) :
    Settles ServersAborted session.programs := by
  have small : ∀ b, (session.key b).height < setup.inputSize := fun b => (height b).trans_lt short
  obtain ⟨size01, size12⟩ := checkXor_size accepted
  have size : session.ip2.size = h := by
    rw [← size12, ← size01]
    exact height 0
  -- acceptance has compared the dealer's size with the height
  have packSize : session.offer.ip2.size < 2 ^ 64 := by
    show session.ip2.size < 2 ^ 64
    rw [size]
    exact lt_of_lt_of_le short (hn.trans (by decide))
  refine verdict_settles hn hw (fun b => (small b).le) packSize (accepted_settles accepted ?_)
  refine query_settles (by omega) height size fun k0 k1 k2 k3 => Settles.refl ⟨?_, ?_⟩
  · exact serveReply_abort positive (small 0) session.rotatedIndex k0
  · exact serveReply_abort positive (small 1) session.rotatedIndex k1

/-- Keys of too great a height: the servers overrun the array `t` at once. -/
theorem tall_keys_abort (hn : setup.inputSize ≤ 30) (hw : setup.bitlength ≤ 64)
    (height : ∀ b, (session.key b).height = h) (int : h < 2 ^ 31) (tall : setup.inputSize < h) :
    Settles ServersAborted session.programs := by
  have overrun : ∀ b, evalInto setup (session.server b).machine session.aes b (session.key b)
      (session.index b) (session.payload b) = none := by
    intro b
    rw [evalInto, if_neg (not_le.mpr (tall.trans_eq (height b).symm))]
  have read : ∀ b, (session.offer.key b).height < 2 ^ 31 := fun b => (height b).trans_lt int
  refine offline_settles (by omega) hw read fun k0 k1 k2 k3 => Settles.refl ⟨?_, ?_⟩
  · show serve _ _ _ _ _ _ _ _ _ = _
    rw [serve, overrun 0]
    rfl
  · show serve _ _ _ _ _ _ _ _ _ = _
    rw [serve, overrun 1]
    rfl

/-- Forged keys of any other height bring both servers to leave an array. -/
theorem Forgery.aborts (forgery : Forgery setup) (hn : setup.inputSize ≤ 30)
    (hw : setup.bitlength ≤ 64) (positive : 0 < setup.bitlength)
    (hbout : ∀ b, forgery.bout b ≤ 64) (int : forgery.height < 2 ^ 31)
    (wrong : forgery.height ≠ setup.inputSize) :
    ∃ s, Reaches (State.start forgery.session.programs) s ∧
      ServersAborted s.procs := by
  have settles : Settles ServersAborted forgery.session.programs := by
    rcases Nat.lt_or_gt_of_ne wrong with short | tall
    · exact short_keys_abort hn hw positive (fun _ => rfl) short (forgery.accepted hw hbout)
    · exact tall_keys_abort hn hw (fun _ => rfl) int tall
  obtain ⟨final, aborted, meets⟩ := settles.leads
  obtain ⟨s, run, rfl⟩ := meets.reaches
  exact ⟨s, run, aborted⟩

end WrongHeight

/-- Keys of height 0 for a database of two entries. -/
def shortKeys : Forgery toySetup where
  aes := toyCipher
  server := toySession.server
  stack := toySession.stack
  height := 0
  bout := ![8, 8]

/-- The client accepts keys of height 0, and both servers then read past their only
row. -/
theorem accepts_short_keys :
    ¬ (∀ offer : Offer, (Session.mk toyCipher toySession.server toySession.stack offer).output =
      true → (Session.mk toyCipher toySession.server toySession.stack offer).Pinned) ∧
    shortKeys.session.output = true ∧
    ∃ s, Reaches (State.start shortKeys.session.programs) s ∧
      ServersAborted s.procs := by
  have accepted : shortKeys.session.output = true :=
    shortKeys.accepted (by decide) (by decide)
  refine ⟨fun claimed => ?_, accepted, ?_⟩
  · have pinned := claimed shortKeys.offer accepted
    have short : ∀ b, (shortKeys.session.key b).height ≠ toySetup.inputSize := by decide
    exact short 0 (pinned.height 0)
  · exact shortKeys.aborts (by decide) (by decide) (by decide) (by decide) (by decide) (by decide)

end DpfPir
