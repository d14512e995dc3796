import DpfPir.Dimensions
import DpfPir.Tampering

/-!
# The output of an accepted session

What the client ends with when it has accepted a dealer that it does not trust. The two
servers run their programs on one database.

Results:
1. `served_retrieved`: what the servers compute from accepted keys is the entry that the
   client asked for, and it passes the client's last test.
2. `accepted_retrieves`: the same for every interleaving of the four programs, whatever
   the dealer has sent.
3. `dealt_accepted`: the client accepts the dealer of `dpf_keygen`.
-/

namespace DpfPir

open LittleEndian Words CorrectionTree Network

section Accepted

variable {setup : Setup} (session : Session setup)

/-! ## Databases and outputs -/

/-- The entry that the client asks for: its program fixes the index 1. -/
def Setup.query (setup : Setup) : Fin (2 ^ setup.inputSize) :=
  ⟨1 % 2 ^ setup.inputSize, Nat.mod_lt _ (Nat.two_pow_pos _)⟩

/-- The servers hold the same group elements where their programs read them. -/
structure Session.SameDatabase : Prop where
  entry : setup.entrySize ≤ setup.bitlength → ∀ b i,
    (session.server b).database i = (session.server 0).database i ∧
    ((session.server b).database i).value.toNat < 2 ^ setup.bitlength
  entries : ¬ setup.entrySize ≤ setup.bitlength → ∀ b j i,
    (session.server b).databaseB j i = (session.server 0).databaseB j i ∧
    ((session.server b).databaseB j i).value.toNat < 2 ^ setup.bitlength

/-- The client's `dbout` is the entry. -/
def Session.Retrieved (q : Fin (2 ^ setup.inputSize)) : Replies setup.block → Prop
  | .entry o _ => (o 0 + o 1).value = ((session.server 0).database q).value
  | .entries o _ => ∀ j, (o 0 j + o 1 j).value = ((session.server 0).databaseB j q).value

variable {session}

/-- The query of the client's program, as a position. -/
theorem rotateQuery_query {n : Nat} (hn : n ≤ 64) (index : Fin 2 → GroupElement) :
    rotateQuery 1#64 n index = rotateQuery (BitVec.ofNat 64 (1 % 2 ^ n)) n index := by
  refine GroupElement.ext_res (w := n) rfl rfl ?_
  rw [rotateQuery_res hn, rotateQuery_res hn]
  have one : residue n 1#64 = residue n (BitVec.ofNat 64 (1 % 2 ^ n)) := by
    rw [residue, residue, BitVec.toNat_ofNat, BitVec.toNat_ofNat, natCast_mod_two_pow hn,
      natCast_mod_two_pow hn, natCast_mod_two_pow le_rfl]
  rw [one]

/-- The client rotates by the shares that the servers hold. -/
theorem rotatedIndex_of_output (hn : setup.inputSize ≤ 30) (hw : setup.bitlength ≤ 64)
    (height : ∀ b, (session.key b).height = setup.inputSize)
    (bout : ∀ b, (session.key b).Bout.toNat = setup.bitlength)
    (accepted : session.output = true) :
    session.rotatedIndex =
      rotateQuery (BitVec.ofNat 64 setup.query) setup.inputSize session.index := by
  have agrees := agrees_of_output hn hw height bout accepted
  have size : session.ip2.size = setup.inputSize := by
    rw [← agrees.size12]
    exact height 1
  have index : session.ip2.index = session.index := by
    funext b
    refine GroupElement.ext rfl ?_
    match b with
    | 0 => exact agrees.index0.symm
    | 1 => exact agrees.index1.symm
  rw [Session.rotatedIndex, size, index]
  exact rotateQuery_query (by omega) session.index

/-- The client's last test is the conjunction of the tests of the blocks. -/
theorem check_entries {L block : Nat} {payload : Fin 2 → GroupElement}
    {o hato : Fin 2 → Fin block → GroupElement}
    (blocks : ∀ j, checkBlock L payload (fun b => o b j) (fun b => hato b j) = true) :
    (Replies.entries o hato).check L payload = some true :=
  congrArg some ((foldl_and_iff _ _ true).mpr ⟨rfl, fun j _ => blocks j⟩)

/-- The rows of a key of the right height, by the leaves of the programs. -/
theorem innerProd_leafAt {n height w : Nat} (same : height = n) (rotatedIndex : GroupElement)
    (database : Fin (2 ^ n) → GroupElement) (out : Fin (2 ^ height) → Fin 2 → GroupElement) :
    innerProd w (2 ^ n) rotatedIndex database out =
      innerProd w (2 ^ n) rotatedIndex database fun x => out (leafAt same x) := by
  subst same
  rfl

section Sums

variable (hn : setup.inputSize ≤ 30) (hw : setup.bitlength ≤ 63)
  (height : ∀ b, (session.key b).height = setup.inputSize)
  (bout : ∀ b, (session.key b).Bout.toNat = setup.bitlength) (accepted : session.output = true)

include hn hw height bout accepted

/-- What the servers compute from one database adds up to the queried entry, and to its
product with the payload. -/
theorem served_sums (database : Fin (2 ^ setup.inputSize) → GroupElement)
    {o hato : Fin 2 → GroupElement}
    (run : ∀ b, innerProd setup.bitlength (2 ^ setup.inputSize) session.rotatedIndex database
      (session.eval b).out = some (o b, hato b)) :
    (∀ b, (o b).bitsize = setup.bitlength ∧ (hato b).bitsize = setup.bitlength) ∧
    (o 0 + o 1).res setup.bitlength = (database setup.query).res setup.bitlength ∧
    (hato 0 + hato 1).res setup.bitlength =
      ((session.payload 0).res setup.bitlength + (session.payload 1).res setup.bitlength) *
        (database setup.query).res setup.bitlength := by
  have fits := fitting_of_output hn (by omega) height bout accepted
  obtain ⟨o', hato', run', widths, entry, authenticated⟩ := fits.answers hn (by omega) height bout
    (fun _ => rfl) (fun b => (session.server b).machine) setup.bitlength session.index
    session.payload database setup.query
  have same : ∀ b, (o b, hato b) = (o' b, hato' b) := by
    intro b
    have both := run b
    rw [rotatedIndex_of_output hn (by omega) height bout accepted] at both
    exact Option.some.inj (both.symm.trans ((innerProd_leafAt (height b) _ _ _).trans (run' b)))
  obtain rfl : o = o' := funext fun b => congrArg Prod.fst (same b)
  obtain rfl : hato = hato' := funext fun b => congrArg Prod.snd (same b)
  exact ⟨widths, entry, authenticated⟩

omit accepted in
/-- The client's view of the payload shares. -/
theorem icp_payload_of_output (b : Fin 2) : (session.icp b).payload = session.payload b := by
  have short : (session.key b).height < 2 ^ 64 := by
    rw [height b]
    exact lt_of_le_of_lt hn (by decide)
  rw [icp_eq (by omega) (by omega) short (bout b)]
  rfl

/-- The test of one block passes for what the servers compute from one database. -/
theorem served_checkBlock {database : Fin (2 ^ setup.inputSize) → GroupElement}
    {o hato : Fin 2 → GroupElement}
    (run : ∀ b, innerProd setup.bitlength (2 ^ setup.inputSize) session.rotatedIndex database
      (session.eval b).out = some (o b, hato b)) :
    checkBlock setup.bitlength (fun b => (session.icp b).payload) o hato = true := by
  obtain ⟨widths, entry, authenticated⟩ := served_sums hn hw height bout accepted database run
  have payload : (fun b => (session.icp b).payload) = session.payload :=
    funext (icp_payload_of_output hn hw height bout)
  have width : (session.payload 0).bitsize = setup.bitlength := rfl
  rw [payload]
  refine (checkBlock_iff (by omega) ⟨width, (widths 0).1, (widths 0).2⟩).mpr ?_
  rw [entry, authenticated, GroupElement.res_add (by omega) width]

/-- The sum of the servers' results is the queried entry. -/
theorem served_entry {database : Fin (2 ^ setup.inputSize) → GroupElement}
    (reduced : (database setup.query).value.toNat < 2 ^ setup.bitlength)
    {o hato : Fin 2 → GroupElement}
    (run : ∀ b, innerProd setup.bitlength (2 ^ setup.inputSize) session.rotatedIndex database
      (session.eval b).out = some (o b, hato b)) :
    (o 0 + o 1).value = (database setup.query).value := by
  obtain ⟨widths, entry, _⟩ := served_sums hn hw height bout accepted database run
  have sum := (o 0 + o 1).reduced
  rw [GroupElement.bitsize_add, (widths 0).1] at sum
  exact eq_of_residue sum reduced entry

/-- The answers for several blocks are the answers for each of them. -/
theorem served_blocks {database : Fin setup.block → Fin (2 ^ setup.inputSize) → GroupElement}
    {o hato : Fin 2 → Fin setup.block → GroupElement}
    (run : ∀ b, computeInnerProdZp (session.server b).machine setup.bitlength
      (2 ^ setup.inputSize) session.rotatedIndex database (session.eval b).out =
        some (o b, hato b)) (j : Fin setup.block) (b : Fin 2) :
    innerProd setup.bitlength (2 ^ setup.inputSize) session.rotatedIndex (database j)
      (session.eval b).out = some (o b j, hato b j) := by
  have width : session.rotatedIndex.bitsize = setup.inputSize := by
    rw [rotatedIndex_of_output hn (by omega) height bout accepted]
    rfl
  have prod := fun j => innerProd_isDefined (by omega) (by omega : setup.bitlength < 64) width
    (congrArg (2 ^ ·) (height b)) (database j) (session.eval b).out
  choose o' hato' prods _ using prod
  have same := (run b).symm.trans (computeInnerProdZp_eq (session.server b).machine prods)
  have first : o b = o' := congrArg Prod.fst (Option.some.inj same)
  have second : hato b = hato' := congrArg Prod.snd (Option.some.inj same)
  rw [first, second]
  exact prods j

theorem served_retrieved (same : session.SameDatabase) {replies : Replies setup.block}
    (served : session.Served replies) :
    session.Retrieved setup.query replies ∧
    replies.check setup.bitlength (fun b => (session.icp b).payload) = some true := by
  cases replies with
  | entry o hato =>
    obtain ⟨short, run⟩ := served
    have database : (session.server 1).database = (session.server 0).database :=
      funext fun i => (same.entry short 1 i).1
    have runs : ∀ b, innerProd setup.bitlength (2 ^ setup.inputSize) session.rotatedIndex
        (session.server 0).database (session.eval b).out = some (o b, hato b) :=
      Fin.forall_fin_two.mpr ⟨run 0, database ▸ run 1⟩
    refine ⟨served_entry hn hw height bout accepted (same.entry short 0 _).2 runs, ?_⟩
    rw [check_entry_eq hw]
    exact check_entries fun _ => served_checkBlock hn hw height bout accepted runs
  | entries o hato =>
    obtain ⟨long, run⟩ := served
    have database : (session.server 1).databaseB = (session.server 0).databaseB :=
      funext fun j => funext fun i => (same.entries long 1 j i).1
    have runs := served_blocks hn hw height bout accepted
      (Fin.forall_fin_two.mpr ⟨run 0, database ▸ run 1⟩)
    refine ⟨fun j => ?_, check_entries fun j => ?_⟩
    · exact served_entry hn hw height bout accepted (same.entries long 0 j _).2 (runs j)
    · exact served_checkBlock hn hw height bout accepted (runs j)

end Sums

/-- An accepted session can run to an end in which the client has its entry and its last
test has passed. -/
theorem retrieved_settles (supported : setup.Supported) (shaped : session.offer.Shaped setup)
    (same : session.SameDatabase) (accepted : session.output = true) :
    ∃ replies, session.Served replies ∧ session.Retrieved setup.query replies ∧
      Settles (Returned (session.Agreed (some (session.rotatedIndex, replies, true))))
        session.programs := by
  obtain ⟨answer, verdict, answers, settles⟩ := session_answered supported shaped
  rw [accepted, Option.isSome_iff_exists] at verdict
  obtain ⟨⟨rotated, replies, check⟩, rfl⟩ := verdict
  obtain ⟨query, served, tested⟩ := answers _ rfl
  dsimp only at query served tested
  obtain ⟨retrieved, passed⟩ := served_retrieved supported.inputSize supported.bitlength
    shaped.height shaped.bout accepted same served
  obtain rfl : check = true := Option.some.inj (tested.symm.trans passed)
  subst query
  exact ⟨replies, served, retrieved, settles⟩

variable (session) in
/-- An accepted dealer cannot change what the client retrieves, whatever keys, shares and
pack it has sent. In every interleaving the session can finish, it gets stuck only when
all programs have finished, and then the client has the entry that it asked for and its
last test has passed. -/
theorem accepted_retrieves (supported : setup.Supported) (shaped : session.offer.Shaped setup)
    (same : session.SameDatabase) (accepted : session.output = true) :
    ∃ (replies : Replies setup.block) (result : (p : Party) → Result setup.block p),
      session.Retrieved setup.query replies ∧
      session.Agreed (some (session.rotatedIndex, replies, true)) result ∧
      ∀ s, Reaches (State.start session.programs) s →
        (∃ s', Reaches s s' ∧ ∀ p, s'.procs p = .ret (result p)) ∧
        (Stuck s → (∀ p, s.procs p = .ret (result p)) ∧ ∀ c, s.channel c = []) := by
  obtain ⟨replies, _, retrieved, final, ⟨result, agreed, rfl⟩, shakes⟩ :=
    retrieved_settles supported shaped same accepted
  exact ⟨replies, result, retrieved, agreed, fun s run => (shakes.meets.synchronised run).2⟩

end Accepted

/-- The entries of both servers are 3, so this is what the client ends with. -/
theorem accepted_retrieves_toy :
    ∃ (replies : Replies toySetup.block) (result : (p : Party) → Result toySetup.block p),
      toySession.Retrieved toySetup.query replies ∧
      toySession.Agreed (some (toySession.rotatedIndex, replies, true)) result ∧
      ∀ s, Reaches (State.start toySession.programs) s →
        (∃ s', Reaches s s' ∧ ∀ p, s'.procs p = .ret (result p)) ∧
        (Stuck s → (∀ p, s.procs p = .ret (result p)) ∧ ∀ c, s.channel c = []) :=
  have three : (GroupElement.ofValue 3#64 8).value.toNat < 2 ^ 8 := by decide
  accepted_retrieves toySession ⟨by decide, by decide, by decide⟩
    ⟨fun _ => rfl, by decide, by decide⟩
    ⟨fun _ _ _ => ⟨rfl, three⟩, fun _ _ _ _ => ⟨rfl, three⟩⟩ (by decide)

/-! ## The dealer of `dpf_keygen` -/

/-- What the dealer's program has to send after key generation. -/
def Offer.dealt (setup : Setup) (dealer : Machine) (aes : Cipher) (dpfip : DpfInput)
    (keys : Fin 2 → Block) (kgtime : BitVec 32) : Offer :=
  let dealt := dpfKeygen dealer setup.bitlength aes setup.inputSize setup.bitlength dpfip keys
  { index := dpfip.index
    alpha := dpfip.alpha
    key := dealt.key
    kgtime := kgtime
    ip2 := dealt.ip2 }

section Dealt

variable {setup : Setup} (dealer : Machine) (aes : Cipher) {dpfip : DpfInput}
  (keys : Fin 2 → Block) (kgtime : BitVec 32) (hn : setup.inputSize ≤ 30)
  (hw : setup.bitlength ≤ 64)

include hn hw

theorem dealt_shaped : (Offer.dealt setup dealer aes dpfip keys kgtime).Shaped setup where
  height _ := rfl
  bout := toNat_keygen_Bout dealer aes dpfip keys hw
  size := by
    show setup.inputSize ≤ 64
    omega

section Session

variable (indexWidth : ∀ b, (dpfip.index b).bitsize = setup.inputSize)
  (alphaWidth : ∀ b, (dpfip.alpha b).bitsize = setup.bitlength) {session : Session setup}
  (dealt : session.offer = Offer.dealt setup dealer session.aes dpfip keys kgtime)

include indexWidth alphaWidth dealt

/-- The packs that reach the client are those of the keys that were dealt. -/
theorem dealt_icp (b : Fin 2) :
    session.icp b = dealtPack dealer (fun b => (session.server b).machine) session.aes dpfip keys
      setup.bitlength setup.inputSize b := by
  have gamma := keygen_gamma_width dealer session.aes (h := setup.inputSize) dpfip keys hw
    (alphaWidth 0)
  have key : session.key b = (dpfKeygen dealer setup.bitlength session.aes setup.inputSize
      setup.bitlength dpfip keys).key b := by
    rw [Session.key, dealt]
    exact DpfKey.OnWire.eq hw ⟨lt_of_le_of_lt hn (by decide), gamma b⟩
  have index : session.index b = dpfip.index b := by
    rw [Session.index, dealt]
    exact ofValue_of_bitsize (by omega) (indexWidth b)
  have payload : session.payload b = dpfip.alpha b := by
    rw [Session.payload, dealt]
    exact ofValue_of_bitsize hw (alphaWidth b)
  have short : (session.key b).height < 2 ^ 64 := by
    rw [key]
    exact lt_of_le_of_lt hn (by decide)
  have bout : (session.key b).Bout.toNat = setup.bitlength := by
    rw [key]
    exact toNat_keygen_Bout dealer session.aes dpfip keys hw b
  rw [icp_eq (by omega) hw short bout, Session.eval, key, index, payload, dealtPack, serverPack]
  revert b
  refine Fin.forall_fin_two.mpr ⟨?_, ?_⟩
  · intro _ _ _ _ _
    rfl
  · intro _ _ _ _ _
    rfl

/-- The dealer's pack reaches the client as it is. -/
theorem dealt_ip2 : session.ip2 = (dpfKeygen dealer setup.bitlength session.aes setup.inputSize
    setup.bitlength dpfip keys).ip2 := by
  rw [Session.ip2, dealt]
  refine InputCheckPack2.OnWire.eq (by omega) hw ⟨?_, ?_, ?_, fun b e => ?_, ?_⟩
  · exact lt_of_le_of_lt hn (by decide)
  · exact Fin.forall_fin_two.mpr ⟨indexWidth 0, indexWidth 1⟩
  · exact Fin.forall_fin_two.mpr ⟨alphaWidth 0, alphaWidth 1⟩
  · exact (keygen_W dealer session.aes setup.inputSize dpfip keys hw le_rfl hw b e).1
  · exact keygen_gamma_width dealer session.aes dpfip keys hw (alphaWidth 0) 0

/-- The client accepts the dealer of `dpf_keygen`. -/
theorem dealt_accepted : session.output = true := by
  have consistent := dealt_consistent dealer (fun b => (session.server b).machine) session.aes
    (h := setup.inputSize) dpfip keys hw alphaWidth
  have widths : PackWidths setup.bitlength (dealtPack dealer
      (fun b => (session.server b).machine) session.aes dpfip keys setup.bitlength
      setup.inputSize 0) :=
    evalAll_widths (session.server 0).machine session.aes 0 _ hw
      (toNat_keygen_Bout dealer session.aes dpfip keys hw 0) le_rfl hw (alphaWidth 0)
      (keygen_gamma_width dealer session.aes dpfip keys hw (alphaWidth 0) 0)
  have packs := dealt_icp dealer keys kgtime hn hw indexWidth alphaWidth dealt
  rw [Session.output, packs 0, packs 1, dealt_ip2 dealer keys kgtime hn hw indexWidth alphaWidth
    dealt]
  exact (checkXor_iff hw widths).mpr ⟨consistent.toAgreesUpToTotals, Or.inl consistent.T0⟩

end Session

end Dealt

end DpfPir
