import DpfPir.Backpressure
import DpfPir.Parties

/-!
# The four-party session

The network that the four programs form, and what every interleaving of their steps
has in common.

Results:
1. `Settles.exchange`, with an instance for each pair of parties (`Settles.p2_p0` to
   `Settles.client_p1`): the backward rule for two programs that exchange a message.
2. `offline_settles`, `reports_settles`, `rejected_settles`, `accepted_settles`,
   `query_settles`, `entry_settles`, `entries_settles`: the session, phase by phase.
3. `session_synchronised`: every interleaving keeps the parties synchronised and can
   only end in one final state, in which all have finished and agree.
4. `session_buffered`: the same end over channels of any capacity, after a number of steps
   that does not depend on the interleaving.
-/

namespace DpfPir

open LittleEndian Words Network

/-! ## The network of the session -/

/-- The local variables that a party ends with. -/
def Locals (block : Nat) : Party → Type
  | .p0 => ServerLocals block
  | .p1 => ServerLocals block
  | .p2 => Unit
  | .client => ClientLocals block

/-- What a party returns. -/
abbrev Result (block : Nat) (p : Party) : Type := Locals block p × Counters

/-- The four programs of a session. -/
abbrev Lineup (block : Nat) : Type := (p : Party) → Proc Party Kind Byte (Result block p)

def lineup {block : Nat} (p0 p1 : Proc Party Kind Byte (ServerLocals block × Counters))
    (p2 : Proc Party Kind Byte (Unit × Counters))
    (client : Proc Party Kind Byte (ClientLocals block × Counters)) : Lineup block
  | .p0 => p0
  | .p1 => p1
  | .p2 => p2
  | .client => client

/-- A session: what the four parties start with. -/
structure Session (setup : Setup) where
  aes : Cipher
  server : Fin 2 → ServerSide setup
  stack : Stack
  offer : Offer

/-- The programs at the start; the counters are zero. -/
def Session.programs {setup : Setup} (session : Session setup) : Lineup setup.block :=
  lineup (p0 setup (session.server 0) session.aes ⟨0#64, 0#64⟩)
    (p1 setup (session.server 1) session.aes ⟨0#64, 0#64⟩)
    (p2 setup session.offer ⟨0#64, 0#64⟩)
    (client setup session.stack ⟨0#64, 0#64⟩)

section Lineup

variable {block : Nat} {a a' b b' : Proc Party Kind Byte (ServerLocals block × Counters)}
  {c c' : Proc Party Kind Byte (Unit × Counters)}
  {d d' : Proc Party Kind Byte (ClientLocals block × Counters)}

@[simp] theorem update_lineup_p0 :
    Function.update (lineup a b c d) .p0 a' = lineup a' b c d := by
  funext p
  cases p <;> rfl

@[simp] theorem update_lineup_p1 :
    Function.update (lineup a b c d) .p1 b' = lineup a b' c d := by
  funext p
  cases p <;> rfl

@[simp] theorem update_lineup_p2 :
    Function.update (lineup a b c d) .p2 c' = lineup a b c' d := by
  funext p
  cases p <;> rfl

@[simp] theorem update_lineup_client :
    Function.update (lineup a b c d) .client d' = lineup a b c d' := by
  funext p
  cases p <;> rfl

/-- The programs can run, with empty channels again, to programs that are `good`. -/
def Leads (good : Lineup block → Prop) (procs : Lineup block) : Prop :=
  ∃ final, good final ∧ Meets procs final

/-- The programs can run without channels to programs that are `good`. -/
def Settles (good : Lineup block → Prop) (procs : Lineup block) : Prop :=
  ∃ final, good final ∧ Handshakes procs final

variable {good : Lineup block → Prop} {procs : Lineup block}

theorem Settles.refl (holds : good procs) : Settles good procs := ⟨procs, holds, .refl⟩

theorem Settles.leads (settles : Settles good procs) : Leads good procs := by
  obtain ⟨final, holds, shakes⟩ := settles
  exact ⟨final, holds, shakes.meets⟩

/-- The backward rule for a message from `p` to `q`. -/
theorem Settles.exchange {α γ : Type} {p q : Party} {m : Prog α} {m' : Prog γ} {x : α} {y : γ}
    {f : α → Prog (Locals block p)} {g : γ → Prog (Locals block q)} {k k' : Counters}
    (conveys : Conveys p q m m' x y) (ne : p ≠ q) (left : procs p = (m >>= f) k)
    (right : procs q = (m' >>= g) k')
    (next : ∀ k k', Settles good (Function.update (Function.update procs p (f x k)) q (g y k'))) :
    Settles good procs := by
  obtain ⟨fields, nonempty, emits, absorbs⟩ := conveys
  obtain ⟨final, holds, shakes⟩ := next (k.sent (bytesOf fields).length)
    (k'.recieved (bytesOf fields).length)
  have before : procs p = m k >>= fun r => f r.1 r.2 := left
  have before' : procs q = m' k' >>= fun r => g r.1 r.2 := right
  have met := Handshakes.exchange ne (emits k) (absorbs k') nonempty before before'
  exact ⟨final, holds, met.trans shakes⟩

/-! One backward rule for each pair of parties that exchange messages. -/

section Exchange

variable {α γ : Type} {m : Prog α} {m' : Prog γ} {x : α} {y : γ} {k k' : Counters}
  {serve0 serve1 : γ → Prog (ServerLocals block)} {deal : α → Prog Unit}
  {report0 report1 : α → Prog (ServerLocals block)} {ask : α → Prog (ClientLocals block)}
  {listen : γ → Prog (ClientLocals block)}

theorem Settles.p2_p0 (conveys : Conveys .p2 .p0 m m' x y)
    (next : ∀ k k', Settles good (lineup (serve0 y k') b (deal x k) d)) :
    Settles good (lineup ((m' >>= serve0) k') b ((m >>= deal) k) d) := by
  refine Settles.exchange (p := .p2) (q := .p0) conveys (by decide) rfl rfl fun k k' => ?_
  rw [update_lineup_p2, update_lineup_p0]
  exact next k k'

theorem Settles.p2_p1 (conveys : Conveys .p2 .p1 m m' x y)
    (next : ∀ k k', Settles good (lineup a (serve1 y k') (deal x k) d)) :
    Settles good (lineup a ((m' >>= serve1) k') ((m >>= deal) k) d) := by
  refine Settles.exchange (p := .p2) (q := .p1) conveys (by decide) rfl rfl fun k k' => ?_
  rw [update_lineup_p2, update_lineup_p1]
  exact next k k'

theorem Settles.p2_client (conveys : Conveys .p2 .client m m' x y)
    (next : ∀ k k', Settles good (lineup a b (deal x k) (listen y k'))) :
    Settles good (lineup a b ((m >>= deal) k) ((m' >>= listen) k')) := by
  refine Settles.exchange (p := .p2) (q := .client) conveys (by decide) rfl rfl fun k k' => ?_
  rw [update_lineup_p2, update_lineup_client]
  exact next k k'

theorem Settles.p0_client (conveys : Conveys .p0 .client m m' x y)
    (next : ∀ k k', Settles good (lineup (report0 x k) b c (listen y k'))) :
    Settles good (lineup ((m >>= report0) k) b c ((m' >>= listen) k')) := by
  refine Settles.exchange (p := .p0) (q := .client) conveys (by decide) rfl rfl fun k k' => ?_
  rw [update_lineup_p0, update_lineup_client]
  exact next k k'

theorem Settles.p1_client (conveys : Conveys .p1 .client m m' x y)
    (next : ∀ k k', Settles good (lineup a (report1 x k) c (listen y k'))) :
    Settles good (lineup a ((m >>= report1) k) c ((m' >>= listen) k')) := by
  refine Settles.exchange (p := .p1) (q := .client) conveys (by decide) rfl rfl fun k k' => ?_
  rw [update_lineup_p1, update_lineup_client]
  exact next k k'

theorem Settles.client_p0 (conveys : Conveys .client .p0 m m' x y)
    (next : ∀ k k', Settles good (lineup (serve0 y k') b c (ask x k))) :
    Settles good (lineup ((m' >>= serve0) k') b c ((m >>= ask) k)) := by
  refine Settles.exchange (p := .client) (q := .p0) conveys (by decide) rfl rfl fun k k' => ?_
  rw [update_lineup_client, update_lineup_p0]
  exact next k k'

theorem Settles.client_p1 (conveys : Conveys .client .p1 m m' x y)
    (next : ∀ k k', Settles good (lineup a (serve1 y k') c (ask x k))) :
    Settles good (lineup a ((m' >>= serve1) k') c ((m >>= ask) k)) := by
  refine Settles.exchange (p := .client) (q := .p1) conveys (by decide) rfl rfl fun k k' => ?_
  rw [update_lineup_client, update_lineup_p1]
  exact next k k'

end Exchange

/-- What the parties return. -/
def outcome (a b : ServerLocals block × Counters) (c : Unit × Counters)
    (d : ClientLocals block × Counters) : (p : Party) → Result block p
  | .p0 => a
  | .p1 => b
  | .p2 => c
  | .client => d

/-- All programs have returned, with results that agree with `good`. -/
def Returned (good : ((p : Party) → Result block p) → Prop) (final : Lineup block) : Prop :=
  ∃ result, good result ∧ final = fun p => .ret (result p)

theorem Settles.ret {good : ((p : Party) → Result block p) → Prop}
    {a b : ServerLocals block × Counters} {c : Unit × Counters} {d : ClientLocals block × Counters}
    (holds : good (outcome a b c d)) :
    Settles (Returned good) (lineup (.ret a) (.ret b) (.ret c) (.ret d)) := by
  refine Settles.refl ⟨outcome a b c d, holds, ?_⟩
  funext p
  cases p <;> rfl

end Lineup

/-! ## What the parties receive -/

section Phases

variable {setup : Setup} (session : Session setup)

def Session.index (b : Fin 2) : GroupElement :=
  GroupElement.ofValue (session.offer.index b).value setup.inputSize

def Session.payload (b : Fin 2) : GroupElement :=
  GroupElement.ofValue (session.offer.alpha b).value setup.bitlength

def Session.key (b : Fin 2) : DpfKey := (session.offer.key b).onWire setup.bitlength

def Session.kgtime : Fin 2 → Option (BitVec 32) := ![some session.offer.kgtime, none]

/-- What server `b` computes from the key that it receives. -/
def Session.eval (b : Fin 2) : EvalAll (session.key b).height :=
  dpfEvalAll (session.server b).machine setup.bitlength session.aes b (session.key b)
    (session.index b) (session.payload b)

/-- The pack that the client receives from server `b`. -/
def Session.icp (b : Fin 2) : InputCheckPack :=
  (session.eval b).icp.onWire setup.inputSize setup.bitlength

/-- The pack that the client receives from the dealer. -/
def Session.ip2 : InputCheckPack2 := session.offer.ip2.onWire setup.inputSize setup.bitlength

/-- The verdict of the client. -/
def Session.output : Bool :=
  checkXor setup.bitlength (session.icp 0) (session.icp 1) session.ip2

/-! ## Phase by phase -/

variable {session} {good : Lineup setup.block → Prop}

/-- The dealer hands out the shares and the keys. -/
theorem offline_settles (hn : setup.inputSize ≤ 64) (hw : setup.bitlength ≤ 64)
    (height : ∀ b, (session.offer.key b).height < 2 ^ 31)
    (next : ∀ k0 k1 k2 k3, Settles good (lineup
      (serve setup (session.server 0) session.aes 0 (session.index 0) (session.payload 0)
        (session.key 0) (session.kgtime 0) k0)
      (serve setup (session.server 1) session.aes 1 (session.index 1) (session.payload 1)
        (session.key 1) (session.kgtime 1) k1)
      ((do
        sendInputCheckPack2 session.offer.ip2 setup.inputSize setup.bitlength .client
        return ()) k2)
      (client setup session.stack k3))) :
    Settles good session.programs := by
  unfold Session.programs p0 p1 p2
  -- to P0
  refine Settles.p2_p0 (conveys_ge _ hn _) fun k2 k0 => ?_
  refine Settles.p2_p0 (conveys_ge _ hw _) fun k2 k0 => ?_
  refine Settles.p2_p0 (conveys_dpfKey _ hw _ _ (height 0)) fun k2 k0 => ?_
  refine Settles.p2_p0 (conveys_int _) fun k2 k0 => ?_
  -- to P1
  refine Settles.p2_p1 (conveys_ge _ hn _) fun k2 k1 => ?_
  refine Settles.p2_p1 (conveys_ge _ hw _) fun k2 k1 => ?_
  refine Settles.p2_p1 (conveys_dpfKey _ hw _ _ (height 1)) fun k2 k1 => ?_
  exact next _ _ _ _

/-- The servers evaluate their keys and all three report to the client. -/
theorem reports_settles (hn : setup.inputSize ≤ 64) (hw : setup.bitlength ≤ 64)
    (fits : ∀ b, (session.key b).height ≤ setup.inputSize)
    (size : session.offer.ip2.size < 2 ^ 64)
    (next : ∀ k0 k1 k2 k3, Settles good (lineup
      (serveVerdict setup (session.server 0) (session.index 0) (session.payload 0) (session.key 0)
        (session.kgtime 0) (session.eval 0) k0)
      (serveVerdict setup (session.server 1) (session.index 1) (session.payload 1) (session.key 1)
        (session.kgtime 1) (session.eval 1) k1)
      (.ret ((), k2))
      (clientVerdict setup session.stack session.icp session.ip2 k3))) (k0 k1 k2 k3 : Counters) :
    Settles good (lineup
      (serve setup (session.server 0) session.aes 0 (session.index 0) (session.payload 0)
        (session.key 0) (session.kgtime 0) k0)
      (serve setup (session.server 1) session.aes 1 (session.index 1) (session.payload 1)
        (session.key 1) (session.kgtime 1) k1)
      ((do
        sendInputCheckPack2 session.offer.ip2 setup.inputSize setup.bitlength .client
        return ()) k2)
      (client setup session.stack k3)) := by
  have evaluated : ∀ b, evalInto setup (session.server b).machine session.aes b (session.key b)
      (session.index b) (session.payload b) = some (session.eval b) := fun b => if_pos (fits b)
  have packSize : ∀ b, (session.eval b).icp.size < 2 ^ 64 := fun b =>
    lt_of_le_of_lt (fits b) (lt_of_le_of_lt hn (by decide))
  unfold serve client
  rw [evaluated 0, evaluated 1, defined_bind, defined_bind]
  -- both servers announce that they are done before either sends its pack
  refine Settles.p0_client (conveys_uint8 _) fun k0 k3 => ?_
  refine Settles.p1_client (conveys_uint8 _) fun k1 k3 => ?_
  refine Settles.p0_client (conveys_inputCheckPack _ hn hw _ (packSize 0)) fun k0 k3 => ?_
  refine Settles.p1_client (conveys_inputCheckPack _ hn hw _ (packSize 1)) fun k1 k3 => ?_
  refine Settles.p2_client (conveys_inputCheckPack2 _ hn hw _ size) fun k2 k3 => ?_
  have packs : ![session.icp 0, session.icp 1] = session.icp := vec_eta session.icp
  have last := next k0 k1 k2 k3
  rw [← packs] at last
  exact last

/-- The session up to the verdict, for keys that do not overrun the array `t`. -/
theorem verdict_settles (hn : setup.inputSize ≤ 30) (hw : setup.bitlength ≤ 64)
    (fits : ∀ b, (session.key b).height ≤ setup.inputSize)
    (size : session.offer.ip2.size < 2 ^ 64)
    (next : ∀ k0 k1 k2 k3, Settles good (lineup
      (serveVerdict setup (session.server 0) (session.index 0) (session.payload 0) (session.key 0)
        (session.kgtime 0) (session.eval 0) k0)
      (serveVerdict setup (session.server 1) (session.index 1) (session.payload 1) (session.key 1)
        (session.kgtime 1) (session.eval 1) k1)
      (.ret ((), k2))
      (clientVerdict setup session.stack session.icp session.ip2 k3))) :
    Settles good session.programs := by
  have height : ∀ b, (session.offer.key b).height < 2 ^ 31 := fun b =>
    lt_of_le_of_lt (fits b) (lt_of_le_of_lt hn (by decide))
  exact offline_settles (by omega) hw height (reports_settles (by omega) hw fits size next)

/-! ## The verdict and the answers -/

variable (session) in
/-- The local variables of server `b` when its query was answered with `answer`. -/
def Session.serverLocals (b : Fin 2) (answer : Option (GroupElement × Reply setup.block)) :
    ServerLocals setup.block where
  index := session.index b
  payload := session.payload b
  key := session.key b
  kgtime := session.kgtime b
  eval := session.eval b
  accept := if session.output then 1#8 else 0#8
  answer := answer

variable (session) in
/-- The local variables of the client when its query was answered with `answer`. -/
def Session.clientLocals (answer : Option (GroupElement × Replies setup.block × Bool)) :
    ClientLocals setup.block where
  icp := session.icp
  ip2 := session.ip2
  output := session.output
  answer := answer

variable (session) in
/-- What the parties return when they agree: both servers have received the client's
rotated index, and the client has received their replies, if there are any. -/
structure Session.Agreed (answer : Option (GroupElement × Replies setup.block × Bool))
    (result : (p : Party) → Result setup.block p) : Prop where
  p0 : (result .p0).1 = session.serverLocals 0 (answer.map fun a => (a.1, a.2.1.of 0))
  p1 : (result .p1).1 = session.serverLocals 1 (answer.map fun a => (a.1, a.2.1.of 1))
  client : (result .client).1 = session.clientLocals answer

/-- The client rejects: all parties are done. -/
theorem rejected_settles (rejected : session.output = false) (k0 k1 k2 k3 : Counters) :
    Settles (Returned (session.Agreed none)) (lineup
      (serveVerdict setup (session.server 0) (session.index 0) (session.payload 0) (session.key 0)
        (session.kgtime 0) (session.eval 0) k0)
      (serveVerdict setup (session.server 1) (session.index 1) (session.payload 1) (session.key 1)
        (session.kgtime 1) (session.eval 1) k1)
      (.ret ((), k2))
      (clientVerdict setup session.stack session.icp session.ip2 k3)) := by
  have output : checkXor setup.bitlength (session.icp 0) (session.icp 1) session.ip2 = false :=
    rejected
  unfold serveVerdict clientVerdict
  rw [output]
  refine Settles.client_p0 (conveys_uint8 _) fun k3 k0 => ?_
  refine Settles.client_p1 (conveys_uint8 _) fun k3 k1 => ?_
  refine Settles.ret ⟨?_, ?_, ?_⟩
  · simp only [Session.serverLocals, rejected]
    rfl
  · simp only [Session.serverLocals, rejected]
    rfl
  · simp only [Session.clientLocals, rejected]
    rfl

/-- The client accepts: both servers go on to answer its query. -/
theorem accepted_settles (accepted : session.output = true)
    (next : ∀ k0 k1 k2 k3, Settles good (lineup
      (serveQuery setup (session.server 0) (session.serverLocals 0 none) k0)
      (serveQuery setup (session.server 1) (session.serverLocals 1 none) k1)
      (.ret ((), k2))
      (clientQuery setup session.stack (session.clientLocals none) k3))) (k0 k1 k2 k3 : Counters) :
    Settles good (lineup
      (serveVerdict setup (session.server 0) (session.index 0) (session.payload 0) (session.key 0)
        (session.kgtime 0) (session.eval 0) k0)
      (serveVerdict setup (session.server 1) (session.index 1) (session.payload 1) (session.key 1)
        (session.kgtime 1) (session.eval 1) k1)
      (.ret ((), k2))
      (clientVerdict setup session.stack session.icp session.ip2 k3)) := by
  have output : checkXor setup.bitlength (session.icp 0) (session.icp 1) session.ip2 = true :=
    accepted
  simp only [Session.serverLocals, Session.clientLocals, accepted] at next
  unfold serveVerdict clientVerdict
  rw [output]
  refine Settles.client_p0 (conveys_uint8 _) fun k3 k0 => ?_
  refine Settles.client_p1 (conveys_uint8 _) fun k3 k1 => ?_
  exact next k0 k1 k2 k3

/-- The client's last test is defined below the full width. -/
theorem check_isDefined (hw : setup.bitlength < 64) (payload : Fin 2 → GroupElement)
    (replies : Replies setup.block) :
    ∃ check, replies.check setup.bitlength payload = some check := by
  cases replies with
  | entry o hato =>
    rw [Replies.check, checkEntry, wordMask_of_lt hw]
    exact ⟨_, rfl⟩
  | entries o hato => exact ⟨_, rfl⟩

variable (session) in
/-- The rotated index that the client sends. -/
def Session.rotatedIndex : GroupElement := rotateQuery 1#64 session.ip2.size session.ip2.index

/-- The client sends its rotated index to both servers, in the width that they read. -/
theorem query_settles {n : Nat} (hn : n ≤ 64) (height : ∀ b, (session.key b).height = n)
    (size : session.ip2.size = n)
    (next : ∀ k0 k1 k2 k3, Settles good (lineup
      (serveReply setup (session.server 0) (session.serverLocals 0 none) session.rotatedIndex k0)
      (serveReply setup (session.server 1) (session.serverLocals 1 none) session.rotatedIndex k1)
      (.ret ((), k2))
      (clientReplies setup session.stack (session.clientLocals none) session.rotatedIndex k3)))
    (k0 k1 k2 k3 : Counters) :
    Settles good (lineup
      (serveQuery setup (session.server 0) (session.serverLocals 0 none) k0)
      (serveQuery setup (session.server 1) (session.serverLocals 1 none) k1)
      (.ret ((), k2))
      (clientQuery setup session.stack (session.clientLocals none) k3)) := by
  have arrives : GroupElement.ofValue session.rotatedIndex.value n =
      session.rotatedIndex := ofValue_of_bitsize hn size
  have packSize : ∀ b, (session.serverLocals b none).eval.icp.size = n := height
  have packSize2 : (session.clientLocals none).ip2.size = n := size
  have rotated : rotateQuery 1#64 n (session.clientLocals none).ip2.index =
      session.rotatedIndex := by
    rw [← size]
    rfl
  unfold serveQuery clientQuery
  rw [packSize 0, packSize 1, packSize2, rotated]
  refine Settles.client_p0 (conveys_ge _ hn _) fun k3 k0 => ?_
  refine Settles.client_p1 (conveys_ge _ hn _) fun k3 k1 => ?_
  rw [arrives]
  exact next k0 k1 k2 k3

variable (session) in
/-- The replies are what the servers compute from their databases for the rotated index. -/
def Session.Served : Replies setup.block → Prop
  | .entry o hato =>
    setup.entrySize ≤ setup.bitlength ∧ ∀ b, innerProd setup.bitlength (2 ^ setup.inputSize)
      session.rotatedIndex (session.server b).database (session.eval b).out = some (o b, hato b)
  | .entries o hato =>
    ¬ setup.entrySize ≤ setup.bitlength ∧ ∀ b, computeInnerProdZp (session.server b).machine
      setup.bitlength (2 ^ setup.inputSize) session.rotatedIndex (session.server b).databaseB
      (session.eval b).out = some (o b, hato b)

variable (session) in
/-- An answer that the client may end with: it asked for its rotated index, was served,
and has tested the replies. -/
structure Session.Answers (answer : GroupElement × Replies setup.block × Bool) : Prop where
  query : answer.1 = session.rotatedIndex
  served : session.Served answer.2.1
  tested : answer.2.1.check setup.bitlength (fun b => (session.icp b).payload) = some answer.2.2

section Replies

variable (hn : setup.inputSize ≤ 30) (hw : setup.bitlength < 64)
  (height : ∀ b, (session.key b).height = setup.inputSize)
  (width : session.rotatedIndex.bitsize = setup.inputSize)

include hn hw height width

/-- The replies for entries that fit into a group element. -/
theorem entry_settles (short : setup.entrySize ≤ setup.bitlength) :
    ∃ replies check, session.Answers (session.rotatedIndex, replies, check) ∧ ∀ k0 k1 k2 k3,
      Settles (Returned (session.Agreed (some (session.rotatedIndex, replies, check)))) (lineup
        (serveReply setup (session.server 0) (session.serverLocals 0 none) session.rotatedIndex k0)
        (serveReply setup (session.server 1) (session.serverLocals 1 none) session.rotatedIndex k1)
        (.ret ((), k2))
        (clientReplies setup session.stack (session.clientLocals none)
          session.rotatedIndex k3)) := by
  have prod : ∀ b, ∃ o hato, innerProd setup.bitlength (2 ^ setup.inputSize) session.rotatedIndex
      (session.server b).database (session.serverLocals b none).eval.out = some (o, hato) ∧
      o.bitsize = setup.bitlength ∧ hato.bitsize = setup.bitlength := fun b =>
    innerProd_isDefined (by omega) hw width (congrArg (2 ^ ·) (height b)) _ _
  choose o hato run oWidth hatoWidth using prod
  have oSent := fun b => ofValue_of_bitsize hw.le (oWidth b)
  have hatoSent := fun b => ofValue_of_bitsize hw.le (hatoWidth b)
  obtain ⟨check, checked⟩ := check_isDefined hw (fun b => (session.icp b).payload)
    (Replies.entry ![o 0, o 1] ![hato 0, hato 1])
  have served : session.Served (Replies.entry ![o 0, o 1] ![hato 0, hato 1]) :=
    ⟨short, Fin.forall_fin_two.mpr ⟨run 0, run 1⟩⟩
  refine ⟨Replies.entry ![o 0, o 1] ![hato 0, hato 1], check, ⟨rfl, served, checked⟩, ?_⟩
  intro k0 k1 k2 k3
  unfold serveReply clientReplies
  simp only [if_pos short]
  rw [run 0, run 1, defined_bind, defined_bind]
  refine Settles.p0_client (conveys_ge _ hw.le _) fun k0 k3 => ?_
  refine Settles.p0_client (conveys_ge _ hw.le _) fun k0 k3 => ?_
  refine Settles.p1_client (conveys_ge _ hw.le _) fun k1 k3 => ?_
  refine Settles.p1_client (conveys_ge _ hw.le _) fun k1 k3 => ?_
  simp only [oSent, hatoSent]
  have tested : Replies.check setup.bitlength
      (fun b => ((session.clientLocals none).icp b).payload)
      (Replies.entry ![o 0, o 1] ![hato 0, hato 1]) = some check := checked
  rw [tested]
  exact Settles.ret ⟨rfl, rfl, rfl⟩

/-- The replies for longer entries. -/
theorem entries_settles (long : ¬ setup.entrySize ≤ setup.bitlength) :
    ∃ replies check, session.Answers (session.rotatedIndex, replies, check) ∧ ∀ k0 k1 k2 k3,
      Settles (Returned (session.Agreed (some (session.rotatedIndex, replies, check)))) (lineup
        (serveReply setup (session.server 0) (session.serverLocals 0 none) session.rotatedIndex k0)
        (serveReply setup (session.server 1) (session.serverLocals 1 none) session.rotatedIndex k1)
        (.ret ((), k2))
        (clientReplies setup session.stack (session.clientLocals none)
          session.rotatedIndex k3)) := by
  have prod : ∀ b i, ∃ o hato, innerProd setup.bitlength (2 ^ setup.inputSize)
      session.rotatedIndex ((session.server b).databaseB i) (session.serverLocals b none).eval.out =
        some (o, hato) ∧ o.bitsize = setup.bitlength ∧ hato.bitsize = setup.bitlength := fun b i =>
    innerProd_isDefined (by omega) hw width (congrArg (2 ^ ·) (height b)) _ _
  choose o hato run oWidth hatoWidth using prod
  have runs := fun b => computeInnerProdZp_eq (session.server b).machine (run b)
  have oSent := fun b i => ofValue_of_bitsize hw.le (oWidth b i)
  have hatoSent := fun b i => ofValue_of_bitsize hw.le (hatoWidth b i)
  obtain ⟨check, checked⟩ := check_isDefined hw (fun b => (session.icp b).payload)
    (Replies.entries ![o 0, o 1] ![hato 0, hato 1])
  have served : session.Served (Replies.entries ![o 0, o 1] ![hato 0, hato 1]) :=
    ⟨long, Fin.forall_fin_two.mpr ⟨runs 0, runs 1⟩⟩
  refine ⟨Replies.entries ![o 0, o 1] ![hato 0, hato 1], check, ⟨rfl, served, checked⟩, ?_⟩
  intro k0 k1 k2 k3
  unfold serveReply clientReplies
  simp only [if_neg long]
  rw [runs 0, runs 1, defined_bind, defined_bind]
  refine Settles.p0_client (conveys_each fun i => conveys_ge _ hw.le _) fun k0 k3 => ?_
  refine Settles.p0_client (conveys_each fun i => conveys_ge _ hw.le _) fun k0 k3 => ?_
  refine Settles.p1_client (conveys_each fun i => conveys_ge _ hw.le _) fun k1 k3 => ?_
  refine Settles.p1_client (conveys_each fun i => conveys_ge _ hw.le _) fun k1 k3 => ?_
  simp only [oSent, hatoSent]
  have tested : Replies.check setup.bitlength
      (fun b => ((session.clientLocals none).icp b).payload)
      (Replies.entries ![o 0, o 1] ![hato 0, hato 1]) = some check := checked
  rw [tested]
  exact Settles.ret ⟨rfl, rfl, rfl⟩

end Replies

/-! ## The whole session -/

/-- The range of constants that the programs support. -/
structure Setup.Supported (setup : Setup) : Prop where
  inputSize : setup.inputSize ≤ 30
  positive : 0 < setup.bitlength
  bitlength : setup.bitlength ≤ 63

/-- An offer whose keys have the height and the width of the programs and whose pack
has arrays of its announced size. Everything else is arbitrary. -/
structure Offer.Shaped (setup : Setup) (offer : Offer) : Prop where
  height : ∀ b, (offer.key b).height = setup.inputSize
  bout : ∀ b, (offer.key b).Bout.toNat = setup.bitlength
  size : offer.ip2.size ≤ 64

/-- The programs can run to an end in which they agree and the servers have answered. -/
theorem session_answered (supported : setup.Supported) (shaped : session.offer.Shaped setup) :
    ∃ answer : Option (GroupElement × Replies setup.block × Bool),
      answer.isSome = session.output ∧ (∀ a ∈ answer, session.Answers a) ∧
      Settles (Returned (session.Agreed answer)) session.programs := by
  have hn : setup.inputSize ≤ 30 := supported.inputSize
  have hw : setup.bitlength < 64 := by have := supported.bitlength; omega
  have height : ∀ b, (session.key b).height = setup.inputSize := shaped.height
  have fits : ∀ b, (session.key b).height ≤ setup.inputSize := fun b => (height b).le
  have packSize : session.offer.ip2.size < 2 ^ 64 := lt_of_le_of_lt shaped.size (by decide)
  cases verdict : session.output with
  | false =>
    refine ⟨none, rfl, fun a mem => absurd mem (Option.not_mem_none a), ?_⟩
    exact verdict_settles hn hw.le fits packSize (rejected_settles verdict)
  | true =>
    obtain ⟨size01, size12⟩ := checkXor_size verdict
    have size : session.ip2.size = setup.inputSize := by
      rw [← size12, ← size01]
      exact height 0
    have replied : ∃ replies check, session.Answers (session.rotatedIndex, replies, check) ∧
        ∀ k0 k1 k2 k3, Settles
          (Returned (session.Agreed (some (session.rotatedIndex, replies, check)))) (lineup
          (serveReply setup (session.server 0) (session.serverLocals 0 none)
            session.rotatedIndex k0)
          (serveReply setup (session.server 1) (session.serverLocals 1 none)
            session.rotatedIndex k1)
          (.ret ((), k2))
          (clientReplies setup session.stack (session.clientLocals none)
            session.rotatedIndex k3)) := by
      by_cases short : setup.entrySize ≤ setup.bitlength
      · exact entry_settles hn hw height size short
      · exact entries_settles hn hw height size short
    obtain ⟨replies, check, answers, last⟩ := replied
    refine ⟨some (session.rotatedIndex, replies, check), rfl, ?_, ?_⟩
    · intro a mem
      rwa [← Option.some.inj mem]
    · have asked := query_settles (by omega) height size last
      exact verdict_settles hn hw.le fits packSize (accepted_settles verdict asked)

theorem session_leads (supported : setup.Supported) (shaped : session.offer.Shaped setup) :
    ∃ answer : Option (GroupElement × Replies setup.block × Bool),
      answer.isSome = session.output ∧ (∀ a ∈ answer, a.1 = session.rotatedIndex) ∧
      Leads (Returned (session.Agreed answer)) session.programs := by
  obtain ⟨answer, verdict, answers, settles⟩ := session_answered supported shaped
  exact ⟨answer, verdict, fun a mem => (answers a mem).query, settles.leads⟩

variable (session) in
/-- Every interleaving of the four programs keeps them synchronised: what a party has
read from a channel is what the other has written there, field by field; the session
can always still finish; and it gets stuck only when all four have finished, with
empty channels and with results that do not depend on the interleaving. When the
client accepts, both servers have received its rotated index and it has received
their replies; when it rejects, all finish without a query. -/
theorem session_synchronised (supported : setup.Supported)
    (shaped : session.offer.Shaped setup) :
    ∃ (answer : Option (GroupElement × Replies setup.block × Bool))
      (result : (p : Party) → Result setup.block p),
      answer.isSome = session.output ∧ (∀ a ∈ answer, a.1 = session.rotatedIndex) ∧
      session.Agreed answer result ∧
      ∀ s, Reaches (State.start session.programs) s →
        (∀ c, s.received c <+: s.sent c) ∧
        (∃ s', Reaches s s' ∧ ∀ p, s'.procs p = .ret (result p)) ∧
        (Stuck s → (∀ p, s.procs p = .ret (result p)) ∧ ∀ c, s.channel c = []) := by
  obtain ⟨answer, verdict, query, final, ⟨result, agreed, rfl⟩, meets⟩ :=
    session_leads supported shaped
  exact ⟨answer, result, verdict, query, agreed, fun s run => meets.synchronised run⟩

end Phases

/-- Two entries of two blocks of a byte. -/
def toySetup : Setup where
  inputSize := 1
  bitlength := 8
  entrySize := 16

/-- The honest dealer's session. -/
def toySession : Session toySetup where
  aes := toyCipher
  server := fun b =>
    { machine := toyServers b
      stack := fun _ _ => 7#8
      database := fun _ => GroupElement.ofValue 3#64 8
      databaseB := fun _ _ => GroupElement.ofValue 3#64 8 }
  stack := fun _ _ => 9#8
  offer :=
    { index := toyInput.index
      alpha := toyInput.alpha
      key := (toyKeygen toyInput).key
      kgtime := 5#32
      ip2 := (toyKeygen toyInput).ip2 }

/-- The client accepts this dealer, so the session ends with replies. -/
theorem session_synchronised_toy :
    ∃ (a : GroupElement × Replies toySetup.block × Bool)
      (result : (p : Party) → Result toySetup.block p), toySession.Agreed (some a) result ∧
      ∀ s, Reaches (State.start toySession.programs) s →
        Stuck s → (∀ p, s.procs p = .ret (result p)) ∧ ∀ c, s.channel c = [] := by
  have accepted : toySession.output = true := by decide
  have shaped : toySession.offer.Shaped toySetup := ⟨fun _ => rfl, by decide, by decide⟩
  obtain ⟨answer, result, verdict, -, agreed, runs⟩ := session_synchronised toySession
    ⟨by decide, by decide, by decide⟩ shaped
  rw [accepted, Option.isSome_iff_exists] at verdict
  obtain ⟨a, rfl⟩ := verdict
  exact ⟨a, result, agreed, fun s run => (runs s run).2.2⟩

/-! ## Sockets with buffers of limited size -/

/-- The session does not depend on how much the sockets buffer. Where `send` blocks until
there is room and `recv` takes the bytes as they come, over channels that hold as little as
one byte, every interleaving of the single bytes comes to an end after the same number of
steps. All parties have then finished, with the results that they also have over channels
without limits. -/
theorem session_buffered {setup : Setup} {session : Session setup} (supported : setup.Supported)
    (shaped : session.offer.Shaped setup) :
    ∃ (answer : Option (GroupElement × Replies setup.block × Bool))
      (result : (p : Party) → Result setup.block p),
      answer.isSome = session.output ∧ session.Agreed answer result ∧
      (∃ s, Reaches (State.start session.programs) s ∧ ∀ p, s.procs p = .ret (result p)) ∧
      ∀ capacity : Party × Party → Nat, (∀ c, 0 < capacity c) →
        ∃ n, ∀ m s, Run (Bounded.Steps capacity) m (Bounded.State.idle session.programs) s →
          m ≤ n ∧
          (∃ s', Relation.ReflTransGen (Bounded.Steps capacity) s s' ∧
            ∀ p, (s'.own p).1 = .ret (result p)) ∧
          (Bounded.Stuck capacity s → m = n ∧ (∀ p, (s.own p).1 = .ret (result p)) ∧
            ∀ c, s.channel c = []) := by
  obtain ⟨answer, verdict, -, final, ⟨result, agreed, rfl⟩, shakes⟩ :=
    session_answered supported shaped
  obtain ⟨s, run, ended⟩ := shakes.meets.reaches
  exact ⟨answer, result, verdict, agreed, ⟨s, run, congrFun ended⟩,
    fun capacity room => Bounded.ends room shakes⟩

/-- Over channels of one byte the client of the toy session ends with replies. -/
theorem session_buffered_toy :
    ∃ (a : GroupElement × Replies toySetup.block × Bool)
      (result : (p : Party) → Result toySetup.block p), toySession.Agreed (some a) result ∧
      ∃ n, ∀ m s, Run (Bounded.Steps fun _ => 1) m (Bounded.State.idle toySession.programs) s →
        m ≤ n ∧ (Bounded.Stuck (fun _ => 1) s → ∀ p, (s.own p).1 = .ret (result p)) := by
  have accepted : toySession.output = true := by decide
  have shaped : toySession.offer.Shaped toySetup := ⟨fun _ => rfl, by decide, by decide⟩
  obtain ⟨answer, result, verdict, agreed, -, runs⟩ := @session_buffered toySetup toySession
    ⟨by decide, by decide, by decide⟩ shaped
  rw [accepted, Option.isSome_iff_exists] at verdict
  obtain ⟨a, rfl⟩ := verdict
  obtain ⟨n, ends⟩ := runs (fun _ => 1) fun _ => Nat.one_pos
  exact ⟨a, result, agreed, n, fun m s run =>
    ⟨(ends m s run).1, fun stuck => ((ends m s run).2.2 stuck).2.1⟩⟩

end DpfPir
