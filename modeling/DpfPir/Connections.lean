import DpfPir.Communication
import DpfPir.Rendezvous

/-!
# The connections of the parties

The constructors of `Server`, `ServerTrusted` and `Client`, the methods `connect_to_client`
and the ports that the four programs pass to them. Every party has a socket to send and one
to receive for each peer, so there are ten connections; the methods find the socket of a
peer by the argument `party`.

Results:
1. `connectionPlan`: at every port one endpoint accepts and one connects.
2. `connections_join`: a connection that is made joins the socket of a party for sending to
   a peer with the peer's socket for receiving from that party; no run has more than thirty
   steps, and when no program can go on, all ten are made or a program was refused.
-/

namespace DpfPir

open LittleEndian Rendezvous

/-! ## Sockets -/

/-- An element of `sendsocket` or `recvsocket`. -/
inductive Socket
  | sendsocket (i : Nat)
  | recvsocket (i : Nat)
deriving DecidableEq

/-- The argument `party` with which the program of a party calls its methods for a peer. -/
def partyArgument : Party → Party → Option Nat
  | .p0, .p2 | .p1, .p2 => some 2
  | .p0, .client | .p1, .client => some 3
  | .p2, .p0 => some 0
  | .p2, .p1 => some 1
  | .p2, .client => some 2
  | .client, .p0 => some 0
  | .client, .p1 => some 1
  | .client, .p2 => some 2
  | _, _ => none

/-- The element that the methods of a party use: `party - 2` in `Server`, whose arrays have
two elements, and `party` in the other classes, whose arrays have three. It is `none`
outside of the arrays. -/
def socketIndex : Party → Nat → Option Nat
  | .p0, party | .p1, party => if 2 ≤ party ∧ party - 2 < 2 then some (party - 2) else none
  | .p2, party | .client, party => if party < 3 then some party else none

/-- The socket through which `p` sends to `q`. -/
def sendSocket (p q : Party) : Option (Party × Socket) := do
  let i ← socketIndex p (← partyArgument p q)
  return (p, .sendsocket i)

/-- The socket through which `p` receives from `q`. -/
def recvSocket (p q : Party) : Option (Party × Socket) := do
  let i ← socketIndex p (← partyArgument p q)
  return (p, .recvsocket i)

/-! ## The calls -/

/-- The calls of a constructor for one socket, from `bind` to `accept`. -/
def acceptAt (port : Nat) (socket : Socket) : List (Call Nat Socket) :=
  [.listen port, .accept port socket]

/-- `Server::Server`. -/
def Server.new (port : Fin 2 → Nat) : List (Call Nat Socket) :=
  acceptAt (port 0) (.sendsocket 0) ++ acceptAt (port 1) (.recvsocket 0)

/-- `Server::connect_to_client`. -/
def Server.connectToClient (port : Fin 2 → Nat) : List (Call Nat Socket) :=
  [.connect (port 0) (.sendsocket 1), .connect (port 1) (.recvsocket 1)]

/-- `ServerTrusted::ServerTrusted`. -/
def ServerTrusted.new (port : Fin 4 → Nat) : List (Call Nat Socket) :=
  [.connect (port 0) (.recvsocket 0), .connect (port 1) (.sendsocket 0),
    .connect (port 2) (.recvsocket 1), .connect (port 3) (.sendsocket 1)]

/-- `ServerTrusted::connect_to_client`. -/
def ServerTrusted.connectToClient (port : Fin 2 → Nat) : List (Call Nat Socket) :=
  [.connect (port 0) (.sendsocket 2), .connect (port 1) (.recvsocket 2)]

/-- `Client::Client`. -/
def Client.new (port : Fin 6 → Nat) : List (Call Nat Socket) :=
  acceptAt (port 0) (.recvsocket 0) ++ acceptAt (port 1) (.sendsocket 0) ++
    acceptAt (port 2) (.recvsocket 1) ++ acceptAt (port 3) (.sendsocket 1) ++
    acceptAt (port 4) (.recvsocket 2) ++ acceptAt (port 5) (.sendsocket 2)

/-- The first lines of the four programs. -/
def connections : Party → List (Call Nat Socket)
  | .p0 => Server.new ![2000, 2001] ++ Server.connectToClient ![4000, 4001]
  | .p1 => Server.new ![3000, 3001] ++ Server.connectToClient ![6000, 6001]
  | .p2 => ServerTrusted.new ![2000, 2001, 3000, 3001] ++
    ServerTrusted.connectToClient ![8000, 8001]
  | .client => Client.new ![4000, 4001, 6000, 6001, 8000, 8001]

/-! ## The plan -/

/-- The socket that accepts at a port. -/
def acceptingSocket : Nat → Party × Socket
  | 2000 => (.p0, .sendsocket 0)
  | 2001 => (.p0, .recvsocket 0)
  | 3000 => (.p1, .sendsocket 0)
  | 3001 => (.p1, .recvsocket 0)
  | 4000 => (.client, .recvsocket 0)
  | 4001 => (.client, .sendsocket 0)
  | 6000 => (.client, .recvsocket 1)
  | 6001 => (.client, .sendsocket 1)
  | 8000 => (.client, .recvsocket 2)
  | _ => (.client, .sendsocket 2)

/-- The socket that connects to a port. -/
def connectingSocket : Nat → Party × Socket
  | 2000 => (.p2, .recvsocket 0)
  | 2001 => (.p2, .sendsocket 0)
  | 3000 => (.p2, .recvsocket 1)
  | 3001 => (.p2, .sendsocket 1)
  | 4000 => (.p0, .sendsocket 1)
  | 4001 => (.p0, .recvsocket 1)
  | 6000 => (.p1, .sendsocket 1)
  | 6001 => (.p1, .recvsocket 1)
  | 8000 => (.p2, .sendsocket 2)
  | _ => (.p2, .recvsocket 2)

/-- The two endpoints of a call's port, for a call of `p`. -/
def Planned (p : Party) : Call Nat Socket → Prop
  | .listen _ => True
  | .accept x e => (p, e) = acceptingSocket x ∧
    .connect x (connectingSocket x).2 ∈ connections (connectingSocket x).1
  | .connect x e => (p, e) = connectingSocket x ∧
    .accept x (acceptingSocket x).2 ∈ connections (acceptingSocket x).1

instance (p : Party) (call : Call Nat Socket) : Decidable (Planned p call) := by
  unfold Planned
  cases call <;> infer_instance

theorem planned : ∀ p, ∀ call ∈ connections p, Planned p call := by decide

/-- The plan of the four programs. -/
def connectionPlan : Plan Party Nat Socket where
  program := connections
  accepter := acceptingSocket
  connecter := connectingSocket
  nodup := by decide
  accepts p x e mem := planned p (.accept x e) mem
  connects p x e mem := planned p (.connect x e) mem

/-- The ports of the ten connections. -/
def ports : List Nat := [2000, 2001, 3000, 3001, 4000, 4001, 6000, 6001, 8000, 8001]

theorem port_mem : ∀ p, ∀ call ∈ connections p, call.port ∈ ports := by decide

theorem ports_rise (p : Party) : (connections p).Pairwise fun c d => c.port ≤ d.port := by
  cases p <;> decide

theorem accepter_ne_connecter : ∀ x ∈ ports, (acceptingSocket x).1 ≠ (connectingSocket x).1 := by
  decide

/-- A connection runs from a party to a peer. -/
theorem ends_of_port : ∀ x ∈ ports, ∃ p q, ∃ a ∈ sendSocket p q, ∃ b ∈ recvSocket q p,
    (acceptingSocket x, connectingSocket x) = (a, b) ∨
      (acceptingSocket x, connectingSocket x) = (b, a) := by
  decide

/-- There is a connection from every party to every peer. -/
theorem port_of_peers : ∀ p q, ∀ a ∈ sendSocket p q, ∀ b ∈ recvSocket q p,
    ∃ x ∈ ports, .accept x (acceptingSocket x).2 ∈ connections (acceptingSocket x).1 ∧
      ((acceptingSocket x, connectingSocket x) = (a, b) ∨
        (acceptingSocket x, connectingSocket x) = (b, a)) := by
  decide

/-! ## Runs -/

/-- The two sockets are the ends of one connection. -/
def Joined (s : Rendezvous.State Party Nat Socket) (a b : Party × Socket) : Prop :=
  (a, b) ∈ s.accepted ∨ (b, a) ∈ s.accepted

section Runs

variable {s : Rendezvous.State Party Nat Socket}
  (run : Rendezvous.Reaches (Rendezvous.State.start connections) s)
include run

theorem accepted_join (c : (Party × Socket) × (Party × Socket)) (mem : c ∈ s.accepted) :
    ∃ p q, ∃ a ∈ sendSocket p q, ∃ b ∈ recvSocket q p, c = (a, b) ∨ c = (b, a) := by
  obtain ⟨x, used, rfl⟩ := @Rendezvous.Reaches.wired _ _ _ _ _ connectionPlan _ run c mem
  exact ends_of_port x (port_mem _ _ used)

theorem peers_joined (stuck : Rendezvous.Stuck s) (served : ∀ p, s.refused p = false) (p q : Party) :
    ∀ a ∈ sendSocket p q, ∀ b ∈ recvSocket q p, Joined s a b := by
  intro a hasSend b hasRecv
  obtain ⟨-, complete⟩ := @Rendezvous.Reaches.complete _ _ _ _ _ connectionPlan _ _ _ ports_rise
    (fun x used => accepter_ne_connecter x (port_mem _ _ used)) run stuck served
  obtain ⟨x, _, used, ends | ends⟩ := port_of_peers p q a hasSend b hasRecv
  · exact .inl (ends ▸ complete x used)
  · exact .inr (ends ▸ complete x used)

/-- Every call is one step of a run, and there are thirty of them. -/
theorem steps_le {n : Nat} {s' : Rendezvous.State Party Nat Socket}
    (more : Network.Run Rendezvous.Steps n s s') : n ≤ 30 := by
  obtain ⟨m, before⟩ := Network.Run.of_reaches run
  have calls : (Rendezvous.State.start connections).calls = 30 := by decide
  have first := before.length_le fun _ _ => Rendezvous.Steps.calls_lt
  have rest := more.length_le fun _ _ => Rendezvous.Steps.calls_lt
  omega

/-- In every run of the four constructors and of `connect_to_client`, whatever the order of
their calls, a connection joins the socket through which a party sends to a peer with the
one through which the peer receives from it. Every run comes to an end, after at most thirty
steps, and then all ten connections are there, unless a program was refused. -/
theorem connections_join :
    (∀ c ∈ s.accepted, ∃ p q, ∃ a ∈ sendSocket p q, ∃ b ∈ recvSocket q p,
      c = (a, b) ∨ c = (b, a)) ∧
    (∀ n s', Network.Run Rendezvous.Steps n s s' → n ≤ 30) ∧
    (∃ s', Rendezvous.Reaches s s' ∧ Rendezvous.Stuck s') ∧
    (Rendezvous.Stuck s → (∀ p, s.refused p = false) →
      ∀ p q, ∀ a ∈ sendSocket p q, ∀ b ∈ recvSocket q p, Joined s a b) :=
  ⟨accepted_join run, fun _ _ => steps_le run, Rendezvous.Reaches.stops s, peers_joined run⟩

end Runs

/-- An order in which nobody is refused. -/
def patientOrder : List Party :=
  [.p0, .p2, .p0, .p0, .p2, .p0, .p1, .p2, .p1, .p1, .p2, .p1,
    .client, .p0, .client, .client, .p0, .client, .client, .p1, .client, .client, .p1, .client,
    .client, .p2, .client, .client, .p2, .client]

/-- The state at the end of that order. -/
theorem patientOrder_ends : ∃ s, (Rendezvous.State.start connections).follow patientOrder = some s ∧
    (∀ p, s.rest p = []) ∧ (∀ p, s.refused p = false) ∧ s.accepted.length = 10 := by
  have ends : ∀ s ∈ (Rendezvous.State.start connections).follow patientOrder,
      (∀ p, s.rest p = []) ∧ (∀ p, s.refused p = false) ∧ s.accepted.length = 10 := by decide
  obtain ⟨s, last⟩ : ∃ s, (Rendezvous.State.start connections).follow patientOrder = some s :=
    Option.isSome_iff_exists.mp (by decide)
  exact ⟨s, last, ends s last⟩

/-- The dealer's socket for sending to `P0` and `P0`'s for receiving from it. -/
theorem connections_join_patient : ∃ s : Rendezvous.State Party Nat Socket,
    Joined s (.p2, .sendsocket 0) (.p0, .recvsocket 0) := by
  obtain ⟨s, last, ended, served, -⟩ := patientOrder_ends
  exact ⟨s, (connections_join (.of_follow last)).2.2.2 (.of_ended ended) served .p2 .p0 _ rfl _ rfl⟩

/-! ## The programs talk to peers -/

/-- `p` has the sockets to send to `q` and to receive from it. -/
def Peers (p q : Party) : Prop := (sendSocket p q).isSome ∧ (recvSocket p q).isSome

instance (p q : Party) : Decidable (Peers p q) := by
  unfold Peers
  infer_instance

theorem Peers.symm : ∀ {p q}, Peers p q → Peers q p := by decide

/-- All that `m` writes or reads goes to or comes from peers. -/
def Talks {α : Type} (peer : Party → Prop) (m : Prog α) : Prop := ∀ c, (m c).Talks peer

section Talks

variable {α γ : Type} {peer : Party → Prop} {party : Party}

theorem Talks.pure (a : α) : Talks peer (Pure.pure a : Prog α) := fun _ => trivial

theorem Talks.bind {m : Prog α} {f : α → Prog γ} (first : Talks peer m)
    (second : ∀ a, Talks peer (f a)) : Talks peer (m >>= f) := fun c =>
  (first c).bind fun r => second r.1 r.2

theorem talks_undefined : Talks peer (undefined : Prog α) := fun _ => trivial

theorem talks_defined (a : Option α) : Talks peer (defined a) := by
  cases a with
  | none => exact talks_undefined
  | some a => exact Talks.pure a

theorem Talks.sendEach {n : Nat} {body : Fin n → Prog Unit} (talks : ∀ i, Talks peer (body i)) :
    Talks peer (sendEach n body) := by
  induction n with
  | zero => exact Talks.pure ()
  | succ n ih => exact (ih fun i => talks i.castSucc).bind fun _ => talks (Fin.last n)

theorem Talks.recvEach {body : Prog α} (talks : Talks peer body) (n : Nat) :
    Talks peer (recvEach body n) := by
  induction n with
  | zero => exact Talks.pure Fin.elim0
  | succ n ih => exact ih.bind fun xs => talks.bind fun x => Talks.pure _

variable (known : peer party)
include known

theorem talks_sendWord {w : Nat} (kind : Kind) (v : BitVec w) :
    Talks peer (sendWord kind v party) := fun _ => ⟨known, trivial⟩

theorem talks_recvWord (w : Nat) (kind : Kind) : Talks peer (recvWord w kind party) :=
  fun _ => ⟨known, fun _ => trivial⟩

theorem talks_sendGe (ge : GroupElement) (bw : Nat) : Talks peer (sendGe ge bw party) :=
  fun _ => ⟨known, trivial⟩

theorem talks_recvGe (stack : Stack) (bl : Nat) : Talks peer (recvGe stack bl party) :=
  fun _ => ⟨known, fun _ => trivial⟩

theorem talks_sendDpfKey (k : DpfKey) (bw bl : Nat) : Talks peer (sendDpfKey k bw bl party) := by
  unfold sendDpfKey
  refine (talks_sendWord known _ _).bind fun _ => ?_
  refine (talks_sendWord known _ _).bind fun _ => ?_
  refine (talks_sendWord known _ _).bind fun _ => ?_
  refine (talks_sendWord known _ _).bind fun _ => ?_
  refine (Talks.sendEach fun _ => talks_sendWord known _ _).bind fun _ => ?_
  refine (Talks.sendEach fun _ => talks_sendWord known _ _).bind fun _ => ?_
  refine (Talks.sendEach fun _ => talks_sendWord known _ _).bind fun _ => ?_
  exact (talks_sendGe known _ _).bind fun _ => talks_sendGe known _ _

theorem talks_recvDpfKey (stack : Stack) (bl : Nat) : Talks peer (recvDpfKey stack bl party) := by
  unfold recvDpfKey
  refine (talks_recvWord known _ _).bind fun height => ?_
  refine (talks_recvWord known _ _).bind fun Bout => ?_
  refine (talks_recvWord known _ _).bind fun s => ?_
  refine (talks_recvWord known _ _).bind fun t => ?_
  split
  · exact talks_undefined
  · refine ((talks_recvWord known _ _).recvEach _).bind fun sigma => ?_
    refine ((talks_recvWord known _ _).recvEach _).bind fun tau0 => ?_
    refine ((talks_recvWord known _ _).recvEach _).bind fun tau1 => ?_
    refine (talks_recvGe known _ _).bind fun gamma0 => ?_
    exact (talks_recvGe known _ _).bind fun gamma1 => Talks.pure _

theorem talks_sendCorrection (sigma : Block) (tau0 tau1 : Byte) : Talks peer (do
    sendBlock sigma party
    sendUint8 tau0 party
    sendUint8 tau1 party) :=
  (talks_sendWord known _ _).bind fun _ => (talks_sendWord known _ _).bind fun _ =>
    talks_sendWord known _ _

theorem talks_recvCorrection : Talks peer (recvCorrection party) :=
  (talks_recvWord known _ _).bind fun _ => (talks_recvWord known _ _).bind fun _ =>
    (talks_recvWord known _ _).bind fun _ => Talks.pure _

theorem talks_sendSums (zs0 zs1 : Block) (zt0 zt1 : Byte) : Talks peer (do
    sendBlock zs0 party
    sendBlock zs1 party
    sendUint8 zt0 party
    sendUint8 zt1 party) :=
  (talks_sendWord known _ _).bind fun _ => (talks_sendWord known _ _).bind fun _ =>
    (talks_sendWord known _ _).bind fun _ => talks_sendWord known _ _

theorem talks_recvSums : Talks peer (recvSums party) :=
  (talks_recvWord known _ _).bind fun _ => (talks_recvWord known _ _).bind fun _ =>
    (talks_recvWord known _ _).bind fun _ => (talks_recvWord known _ _).bind fun _ => Talks.pure _

theorem talks_sendInputCheckPack (icp : InputCheckPack) (bw bl : Nat) :
    Talks peer (sendInputCheckPack icp bw bl party) := by
  unfold sendInputCheckPack
  refine (talks_sendGe known _ _).bind fun _ => ?_
  refine (talks_sendGe known _ _).bind fun _ => ?_
  refine (talks_sendWord known _ _).bind fun _ => ?_
  refine (Talks.sendEach fun _ => talks_sendWord known _ _).bind fun _ => ?_
  refine (Talks.sendEach fun _ => talks_sendWord known _ _).bind fun _ => ?_
  refine (Talks.sendEach fun _ => talks_sendWord known _ _).bind fun _ => ?_
  refine (Talks.sendEach fun _ => talks_sendWord known _ _).bind fun _ => ?_
  refine (Talks.sendEach fun _ => talks_sendCorrection known _ _ _).bind fun _ => ?_
  refine (talks_sendWord known _ _).bind fun _ => ?_
  refine (talks_sendGe known _ _).bind fun _ => ?_
  refine (talks_sendGe known _ _).bind fun _ => ?_
  exact (talks_sendGe known _ _).bind fun _ => talks_sendGe known _ _

theorem talks_recvInputCheckPack (stack : Stack) (bl bw : Nat) :
    Talks peer (recvInputCheckPack stack bl bw party) := by
  unfold recvInputCheckPack
  refine (talks_recvGe known _ _).bind fun index => ?_
  refine (talks_recvGe known _ _).bind fun payload => ?_
  refine (talks_recvWord known _ _).bind fun size => ?_
  refine ((talks_recvWord known _ _).recvEach _).bind fun zs0 => ?_
  refine ((talks_recvWord known _ _).recvEach _).bind fun zs1 => ?_
  refine ((talks_recvWord known _ _).recvEach _).bind fun zt0 => ?_
  refine ((talks_recvWord known _ _).recvEach _).bind fun zt1 => ?_
  refine ((talks_recvCorrection known).recvEach _).bind fun words => ?_
  refine (talks_recvWord known _ _).bind fun T => ?_
  refine (talks_recvGe known _ _).bind fun W0 => ?_
  refine (talks_recvGe known _ _).bind fun W1 => ?_
  refine (talks_recvGe known _ _).bind fun gamma0 => ?_
  exact (talks_recvGe known _ _).bind fun gamma1 => Talks.pure _

theorem talks_sendInputCheckPack2 (icp : InputCheckPack2) (bw bl : Nat) :
    Talks peer (sendInputCheckPack2 icp bw bl party) := by
  unfold sendInputCheckPack2
  refine (talks_sendGe known _ _).bind fun _ => ?_
  refine (talks_sendGe known _ _).bind fun _ => ?_
  refine (talks_sendGe known _ _).bind fun _ => ?_
  refine (talks_sendGe known _ _).bind fun _ => ?_
  refine (talks_sendWord known _ _).bind fun _ => ?_
  refine (Talks.sendEach fun _ => talks_sendSums known _ _ _ _).bind fun _ => ?_
  refine (Talks.sendEach fun _ => talks_sendSums known _ _ _ _).bind fun _ => ?_
  refine (Talks.sendEach fun _ => talks_sendCorrection known _ _ _).bind fun _ => ?_
  refine (talks_sendWord known _ _).bind fun _ => ?_
  refine (talks_sendWord known _ _).bind fun _ => ?_
  refine (talks_sendGe known _ _).bind fun _ => ?_
  refine (talks_sendGe known _ _).bind fun _ => ?_
  refine (talks_sendGe known _ _).bind fun _ => ?_
  refine (talks_sendGe known _ _).bind fun _ => ?_
  exact (talks_sendGe known _ _).bind fun _ => talks_sendGe known _ _

theorem talks_recvInputCheckPack2 (stack : Stack) (bl bw : Nat) :
    Talks peer (recvInputCheckPack2 stack bl bw party) := by
  unfold recvInputCheckPack2
  refine (talks_recvGe known _ _).bind fun index0 => ?_
  refine (talks_recvGe known _ _).bind fun index1 => ?_
  refine (talks_recvGe known _ _).bind fun payload0 => ?_
  refine (talks_recvGe known _ _).bind fun payload1 => ?_
  refine (talks_recvWord known _ _).bind fun size => ?_
  refine ((talks_recvSums known).recvEach _).bind fun sums0 => ?_
  refine ((talks_recvSums known).recvEach _).bind fun sums1 => ?_
  refine ((talks_recvCorrection known).recvEach _).bind fun words => ?_
  refine (talks_recvWord known _ _).bind fun T0 => ?_
  refine (talks_recvWord known _ _).bind fun T1 => ?_
  refine (talks_recvGe known _ _).bind fun W00 => ?_
  refine (talks_recvGe known _ _).bind fun W01 => ?_
  refine (talks_recvGe known _ _).bind fun W10 => ?_
  refine (talks_recvGe known _ _).bind fun W11 => ?_
  refine (talks_recvGe known _ _).bind fun gamma0 => ?_
  exact (talks_recvGe known _ _).bind fun gamma1 => Talks.pure _

end Talks

section Programs

variable (setup : Setup) (side : ServerSide setup) (aes : Cipher)

theorem talks_serve {peer : Party → Prop} (known : peer .client) (party : Fin 2)
    (index payload : GroupElement) (key : DpfKey) (kgtime : Option (BitVec 32)) :
    Talks peer (serve setup side aes party index payload key kgtime) := by
  unfold serve
  refine (talks_defined _).bind fun eval => ?_
  refine (talks_sendWord known _ _).bind fun _ => ?_
  refine (talks_sendInputCheckPack known _ _ _).bind fun _ => ?_
  unfold serveVerdict
  refine (talks_recvWord known _ _).bind fun accept => ?_
  dsimp only
  split
  · exact Talks.pure _
  · unfold serveQuery
    refine (talks_recvGe known _ _).bind fun rotatedIndex => ?_
    unfold serveReply
    split
    · refine (talks_defined _).bind fun answer => ?_
      refine (talks_sendGe known _ _).bind fun _ => ?_
      exact (talks_sendGe known _ _).bind fun _ => Talks.pure _
    · refine (talks_defined _).bind fun answer => ?_
      refine (Talks.sendEach fun _ => talks_sendGe known _ _).bind fun _ => ?_
      exact (Talks.sendEach fun _ => talks_sendGe known _ _).bind fun _ => Talks.pure _

theorem talks_p0 : Talks (Peers .p0) (p0 setup side aes) := by
  have known : Peers .p0 .p2 := by decide
  unfold p0
  refine (talks_recvGe known _ _).bind fun index => ?_
  refine (talks_recvGe known _ _).bind fun payload => ?_
  refine (talks_recvDpfKey known _ _).bind fun key => ?_
  refine (talks_recvWord known _ _).bind fun kgtime => ?_
  exact talks_serve setup side aes (by decide) 0 index payload key (some kgtime)

theorem talks_p1 : Talks (Peers .p1) (p1 setup side aes) := by
  have known : Peers .p1 .p2 := by decide
  unfold p1
  refine (talks_recvGe known _ _).bind fun index => ?_
  refine (talks_recvGe known _ _).bind fun payload => ?_
  refine (talks_recvDpfKey known _ _).bind fun key => ?_
  exact talks_serve setup side aes (by decide) 1 index payload key none

theorem talks_p2 (offer : Offer) : Talks (Peers .p2) (p2 setup offer) := by
  have known0 : Peers .p2 .p0 := by decide
  have known1 : Peers .p2 .p1 := by decide
  unfold p2
  refine (talks_sendGe known0 _ _).bind fun _ => ?_
  refine (talks_sendGe known0 _ _).bind fun _ => ?_
  refine (talks_sendDpfKey known0 _ _ _).bind fun _ => ?_
  refine (talks_sendWord known0 _ _).bind fun _ => ?_
  refine (talks_sendGe known1 _ _).bind fun _ => ?_
  refine (talks_sendGe known1 _ _).bind fun _ => ?_
  refine (talks_sendDpfKey known1 _ _ _).bind fun _ => ?_
  exact (talks_sendInputCheckPack2 (by decide) _ _ _).bind fun _ => Talks.pure ()

theorem talks_client (stack : Stack) : Talks (Peers .client) (client setup stack) := by
  have known0 : Peers .client .p0 := by decide
  have known1 : Peers .client .p1 := by decide
  unfold client
  refine (talks_recvWord known0 _ _).bind fun temp0 => ?_
  refine (talks_recvWord known1 _ _).bind fun temp1 => ?_
  refine (talks_recvInputCheckPack known0 _ _ _).bind fun icp0 => ?_
  refine (talks_recvInputCheckPack known1 _ _ _).bind fun icp1 => ?_
  refine (talks_recvInputCheckPack2 (by decide) _ _ _).bind fun ip2 => ?_
  unfold clientVerdict
  dsimp only
  refine (talks_sendWord known0 _ _).bind fun _ => ?_
  refine (talks_sendWord known1 _ _).bind fun _ => ?_
  split
  · unfold clientQuery
    dsimp only
    refine (talks_sendGe known0 _ _).bind fun _ => ?_
    refine (talks_sendGe known1 _ _).bind fun _ => ?_
    unfold clientReplies
    dsimp only
    split
    · refine (talks_recvGe known0 _ _).bind fun o0 => ?_
      refine (talks_recvGe known0 _ _).bind fun ohat0 => ?_
      refine (talks_recvGe known1 _ _).bind fun o1 => ?_
      refine (talks_recvGe known1 _ _).bind fun ohat1 => ?_
      exact (talks_defined _).bind fun check => Talks.pure _
    · refine ((talks_recvGe known0 _ _).recvEach _).bind fun o0 => ?_
      refine ((talks_recvGe known0 _ _).recvEach _).bind fun hato0 => ?_
      refine ((talks_recvGe known1 _ _).recvEach _).bind fun o1 => ?_
      refine ((talks_recvGe known1 _ _).recvEach _).bind fun hato1 => ?_
      exact (talks_defined _).bind fun check => Talks.pure _
  · exact Talks.pure _

end Programs

/-- The programs use only sockets that are connected: when the connections have been made
and no program was refused, every field that is sent or received in any run of the session
goes through two sockets that are the ends of one connection. -/
theorem sockets_carry {setup : Setup} (session : Session setup)
    {s : Network.State Party Kind Byte (Result setup.block)}
    (run : Network.Reaches (Network.State.start session.programs) s)
    {t : Rendezvous.State Party Nat Socket}
    (opened : Rendezvous.Reaches (Rendezvous.State.start connections) t)
    (stuck : Rendezvous.Stuck t) (served : ∀ p, t.refused p = false) {p q : Party}
    (used : s.sent (p, q) ≠ [] ∨ s.received (p, q) ≠ []) :
    ∃ a ∈ sendSocket p q, ∃ b ∈ recvSocket q p, Joined t a b := by
  have talks : ∀ p, (session.programs p).Talks (Peers p) := by
    intro p
    cases p with
    | p0 => exact talks_p0 setup (session.server 0) session.aes _
    | p1 => exact talks_p1 setup (session.server 1) session.aes _
    | p2 => exact talks_p2 setup session.offer _
    | client => exact talks_client setup session.stack _
  have spoken := Network.Reaches.spoken run talks
  have peers : Peers p q := by
    rcases used with sent | received
    · exact spoken.sent p q sent
    · exact (spoken.received q p received).symm
  obtain ⟨a, hasSend⟩ := Option.isSome_iff_exists.mp peers.1
  obtain ⟨b, hasRecv⟩ := Option.isSome_iff_exists.mp peers.symm.2
  exact ⟨a, hasSend, b, hasRecv, peers_joined opened stuck served p q a hasSend b hasRecv⟩

/-- The first message of the toy session, from the dealer to `P0`. -/
theorem sockets_carry_toy : ∃ t : Rendezvous.State Party Nat Socket,
    ∃ a ∈ sendSocket .p2 .p0, ∃ b ∈ recvSocket .p0 .p2, Joined t a b := by
  obtain ⟨t, last, ended, served, -⟩ := patientOrder_ends
  have step : Network.Steps (Network.State.start toySession.programs) _ :=
    ⟨.p2, Network.Step.send rfl⟩
  refine ⟨t, sockets_carry toySession (.single step) (.of_follow last) (.of_ended ended) served
    (.inl ?_)⟩
  exact List.cons_ne_nil _ _

end DpfPir
