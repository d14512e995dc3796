import DpfPir.Retrieval
import DpfPir.Wire

/-!
# The programs of the four parties

The programs of the dealer P2 (`p2.cpp`), the servers P0 and P1 (`p0.cpp`,
`p1.cpp`) and the client (`c.cpp`) after their connections are made. Times that the
programs measure and print are left out, except for the one that P2 sends to P0.

The programs of the two servers differ: P0 also receives the time of key generation.
From then on they are one program, `serve`.
-/

namespace DpfPir

open LittleEndian Words Network

/-! ## What the parties hold -/

/-- The constants of the four programs. The database has `2 ^ inputSize` entries. -/
structure Setup where
  inputSize : Nat
  bitlength : Nat
  entrySize : Nat

/-- The number of group elements that hold one entry. -/
def Setup.block (setup : Setup) : Nat :=
  if setup.entrySize % setup.bitlength ≠ 0 then setup.entrySize / setup.bitlength + 1
  else setup.entrySize / setup.bitlength

/-- A server's memory, thread schedules and databases: `database` for entries that
fit into a group element and `databaseB` for longer ones. -/
structure ServerSide (setup : Setup) where
  machine : Machine
  stack : Stack
  database : Fin (2 ^ setup.inputSize) → GroupElement
  databaseB : Fin setup.block → Fin (2 ^ setup.inputSize) → GroupElement

/-- What the dealer has to send: the shares, the keys, the time of key generation
and its pack for the client. -/
structure Offer where
  index : Fin 2 → GroupElement
  alpha : Fin 2 → GroupElement
  key : Fin 2 → DpfKey
  kgtime : BitVec 32
  ip2 : InputCheckPack2

/-- A server's answer to a query: one pair of group elements, or one for each block. -/
inductive Reply (block : Nat)
  | entry (o hato : GroupElement)
  | entries (o hato : Fin block → GroupElement)

/-- The answers of both servers. -/
inductive Replies (block : Nat)
  | entry (o hato : Fin 2 → GroupElement)
  | entries (o hato : Fin 2 → Fin block → GroupElement)

/-- The answer of one server. -/
def Replies.of {block : Nat} (b : Fin 2) : Replies block → Reply block
  | .entry o hato => .entry (o b) (hato b)
  | .entries o hato => .entries (o b) (hato b)

/-- The local variables of a server at its end. Only P0 receives a `kgtime`. -/
structure ServerLocals (block : Nat) where
  index : GroupElement
  payload : GroupElement
  key : DpfKey
  kgtime : Option (BitVec 32)
  eval : EvalAll key.height
  accept : Byte
  answer : Option (GroupElement × Reply block)

/-- The local variables of the client at its end: for a session that it accepted,
the rotated index, the answers and the result of its last test. -/
structure ClientLocals (block : Nat) where
  icp : Fin 2 → InputCheckPack
  ip2 : InputCheckPack2
  output : Bool
  answer : Option (GroupElement × Replies block × Bool)

/-! ## The programs -/

/-- A value that is undefined where it is `none`. -/
def defined {α : Type} : Option α → Prog α
  | some a => return a
  | none => undefined

theorem defined_bind {α γ : Type} (a : α) (f : α → Prog γ) : defined (some a) >>= f = f a := rfl

/-- `GroupElement** out = dpf_eval_all(party, key, &icp, t)`. The array `t` has
`database_size` elements. -/
def evalInto (setup : Setup) (m : Machine) (aes : Cipher) (party : Fin 2) (key : DpfKey)
    (index payload : GroupElement) : Option (EvalAll key.height) :=
  if key.height ≤ setup.inputSize then
    some (dpfEvalAll m setup.bitlength aes party key index payload)
  else none

/-- The client's test of a single entry. Its mask is a 64-bit word. -/
def checkEntry (bitlength : Nat) (payload o hato : Fin 2 → GroupElement) : Option Bool := do
  let mask ← wordMask bitlength
  return ((payload 0 + payload 1).value.setWidth 128 * (o 0 + o 1).value.setWidth 128 &&&
    mask.setWidth 128) == (hato 0 + hato 1).value.setWidth 128

/-- The client's last test. -/
def Replies.check {block : Nat} (bitlength : Nat) (payload : Fin 2 → GroupElement) :
    Replies block → Option Bool
  | .entry o hato => checkEntry bitlength payload o hato
  | .entries o hato => some <| (List.finRange block).foldl
      (fun check i => check && checkBlock bitlength payload (fun b => o b i) fun b => hato b i) true

section Programs

variable (setup : Setup) (side : ServerSide setup) (aes : Cipher)

/-- The servers' programs from the rotated index on. -/
def serveReply (locals : ServerLocals setup.block) (rotatedIndex : GroupElement) :
    Prog (ServerLocals setup.block) := do
  if setup.entrySize ≤ setup.bitlength then
    let (o, hato) ← defined (innerProd setup.bitlength (2 ^ setup.inputSize) rotatedIndex
      side.database locals.eval.out)
    sendGe o setup.bitlength .client
    sendGe hato setup.bitlength .client
    return { locals with answer := some (rotatedIndex, .entry o hato) }
  else
    let (o, hato) ← defined (computeInnerProdZp side.machine setup.bitlength
      (2 ^ setup.inputSize) rotatedIndex side.databaseB locals.eval.out)
    sendEach setup.block fun i => sendGe (o i) setup.bitlength .client
    sendEach setup.block fun i => sendGe (hato i) setup.bitlength .client
    return { locals with answer := some (rotatedIndex, .entries o hato) }

/-- The servers' programs for a query that the client has accepted. -/
def serveQuery (locals : ServerLocals setup.block) : Prog (ServerLocals setup.block) := do
  let rotatedIndex ← recvGe side.stack locals.eval.icp.size .client
  serveReply setup side locals rotatedIndex

/-- The servers' programs from the client's verdict on. -/
def serveVerdict (index payload : GroupElement) (key : DpfKey) (kgtime : Option (BitVec 32))
    (eval : EvalAll key.height) : Prog (ServerLocals setup.block) := do
  let accept ← recvUint8 .client
  let locals := { index, payload, key, kgtime, eval, accept, answer := none }
  if accept = 0#8 then return locals else serveQuery setup side locals

/-- The servers' programs once the dealer's messages are there. -/
def serve (party : Fin 2) (index payload : GroupElement) (key : DpfKey)
    (kgtime : Option (BitVec 32)) : Prog (ServerLocals setup.block) := do
  let eval ← defined (evalInto setup side.machine aes party key index payload)
  sendUint8 4#8 .client
  sendInputCheckPack eval.icp setup.inputSize setup.bitlength .client
  serveVerdict setup side index payload key kgtime eval

/-- `p0.cpp`. -/
def p0 : Prog (ServerLocals setup.block) := do
  let index ← recvGe side.stack setup.inputSize .p2
  let payload ← recvGe side.stack setup.bitlength .p2
  let key ← recvDpfKey side.stack setup.bitlength .p2
  let kgtime ← recvInt .p2
  serve setup side aes 0 index payload key (some kgtime)

/-- `p1.cpp`. -/
def p1 : Prog (ServerLocals setup.block) := do
  let index ← recvGe side.stack setup.inputSize .p2
  let payload ← recvGe side.stack setup.bitlength .p2
  let key ← recvDpfKey side.stack setup.bitlength .p2
  serve setup side aes 1 index payload key none

/-- `p2.cpp` after key generation; `Bin` is the input size and `Bout` the bitlength. -/
def p2 (offer : Offer) : Prog Unit := do
  sendGe (offer.index 0) setup.inputSize .p0
  sendGe (offer.alpha 0) setup.bitlength .p0
  sendDpfKey (offer.key 0) setup.inputSize setup.bitlength .p0
  sendInt offer.kgtime .p0
  sendGe (offer.index 1) setup.inputSize .p1
  sendGe (offer.alpha 1) setup.bitlength .p1
  sendDpfKey (offer.key 1) setup.inputSize setup.bitlength .p1
  sendInputCheckPack2 offer.ip2 setup.inputSize setup.bitlength .client
  return ()

/-- The client's program from the servers' replies on. -/
def clientReplies (stack : Stack) (locals : ClientLocals setup.block)
    (rotatedIndex : GroupElement) : Prog (ClientLocals setup.block) := do
  let payload := fun b => (locals.icp b).payload
  if setup.entrySize ≤ setup.bitlength then
    let o0 ← recvGe stack setup.bitlength .p0
    let ohat0 ← recvGe stack setup.bitlength .p0
    let o1 ← recvGe stack setup.bitlength .p1
    let ohat1 ← recvGe stack setup.bitlength .p1
    let replies := Replies.entry ![o0, o1] ![ohat0, ohat1]
    let check ← defined (replies.check setup.bitlength payload)
    return { locals with answer := some (rotatedIndex, replies, check) }
  else
    let o0 ← recvEach (recvGe stack setup.bitlength .p0) setup.block
    let hato0 ← recvEach (recvGe stack setup.bitlength .p0) setup.block
    let o1 ← recvEach (recvGe stack setup.bitlength .p1) setup.block
    let hato1 ← recvEach (recvGe stack setup.bitlength .p1) setup.block
    let replies := Replies.entries ![o0, o1] ![hato0, hato1]
    let check ← defined (replies.check setup.bitlength payload)
    return { locals with answer := some (rotatedIndex, replies, check) }

/-- The client's program for a query that it has accepted. -/
def clientQuery (stack : Stack) (locals : ClientLocals setup.block) :
    Prog (ClientLocals setup.block) := do
  let rotatedIndex := rotateQuery 1#64 locals.ip2.size locals.ip2.index
  sendGe rotatedIndex locals.ip2.size .p0
  sendGe rotatedIndex locals.ip2.size .p1
  clientReplies setup stack locals rotatedIndex

/-- The client's program from its verdict on. -/
def clientVerdict (stack : Stack) (icp : Fin 2 → InputCheckPack) (ip2 : InputCheckPack2) :
    Prog (ClientLocals setup.block) := do
  let output := checkXor setup.bitlength (icp 0) (icp 1) ip2
  let out : Byte := if output then 1#8 else 0#8
  sendUint8 out .p0
  sendUint8 out .p1
  let locals := { icp, ip2, output, answer := none }
  if output then clientQuery setup stack locals else return locals

/-- `c.cpp`. -/
def client (stack : Stack) : Prog (ClientLocals setup.block) := do
  let _temp0 ← recvUint8 .p0
  let _temp1 ← recvUint8 .p1
  let icp0 ← recvInputCheckPack stack setup.inputSize setup.bitlength .p0
  let icp1 ← recvInputCheckPack stack setup.inputSize setup.bitlength .p1
  let ip2 ← recvInputCheckPack2 stack setup.inputSize setup.bitlength .p2
  clientVerdict setup stack ![icp0, icp1] ip2

end Programs

end DpfPir
