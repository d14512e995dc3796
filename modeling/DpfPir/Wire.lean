import DpfPir.Check
import DpfPir.Expansion
import DpfPir.Network

/-!
# Wire formats

The `send_` and `recv_` methods of the dealer (`server_trusted.cpp`), the servers
(`server.cpp`) and the client (`client.cpp`), as programs that write to and read
from byte channels and count the bytes. The three classes have the same methods for
single fields; each method is defined once.

Results:
1. `conveys_word`, `conveys_ge`: single fields. A group element arrives reduced to
   the width of the receiver, whatever memory follows the receive buffer.
2. `Conveys.bind`, `conveys_each`: a sender and a receiver that correspond step by
   step, over sequences and over loops.
3. `conveys_dpfKey`, `conveys_inputCheckPack`, `conveys_inputCheckPack2`: the three
   messages, for arbitrary contents.
4. `wire_roundTrip`: well-formed messages arrive unchanged, in exactly their bytes.
-/

namespace DpfPir

open LittleEndian Words Network

/-! ## Programs of the four parties -/

inductive Party
  | p0 | p1 | p2 | client
deriving DecidableEq

/-- The kinds of fields: the method that writes or reads it and, for a group element,
the width that is passed to it. -/
inductive Kind
  | uint8 | int | size | block
  | ge (bw : Nat)
deriving DecidableEq

/-- The members `bytes_sent` and `bytes_recieved`. -/
@[ext] structure Counters where
  bytesSent : BitVec 64
  bytesRecieved : BitVec 64

/-- A program of one party. -/
abbrev Prog := StateT Counters (Proc Party Kind Byte)

/-- The memory that follows a receive buffer, at each value of `bytes_recieved`. -/
abbrev Stack := BitVec 64 → Nat → Byte

def Counters.sent (c : Counters) (n : Nat) : Counters :=
  { c with bytesSent := c.bytesSent + BitVec.ofNat 64 n }

def Counters.recieved (c : Counters) (n : Nat) : Counters :=
  { c with bytesRecieved := c.bytesRecieved + BitVec.ofNat 64 n }

/-- `send(socket, buf, size, 0); bytes_sent += size`. -/
def sendBytes (kind : Kind) (buf : List Byte) (party : Party) : Prog Unit := fun c =>
  .send party kind buf (.ret ((), c.sent buf.length))

/-- `recv(socket, buf, size, MSG_WAITALL); bytes_recieved += size`. -/
def recvBytes (kind : Kind) (size : Nat) (party : Party) : Prog (List Byte) := fun c =>
  .recv party kind size fun buf => .ret (buf, c.recieved size)

/-- Behaviour that the language does not define. -/
def undefined {α : Type} : Prog α := fun _ => .abort

/-! ## Single fields -/

def sendWord {w : Nat} (kind : Kind) (v : BitVec w) (party : Party) : Prog Unit :=
  sendBytes kind (toBytes (w / 8) v.toNat) party

def recvWord (w : Nat) (kind : Kind) (party : Party) : Prog (BitVec w) := do
  let buf ← recvBytes kind (w / 8) party
  return BitVec.ofNat w (ofBytes buf)

def sendUint8 (i : Byte) (party : Party) : Prog Unit := sendWord .uint8 i party

def recvUint8 (party : Party) : Prog Byte := recvWord 8 .uint8 party

def sendInt (i : BitVec 32) (party : Party) : Prog Unit := sendWord .int i party

def recvInt (party : Party) : Prog (BitVec 32) := recvWord 32 .int party

def sendSize (i : BitVec 64) (party : Party) : Prog Unit := sendWord .size i party

def recvSize (party : Party) : Prog (BitVec 64) := recvWord 64 .size party

def sendBlock (b : Block) (party : Party) : Prog Unit := sendWord .block b party

def recvBlock (party : Party) : Prog Block := recvWord 128 .block party

/-- The number of bytes that `send_ge` and `recv_ge` use for a width. -/
def geBytes (bw : Nat) : Nat :=
  if bw > 32 then 8
  else if bw > 16 then 4
  else if bw > 8 then 2
  else 1

/-- `send_ge`. -/
def sendGe (ge : GroupElement) (bw : Nat) (party : Party) : Prog Unit :=
  sendBytes (.ge bw) (toBytes (geBytes bw) ge.value.toNat) party

/-- `recv_ge`: the load of 8 bytes runs past a buffer of 1, 2 or 4 bytes. -/
def recvGe (stack : Stack) (bl : Nat) (party : Party) : Prog GroupElement := do
  let c ← get
  let buf ← recvBytes (.ge bl) (geBytes bl) party
  return GroupElement.ofValue (loadWord buf (stack c.bytesRecieved) 0) bl

/-! ## Loops -/

/-- `for (i = 0; i < n; i++) body(i)`. -/
def sendEach : (n : Nat) → (Fin n → Prog Unit) → Prog Unit
  | 0, _ => return ()
  | n + 1, body => do
    sendEach n fun i => body i.castSucc
    body (Fin.last n)

/-- `for (i = 0; i < n; i++) xs[i] = body()`. -/
def recvEach {α : Type} (body : Prog α) : (n : Nat) → Prog (Fin n → α)
  | 0 => return Fin.elim0
  | n + 1 => do
    let xs ← recvEach body n
    let x ← body
    return @Fin.snoc n (fun _ => α) xs x

/-! ## Messages -/

/-- `ServerTrusted::send_dpf_key`. -/
def sendDpfKey (k : DpfKey) (_bw bl : Nat) (party : Party) : Prog Unit := do
  sendInt (BitVec.ofNat 32 k.height) party
  sendInt k.Bout party
  sendBlock k.s party
  sendUint8 k.t party
  sendEach k.height fun i => sendBlock (k.sigma i) party
  sendEach k.height fun i => sendUint8 (k.tau0 i) party
  sendEach k.height fun i => sendUint8 (k.tau1 i) party
  sendGe (k.gamma 0) bl party
  sendGe (k.gamma 1) bl party

/-- `Server::recv_dpf_key` after the scalar fields. -/
def recvDpfKeyArrays (stack : Stack) (bl height : Nat) (Bout : BitVec 32) (s : Block) (t : Byte)
    (party : Party) : Prog DpfKey := do
  let sigma ← recvEach (recvBlock party) height
  let tau0 ← recvEach (recvUint8 party) height
  let tau1 ← recvEach (recvUint8 party) height
  let gamma0 ← recvGe stack bl party
  let gamma1 ← recvGe stack bl party
  return { height, Bout, s, t, sigma, tau0, tau1, gamma := ![gamma0, gamma1] }

/-- `Server::recv_dpf_key`. An array of negative length cannot be allocated. -/
def recvDpfKey (stack : Stack) (bl : Nat) (party : Party) : Prog DpfKey := do
  let height ← recvInt party
  let Bout ← recvInt party
  let s ← recvBlock party
  let t ← recvUint8 party
  if height.msb then undefined else recvDpfKeyArrays stack bl height.toNat Bout s t party

/-- `Server::send_input_check_pack`. -/
def sendInputCheckPack (icp : InputCheckPack) (bw bl : Nat) (party : Party) : Prog Unit := do
  sendGe icp.index bw party
  sendGe icp.payload bl party
  sendSize (BitVec.ofNat 64 icp.size) party
  sendEach icp.size fun i => sendBlock (icp.zs 0 i) party
  sendEach icp.size fun i => sendBlock (icp.zs 1 i) party
  sendEach icp.size fun i => sendUint8 (icp.zt 0 i) party
  sendEach icp.size fun i => sendUint8 (icp.zt 1 i) party
  sendEach icp.size fun i => do
    sendBlock (icp.sigma i) party
    sendUint8 (icp.tau 0 i) party
    sendUint8 (icp.tau 1 i) party
  sendInt icp.T party
  sendGe (icp.W 0) bl party
  sendGe (icp.W 1) bl party
  sendGe (icp.gamma 0) bl party
  sendGe (icp.gamma 1) bl party

/-- One entry of `sigma`, `tau[0]` and `tau[1]`. -/
def recvCorrection (party : Party) : Prog (Block × Byte × Byte) := do
  let sigma ← recvBlock party
  let tau0 ← recvUint8 party
  let tau1 ← recvUint8 party
  return (sigma, tau0, tau1)

/-- `Client::recv_input_check_pack` after the scalar fields. -/
def recvInputCheckPackArrays (stack : Stack) (bw : Nat) (index payload : GroupElement) (size : Nat)
    (party : Party) : Prog InputCheckPack := do
  let zs0 ← recvEach (recvBlock party) size
  let zs1 ← recvEach (recvBlock party) size
  let zt0 ← recvEach (recvUint8 party) size
  let zt1 ← recvEach (recvUint8 party) size
  let words ← recvEach (recvCorrection party) size
  let T ← recvInt party
  let W0 ← recvGe stack bw party
  let W1 ← recvGe stack bw party
  let gamma0 ← recvGe stack bw party
  let gamma1 ← recvGe stack bw party
  return { index, payload, size, zs := ![zs0, zs1], zt := ![zt0, zt1],
           sigma := fun i => (words i).1,
           tau := ![fun i => (words i).2.1, fun i => (words i).2.2],
           T, W := ![W0, W1], gamma := ![gamma0, gamma1] }

/-- `Client::recv_input_check_pack`. -/
def recvInputCheckPack (stack : Stack) (bl bw : Nat) (party : Party) : Prog InputCheckPack := do
  let index ← recvGe stack bl party
  let payload ← recvGe stack bw party
  let size ← recvSize party
  recvInputCheckPackArrays stack bw index payload size.toNat party

/-- `ServerTrusted::send_input_check_pack_2`. -/
def sendInputCheckPack2 (icp : InputCheckPack2) (bw bl : Nat) (party : Party) : Prog Unit := do
  sendGe (icp.index 0) bw party
  sendGe (icp.index 1) bw party
  sendGe (icp.payload 0) bl party
  sendGe (icp.payload 1) bl party
  sendSize (BitVec.ofNat 64 icp.size) party
  sendEach icp.size fun i => do
    sendBlock (icp.zs0 0 i) party
    sendBlock (icp.zs0 1 i) party
    sendUint8 (icp.zt0 0 i) party
    sendUint8 (icp.zt0 1 i) party
  sendEach icp.size fun i => do
    sendBlock (icp.zs1 0 i) party
    sendBlock (icp.zs1 1 i) party
    sendUint8 (icp.zt1 0 i) party
    sendUint8 (icp.zt1 1 i) party
  sendEach icp.size fun i => do
    sendBlock (icp.sigma i) party
    sendUint8 (icp.tau 0 i) party
    sendUint8 (icp.tau 1 i) party
  sendInt (icp.T 0) party
  sendInt (icp.T 1) party
  sendGe (icp.W 0 0) bl party
  sendGe (icp.W 0 1) bl party
  sendGe (icp.W 1 0) bl party
  sendGe (icp.W 1 1) bl party
  sendGe (icp.gamma 0) bl party
  sendGe (icp.gamma 1) bl party

/-- One entry of the two sums of seeds and the two sums of bits of one party. -/
def recvSums (party : Party) : Prog (Block × Block × Byte × Byte) := do
  let zs0 ← recvBlock party
  let zs1 ← recvBlock party
  let zt0 ← recvUint8 party
  let zt1 ← recvUint8 party
  return (zs0, zs1, zt0, zt1)

/-- `Client::recv_input_check_pack_2` after the scalar fields. -/
def recvInputCheckPack2Arrays (stack : Stack) (bw : Nat) (index payload : Fin 2 → GroupElement)
    (size : Nat) (party : Party) : Prog InputCheckPack2 := do
  let sums0 ← recvEach (recvSums party) size
  let sums1 ← recvEach (recvSums party) size
  let words ← recvEach (recvCorrection party) size
  let T0 ← recvInt party
  let T1 ← recvInt party
  let W00 ← recvGe stack bw party
  let W01 ← recvGe stack bw party
  let W10 ← recvGe stack bw party
  let W11 ← recvGe stack bw party
  let gamma0 ← recvGe stack bw party
  let gamma1 ← recvGe stack bw party
  return { index, payload, size,
           zs0 := ![fun i => (sums0 i).1, fun i => (sums0 i).2.1],
           zs1 := ![fun i => (sums1 i).1, fun i => (sums1 i).2.1],
           zt0 := ![fun i => (sums0 i).2.2.1, fun i => (sums0 i).2.2.2],
           zt1 := ![fun i => (sums1 i).2.2.1, fun i => (sums1 i).2.2.2],
           sigma := fun i => (words i).1,
           tau := ![fun i => (words i).2.1, fun i => (words i).2.2],
           T := ![T0, T1], W := ![![W00, W01], ![W10, W11]], gamma := ![gamma0, gamma1] }

/-- `Client::recv_input_check_pack_2`. -/
def recvInputCheckPack2 (stack : Stack) (bl bw : Nat) (party : Party) : Prog InputCheckPack2 := do
  let index0 ← recvGe stack bl party
  let index1 ← recvGe stack bl party
  let payload0 ← recvGe stack bw party
  let payload1 ← recvGe stack bw party
  let size ← recvSize party
  recvInputCheckPack2Arrays stack bw ![index0, index1] ![payload0, payload1] size.toNat party

/-! ## Senders and receivers that correspond -/

section Conveys

variable {α α' γ γ' : Type}

/-- What `m` writes to `q` is what `m'` reads from `p`, field by field. `m` returns `a`,
`m'` returns `b`, and both count the bytes. -/
def Conveys (p q : Party) (m : Prog α) (m' : Prog γ) (a : α) (b : γ) : Prop :=
  ∃ fields, (∀ field ∈ fields, field.bytes ≠ []) ∧
    (∀ c, Emits q (m c) fields (a, c.sent (bytesOf fields).length)) ∧
    ∀ c, Absorbs p (m' c) fields (b, c.recieved (bytesOf fields).length)

variable {p q : Party} {m : Prog α} {m' : Prog γ} {a : α} {b : γ}

theorem Counters.sent_sent (c : Counters) (k n : Nat) : (c.sent k).sent n = c.sent (k + n) := by
  refine Counters.ext ?_ rfl
  show c.bytesSent + BitVec.ofNat 64 k + BitVec.ofNat 64 n = c.bytesSent + BitVec.ofNat 64 (k + n)
  rw [BitVec.ofNat_add, BitVec.add_assoc]

theorem Counters.recieved_recieved (c : Counters) (k n : Nat) :
    (c.recieved k).recieved n = c.recieved (k + n) := by
  refine Counters.ext rfl ?_
  show c.bytesRecieved + BitVec.ofNat 64 k + BitVec.ofNat 64 n =
    c.bytesRecieved + BitVec.ofNat 64 (k + n)
  rw [BitVec.ofNat_add, BitVec.add_assoc]

theorem Counters.sent_zero (c : Counters) : c.sent 0 = c :=
  Counters.ext (BitVec.add_zero _) rfl

theorem Counters.recieved_zero (c : Counters) : c.recieved 0 = c :=
  Counters.ext rfl (BitVec.add_zero _)

theorem Conveys.pure (a : α) (b : γ) :
    Conveys p q (Pure.pure a : Prog α) (Pure.pure b : Prog γ) a b := by
  refine ⟨[], fun field mem => absurd mem List.not_mem_nil, fun c => ?_, fun c => ?_⟩
  · rw [bytesOf_nil, List.length_nil, Counters.sent_zero]
    exact Emits.ret (a, c)
  · rw [bytesOf_nil, List.length_nil, Counters.recieved_zero]
    exact Absorbs.ret (b, c)

/-- The rule for sequences: both sides go on with what they returned. -/
theorem Conveys.bind {f : α → Prog α'} {g : γ → Prog γ'} {a' : α'} {b' : γ'}
    (first : Conveys p q m m' a b) (second : Conveys p q (f a) (g b) a' b') :
    Conveys p q (m >>= f) (m' >>= g) a' b' := by
  obtain ⟨fields, nonempty, emits, absorbs⟩ := first
  obtain ⟨fields', nonempty', emits', absorbs'⟩ := second
  refine ⟨fields ++ fields', ?_, fun c => ?_, fun c => ?_⟩
  · intro field mem
    cases List.mem_append.mp mem with
    | inl left => exact nonempty field left
    | inr right => exact nonempty' field right
  · rw [bytesOf_append, List.length_append, ← Counters.sent_sent]
    exact (emits c).bind (emits' _)
  · rw [bytesOf_append, List.length_append, ← Counters.recieved_recieved]
    exact (absorbs c).bind (absorbs' _)

/-- A receiver that goes on to return a value computed from what it has read. -/
theorem Conveys.return_right {g : γ → Prog γ'} {b' : γ'} (first : Conveys p q m m' a b)
    (goes : g b = Pure.pure b') : Conveys p q m (m' >>= g) a b' := by
  obtain ⟨fields, nonempty, emits, absorbs⟩ := first
  refine ⟨fields, nonempty, emits, fun c => ?_⟩
  have last : Absorbs p (g b (c.recieved (bytesOf fields).length)) []
      (b', c.recieved (bytesOf fields).length) := by
    rw [goes]
    exact Absorbs.ret _
  have whole := (absorbs c).bind (f := fun result => g result.1 result.2) last
  rw [List.append_nil] at whole
  exact whole

/-- Single buffers. -/
theorem conveys_bytes (kind : Kind) {buf : List Byte} (nonempty : buf ≠ []) :
    Conveys p q (sendBytes kind buf q) (recvBytes kind buf.length p) () buf := by
  refine ⟨[⟨kind, buf⟩], ?_, fun c => ?_, fun c => ?_⟩
  · intro field mem
    rw [List.mem_singleton.mp mem]
    exact nonempty
  · rw [bytesOf_cons, bytesOf_nil, List.append_nil]
    exact Emits.send (Emits.ret _)
  · rw [bytesOf_cons, bytesOf_nil, List.append_nil]
    exact Absorbs.recv rfl (Absorbs.ret _)

/-- The rule for loops: iteration by iteration. -/
theorem conveys_each {body : Prog γ} : ∀ {n : Nat} {send : Fin n → Prog Unit} {xs : Fin n → γ},
    (∀ i, Conveys p q (send i) body () (xs i)) → Conveys p q (sendEach n send) (recvEach body n) () xs
  | 0, _, xs, _ => by
    rw [show xs = Fin.elim0 from funext fun i => i.elim0]
    exact Conveys.pure () _
  | n + 1, send, xs, each => by
    have before := conveys_each (n := n) fun i => each i.castSucc
    refine before.bind ?_
    refine (each (Fin.last n)).return_right ?_
    exact congrArg Pure.pure (Fin.snoc_init_self xs)

/-! ## Single fields arrive -/

theorem conveys_word {w : Nat} (whole : 8 * (w / 8) = w) (pos : 0 < w / 8) (kind : Kind)
    (v : BitVec w) : Conveys p q (sendWord kind v q) (recvWord w kind p) () v := by
  have buffer : toBytes (w / 8) v.toNat ≠ [] := by
    intro none
    have length := length_toBytes (w / 8) v.toNat
    rw [none, List.length_nil] at length
    omega
  have sent : Conveys p q (sendWord kind v q) _ () _ := conveys_bytes kind buffer
  rw [length_toBytes] at sent
  refine sent.return_right (congrArg Pure.pure ?_)
  have bits : 256 ^ (w / 8) = 2 ^ w := by
    rw [show 256 = 2 ^ 8 from rfl, ← Nat.pow_mul, whole]
  rw [ofBytes_toBytes, bits, Nat.mod_eq_of_lt v.isLt, BitVec.ofNat_toNat, BitVec.setWidth_eq]

theorem conveys_uint8 (v : Byte) : Conveys p q (sendUint8 v q) (recvUint8 p) () v :=
  conveys_word rfl (by decide) .uint8 v

theorem conveys_int (v : BitVec 32) : Conveys p q (sendInt v q) (recvInt p) () v :=
  conveys_word rfl (by decide) .int v

theorem conveys_size (v : BitVec 64) : Conveys p q (sendSize v q) (recvSize p) () v :=
  conveys_word rfl (by decide) .size v

theorem conveys_block (v : Block) : Conveys p q (sendBlock v q) (recvBlock p) () v :=
  conveys_word rfl (by decide) .block v

theorem geBytes_bounds {bw : Nat} (hw : bw ≤ 64) :
    0 < geBytes bw ∧ geBytes bw ≤ 8 ∧ bw ≤ 8 * geBytes bw := by
  unfold geBytes
  split
  · omega
  · split
    · omega
    · split <;> omega

/-- The load of 8 bytes, reduced to the width, is the value that was stored,
whatever follows the buffer. -/
theorem ofValue_loadWord {bw : Nat} (hw : bw ≤ 64) (value : BitVec 64) (beyond : Nat → Byte) :
    GroupElement.ofValue (loadWord (toBytes (geBytes bw) value.toNat) beyond 0) bw =
      GroupElement.ofValue value bw := by
  obtain ⟨-, short, enough⟩ := geBytes_bounds hw
  have bits : 256 ^ geBytes bw = 2 ^ (8 * geBytes bw) := by
    rw [show 256 = 2 ^ 8 from rfl, ← Nat.pow_mul]
  have stored : 0 + geBytes bw ≤ (toBytes (geBytes bw) value.toNat).length := by
    rw [length_toBytes, Nat.zero_add]
  refine GroupElement.ext ?_ (BitVec.eq_of_toNat_eq ?_)
  · rw [GroupElement.bitsize_ofValue, GroupElement.bitsize_ofValue]
  -- the bytes past the buffer lie above the width
  rw [toNat_ofValue_loadWord stored short enough, List.drop_zero,
    List.take_of_length_le (length_toBytes _ _).le, ofBytes_toBytes, bits,
    Nat.mod_mod_of_dvd _ (Nat.pow_dvd_pow 2 enough), GroupElement.ofValue_toNat hw]

theorem conveys_ge (stack : Stack) {bw : Nat} (hw : bw ≤ 64) (ge : GroupElement) :
    Conveys p q (sendGe ge bw q) (recvGe stack bw p) () (GroupElement.ofValue ge.value bw) := by
  have buffer : toBytes (geBytes bw) ge.value.toNat ≠ [] := by
    intro none
    have length := length_toBytes (geBytes bw) ge.value.toNat
    rw [none, List.length_nil] at length
    exact absurd length (geBytes_bounds hw).1.ne
  have sent : Conveys p q (sendGe ge bw q) _ () _ := conveys_bytes (.ge bw) buffer
  rw [length_toBytes] at sent
  obtain ⟨fields, nonempty, emits, absorbs⟩ := sent
  refine ⟨fields, nonempty, emits, fun c => ?_⟩
  have whole := (absorbs c).bind (f := fun result =>
    .ret (GroupElement.ofValue (loadWord result.1 (stack c.bytesRecieved) 0) bw, result.2))
    (Absorbs.ret _)
  rw [List.append_nil, ofValue_loadWord hw] at whole
  exact whole

/-! ## Messages arrive -/

/-- A key as it arrives: its group elements take the width of the receiver. -/
def DpfKey.onWire (bl : Nat) (k : DpfKey) : DpfKey :=
  { k with gamma := fun e => GroupElement.ofValue (k.gamma e).value bl }

/-- A server's pack as it arrives. -/
def InputCheckPack.onWire (bw bl : Nat) (icp : InputCheckPack) : InputCheckPack :=
  { icp with
    index := GroupElement.ofValue icp.index.value bw
    payload := GroupElement.ofValue icp.payload.value bl
    W := fun e => GroupElement.ofValue (icp.W e).value bl
    gamma := fun e => GroupElement.ofValue (icp.gamma e).value bl }

/-- The dealer's pack as it arrives. -/
def InputCheckPack2.onWire (bw bl : Nat) (icp : InputCheckPack2) : InputCheckPack2 :=
  { icp with
    index := fun b => GroupElement.ofValue (icp.index b).value bw
    payload := fun b => GroupElement.ofValue (icp.payload b).value bl
    W := fun b e => GroupElement.ofValue (icp.W b e).value bl
    gamma := fun e => GroupElement.ofValue (icp.gamma e).value bl }

theorem vec_eta {α : Type} (f : Fin 2 → α) : ![f 0, f 1] = f := by
  funext e
  match e with
  | 0 => rfl
  | 1 => rfl

theorem conveys_dpfKey (stack : Stack) {bl : Nat} (hbl : bl ≤ 64) (bw : Nat) (k : DpfKey)
    (height : k.height < 2 ^ 31) :
    Conveys p q (sendDpfKey k bw bl q) (recvDpfKey stack bl p) () (k.onWire bl) := by
  have length : (BitVec.ofNat 32 k.height).toNat = k.height := by
    rw [BitVec.toNat_ofNat, Nat.mod_eq_of_lt (by omega)]
  have positive : (BitVec.ofNat 32 k.height).msb ≠ true := by
    rw [BitVec.msb_eq_decide, length, ne_eq, decide_eq_true_eq]
    omega
  unfold sendDpfKey recvDpfKey
  refine (conveys_int _).bind ?_
  refine (conveys_int _).bind ?_
  refine (conveys_block _).bind ?_
  refine (conveys_uint8 _).bind ?_
  rw [if_neg positive, length]
  unfold recvDpfKeyArrays
  refine (conveys_each fun i => conveys_block (k.sigma i)).bind ?_
  refine (conveys_each fun i => conveys_uint8 (k.tau0 i)).bind ?_
  refine (conveys_each fun i => conveys_uint8 (k.tau1 i)).bind ?_
  refine (conveys_ge stack hbl _).bind ?_
  refine (conveys_ge stack hbl _).return_right (congrArg Pure.pure ?_)
  exact congrArg (DpfKey.mk k.height k.Bout k.s k.t k.sigma k.tau0 k.tau1)
    (vec_eta fun e => GroupElement.ofValue (k.gamma e).value bl)

theorem conveys_correction (sigma : Block) (tau0 tau1 : Byte) :
    Conveys p q (do
      sendBlock sigma q
      sendUint8 tau0 q
      sendUint8 tau1 q) (recvCorrection p) () (sigma, tau0, tau1) := by
  refine (conveys_block _).bind ?_
  refine (conveys_uint8 _).bind ?_
  exact (conveys_uint8 _).return_right rfl

theorem conveys_sums (zs0 zs1 : Block) (zt0 zt1 : Byte) :
    Conveys p q (do
      sendBlock zs0 q
      sendBlock zs1 q
      sendUint8 zt0 q
      sendUint8 zt1 q) (recvSums p) () (zs0, zs1, zt0, zt1) := by
  refine (conveys_block _).bind ?_
  refine (conveys_block _).bind ?_
  refine (conveys_uint8 _).bind ?_
  exact (conveys_uint8 _).return_right rfl

theorem toNat_size {size : Nat} (hsize : size < 2 ^ 64) : (BitVec.ofNat 64 size).toNat = size := by
  rw [BitVec.toNat_ofNat, Nat.mod_eq_of_lt hsize]

theorem conveys_inputCheckPack (stack : Stack) {bw bl : Nat} (hbw : bw ≤ 64) (hbl : bl ≤ 64)
    (icp : InputCheckPack) (size : icp.size < 2 ^ 64) :
    Conveys p q (sendInputCheckPack icp bw bl q) (recvInputCheckPack stack bw bl p) ()
      (icp.onWire bw bl) := by
  unfold sendInputCheckPack recvInputCheckPack
  refine (conveys_ge stack hbw _).bind ?_
  refine (conveys_ge stack hbl _).bind ?_
  refine (conveys_size _).bind ?_
  rw [toNat_size size]
  unfold recvInputCheckPackArrays
  refine (conveys_each fun i => conveys_block (icp.zs 0 i)).bind ?_
  refine (conveys_each fun i => conveys_block (icp.zs 1 i)).bind ?_
  refine (conveys_each fun i => conveys_uint8 (icp.zt 0 i)).bind ?_
  refine (conveys_each fun i => conveys_uint8 (icp.zt 1 i)).bind ?_
  refine (conveys_each fun i =>
    conveys_correction (icp.sigma i) (icp.tau 0 i) (icp.tau 1 i)).bind ?_
  refine (conveys_int _).bind ?_
  refine (conveys_ge stack hbl _).bind ?_
  refine (conveys_ge stack hbl _).bind ?_
  refine (conveys_ge stack hbl _).bind ?_
  refine (conveys_ge stack hbl _).return_right (congrArg Pure.pure ?_)
  rw [vec_eta icp.zs, vec_eta icp.zt, vec_eta icp.tau,
    vec_eta fun e => GroupElement.ofValue (icp.W e).value bl,
    vec_eta fun e => GroupElement.ofValue (icp.gamma e).value bl]
  rfl

theorem conveys_inputCheckPack2 (stack : Stack) {bw bl : Nat} (hbw : bw ≤ 64) (hbl : bl ≤ 64)
    (icp : InputCheckPack2) (size : icp.size < 2 ^ 64) :
    Conveys p q (sendInputCheckPack2 icp bw bl q) (recvInputCheckPack2 stack bw bl p) ()
      (icp.onWire bw bl) := by
  unfold sendInputCheckPack2 recvInputCheckPack2
  refine (conveys_ge stack hbw _).bind ?_
  refine (conveys_ge stack hbw _).bind ?_
  refine (conveys_ge stack hbl _).bind ?_
  refine (conveys_ge stack hbl _).bind ?_
  refine (conveys_size _).bind ?_
  rw [toNat_size size]
  unfold recvInputCheckPack2Arrays
  refine (conveys_each fun i =>
    conveys_sums (icp.zs0 0 i) (icp.zs0 1 i) (icp.zt0 0 i) (icp.zt0 1 i)).bind ?_
  refine (conveys_each fun i =>
    conveys_sums (icp.zs1 0 i) (icp.zs1 1 i) (icp.zt1 0 i) (icp.zt1 1 i)).bind ?_
  refine (conveys_each fun i =>
    conveys_correction (icp.sigma i) (icp.tau 0 i) (icp.tau 1 i)).bind ?_
  refine (conveys_int _).bind ?_
  refine (conveys_int _).bind ?_
  refine (conveys_ge stack hbl _).bind ?_
  refine (conveys_ge stack hbl _).bind ?_
  refine (conveys_ge stack hbl _).bind ?_
  refine (conveys_ge stack hbl _).bind ?_
  refine (conveys_ge stack hbl _).bind ?_
  refine (conveys_ge stack hbl _).return_right (congrArg Pure.pure ?_)
  have W : ![![GroupElement.ofValue (icp.W 0 0).value bl, GroupElement.ofValue (icp.W 0 1).value bl],
      ![GroupElement.ofValue (icp.W 1 0).value bl, GroupElement.ofValue (icp.W 1 1).value bl]] =
      fun b e => GroupElement.ofValue (icp.W b e).value bl := by
    rw [vec_eta fun e => GroupElement.ofValue (icp.W 0 e).value bl,
      vec_eta fun e => GroupElement.ofValue (icp.W 1 e).value bl]
    exact vec_eta fun b e => GroupElement.ofValue (icp.W b e).value bl
  rw [W, vec_eta icp.zs0, vec_eta icp.zs1, vec_eta icp.zt0, vec_eta icp.zt1, vec_eta icp.tau,
    vec_eta icp.T, vec_eta fun b => GroupElement.ofValue (icp.index b).value bw,
    vec_eta fun b => GroupElement.ofValue (icp.payload b).value bl,
    vec_eta fun e => GroupElement.ofValue (icp.gamma e).value bl]
  rfl

end Conveys

/-! ## Round trips -/

/-- The bytes that `send` writes to `q` are, before any further bytes, exactly what
`recv` reads from `p`, and it returns `x`. Both count these bytes, and the memory
behind the receive buffers does not matter. -/
def RoundTrip {α : Type} (p q : Party) (send : Prog Unit) (recv : Stack → Prog α) (x : α) : Prop :=
  ∃ bytes, (∀ c, (send c).emit q = some (((), c.sent bytes.length), bytes)) ∧
    ∀ stack c rest, (recv stack c).absorb p (bytes ++ rest) =
      some ((x, c.recieved bytes.length), rest)

theorem Conveys.roundTrip {α : Type} {p q : Party} {send : Prog Unit} {recv : Stack → Prog α}
    {x : α} (conveys : ∀ stack, Conveys p q send (recv stack) () x) :
    RoundTrip p q send recv x := by
  have wire : ∀ stack, ∃ bytes, (∀ c, (send c).emit q = some (((), c.sent bytes.length), bytes)) ∧
      ∀ c rest, (recv stack c).absorb p (bytes ++ rest) =
        some ((x, c.recieved bytes.length), rest) := by
    intro stack
    obtain ⟨fields, -, emits, absorbs⟩ := conveys stack
    exact ⟨bytesOf fields, fun c => (emits c).emit_eq, fun c rest => (absorbs c).absorb_eq rest⟩
  obtain ⟨bytes, emits, -⟩ := wire fun _ _ => 0#8
  refine ⟨bytes, emits, fun stack c rest => ?_⟩
  -- the sender's bytes are the same for every receiver
  obtain ⟨bytes', emits', absorbs'⟩ := wire stack
  have same := (emits c).symm.trans (emits' c)
  rw [Option.some.injEq, Prod.mk.injEq] at same
  rw [same.2]
  exact absorbs' c rest

/-- A key whose fields have the widths of the wire. -/
structure DpfKey.OnWire (bl : Nat) (k : DpfKey) : Prop where
  height : k.height < 2 ^ 31
  gamma : ∀ e, (k.gamma e).bitsize = bl

/-- A server's pack whose fields have the widths of the wire. -/
structure InputCheckPack.OnWire (bw bl : Nat) (icp : InputCheckPack) : Prop where
  size : icp.size < 2 ^ 64
  index : icp.index.bitsize = bw
  payload : icp.payload.bitsize = bl
  W : ∀ e, (icp.W e).bitsize = bl
  gamma : ∀ e, (icp.gamma e).bitsize = bl

/-- A dealer's pack whose fields have the widths of the wire. -/
structure InputCheckPack2.OnWire (bw bl : Nat) (icp : InputCheckPack2) : Prop where
  size : icp.size < 2 ^ 64
  index : ∀ b, (icp.index b).bitsize = bw
  payload : ∀ b, (icp.payload b).bitsize = bl
  W : ∀ b e, (icp.W b e).bitsize = bl
  gamma : ∀ e, (icp.gamma e).bitsize = bl

theorem ofValue_of_bitsize {w : Nat} (hw : w ≤ 64) {g : GroupElement} (width : g.bitsize = w) :
    GroupElement.ofValue g.value w = g := by
  subst width
  exact GroupElement.ofValue_value hw

theorem DpfKey.OnWire.eq {bl : Nat} (hbl : bl ≤ 64) {k : DpfKey} (fits : k.OnWire bl) :
    k.onWire bl = k := by
  have gamma : (fun e => GroupElement.ofValue (k.gamma e).value bl) = k.gamma :=
    funext fun e => ofValue_of_bitsize hbl (fits.gamma e)
  rw [DpfKey.onWire, gamma]

theorem InputCheckPack.OnWire.eq {bw bl : Nat} (hbw : bw ≤ 64) (hbl : bl ≤ 64)
    {icp : InputCheckPack} (fits : icp.OnWire bw bl) : icp.onWire bw bl = icp := by
  have W : (fun e => GroupElement.ofValue (icp.W e).value bl) = icp.W :=
    funext fun e => ofValue_of_bitsize hbl (fits.W e)
  have gamma : (fun e => GroupElement.ofValue (icp.gamma e).value bl) = icp.gamma :=
    funext fun e => ofValue_of_bitsize hbl (fits.gamma e)
  rw [InputCheckPack.onWire, W, gamma, ofValue_of_bitsize hbw fits.index,
    ofValue_of_bitsize hbl fits.payload]

theorem InputCheckPack2.OnWire.eq {bw bl : Nat} (hbw : bw ≤ 64) (hbl : bl ≤ 64)
    {icp : InputCheckPack2} (fits : icp.OnWire bw bl) : icp.onWire bw bl = icp := by
  have index : (fun b => GroupElement.ofValue (icp.index b).value bw) = icp.index :=
    funext fun b => ofValue_of_bitsize hbw (fits.index b)
  have payload : (fun b => GroupElement.ofValue (icp.payload b).value bl) = icp.payload :=
    funext fun b => ofValue_of_bitsize hbl (fits.payload b)
  have W : (fun b e => GroupElement.ofValue (icp.W b e).value bl) = icp.W :=
    funext fun b => funext fun e => ofValue_of_bitsize hbl (fits.W b e)
  have gamma : (fun e => GroupElement.ofValue (icp.gamma e).value bl) = icp.gamma :=
    funext fun e => ofValue_of_bitsize hbl (fits.gamma e)
  rw [InputCheckPack2.onWire, index, payload, W, gamma]

/-- The three messages arrive as they were sent. -/
theorem wire_roundTrip {bw bl : Nat} (hbw : bw ≤ 64) (hbl : bl ≤ 64) (p q : Party) :
    (∀ k : DpfKey, k.OnWire bl →
      RoundTrip p q (sendDpfKey k bw bl q) (fun stack => recvDpfKey stack bl p) k) ∧
    (∀ icp : InputCheckPack, icp.OnWire bw bl →
      RoundTrip p q (sendInputCheckPack icp bw bl q)
        (fun stack => recvInputCheckPack stack bw bl p) icp) ∧
    ∀ icp : InputCheckPack2, icp.OnWire bw bl →
      RoundTrip p q (sendInputCheckPack2 icp bw bl q)
        (fun stack => recvInputCheckPack2 stack bw bl p) icp := by
  refine ⟨?_, ?_, ?_⟩
  · intro k fits
    refine Conveys.roundTrip fun stack => ?_
    have arrives := conveys_dpfKey (p := p) (q := q) stack hbl bw k fits.height
    rwa [fits.eq hbl] at arrives
  · intro icp fits
    refine Conveys.roundTrip fun stack => ?_
    have arrives := conveys_inputCheckPack (p := p) (q := q) stack hbw hbl icp fits.size
    rwa [fits.eq hbw hbl] at arrives
  · intro icp fits
    refine Conveys.roundTrip fun stack => ?_
    have arrives := conveys_inputCheckPack2 (p := p) (q := q) stack hbw hbl icp fits.size
    rwa [fits.eq hbw hbl] at arrives

/-- A key of height 1 with group elements of one byte. -/
def heightOneKey : DpfKey where
  height := 1
  Bout := 8#32
  s := 3#128
  t := 0#8
  sigma := fun _ => 5#128
  tau0 := fun _ => 1#8
  tau1 := fun _ => 0#8
  gamma := fun _ => GroupElement.ofValue 255#64 8

theorem wire_roundTrip_heightOne :
    RoundTrip .p2 .p0 (sendDpfKey heightOneKey 1 8 .p0) (fun stack => recvDpfKey stack 8 .p2)
      heightOneKey ∧
    RoundTrip .p0 .client (sendInputCheckPack (heightOnePack 1#32) 1 8 .client)
      (fun stack => recvInputCheckPack stack 1 8 .p0) (heightOnePack 1#32) ∧
    RoundTrip .p2 .client (sendInputCheckPack2 (heightOnePack2 ![0#32, 1#32]) 1 8 .client)
      (fun stack => recvInputCheckPack2 stack 1 8 .p2) (heightOnePack2 ![0#32, 1#32]) := by
  have gamma : ∀ e, ((heightOnePack2 ![0#32, 1#32]).gamma e).bitsize = 8 := by decide
  refine ⟨(wire_roundTrip (by decide) (by decide) .p2 .p0).1 _ ?_,
    (wire_roundTrip (by decide) (by decide) .p0 .client).2.1 _ ?_,
    (wire_roundTrip (by decide) (by decide) .p2 .client).2.2 _ ?_⟩
  · exact ⟨by decide, fun _ => rfl⟩
  · exact ⟨by decide, rfl, rfl, fun _ => rfl, gamma⟩
  · exact ⟨by decide, fun _ => rfl, fun _ => rfl, fun _ _ => rfl, gamma⟩

end DpfPir
