import DpfPir.Session
import DpfPir.Traffic

/-!
# Communication

The members `bytes_sent` and `bytes_recieved` of the parties, from which the programs print
what they have communicated.

Results:
1. `Counts.bind`, `counts_sendEach`, `counts_recvEach`: the rules for programs that count
   what they write and read.
2. `counts_recvDpfKey`, `counts_recvInputCheckPack`, `counts_recvInputCheckPack2`: the
   lengths of the messages, by the sizes that arrive with them.
3. `counters_account`: in every run, whatever is sent, the counters of a party that has
   returned are the numbers of bytes on its channels, and these are given by what the party
   holds.
-/

namespace DpfPir

open LittleEndian Network

instance : Fintype Party where
  elems := {.p0, .p1, .p2, .client}
  complete p := by cases p <;> decide

/-! ## Programs that count -/

/-- The results of `m` are `good` for the numbers of bytes that it writes and reads, and it
adds these to the counters. -/
def Counts {α : Type} (m : Prog α) (good : α → Nat → Nat → Prop) : Prop :=
  ∀ c sent received, (m c).Ends (fun r sent' received' => ∃ i j, good r.1 i j ∧
    r.2 = (c.sent i).recieved j ∧ sent' = sent + i ∧ received' = received + j) sent received

section Rules

variable {α γ : Type} {good : α → Nat → Nat → Prop} {good' : γ → Nat → Nat → Prop}

theorem Counts.pure {a : α} (holds : good a 0 0) : Counts (Pure.pure a) good := by
  intro c sent received
  refine ⟨0, 0, holds, ?_, rfl, rfl⟩
  rw [Counters.sent_zero, Counters.recieved_zero]

theorem Counts.bind {m : Prog α} {f : α → Prog γ} (first : Counts m good)
    (second : ∀ a i j, good a i j → Counts (f a) fun b i' j' => good' b (i + i') (j + j')) :
    Counts (m >>= f) good' := by
  intro c sent received
  refine Proc.Ends.bind (first c sent received) ?_
  rintro ⟨a, c'⟩ sent' received' ⟨i, j, holds, rfl, rfl, rfl⟩
  refine Proc.Ends.imp (second a i j holds _ _ _) ?_
  rintro ⟨b, c'⟩ sent' received' ⟨i', j', holds', rfl, rfl, rfl⟩
  refine ⟨i + i', j + j', holds', ?_, Nat.add_assoc _ _ _, Nat.add_assoc _ _ _⟩
  rw [← Counters.sent_sent, ← Counters.recieved_recieved]
  rfl

theorem counts_undefined : Counts (undefined : Prog α) good := fun _ _ _ => trivial

theorem counts_defined {a : Option α} (holds : ∀ x ∈ a, good x 0 0) : Counts (defined a) good := by
  cases a with
  | none => exact counts_undefined
  | some a => exact Counts.pure (holds a rfl)

theorem Counts.imp {good' : α → Nat → Nat → Prop} {m : Prog α} (counts : Counts m good)
    (weaker : ∀ a i j, good a i j → good' a i j) : Counts m good' := by
  intro c sent received
  refine (counts c sent received).imp ?_
  rintro r sent' received' ⟨i, j, holds, rest⟩
  exact ⟨i, j, weaker r.1 i j holds, rest⟩

end Rules

/-! ## Fields -/

/-- `m` writes `i` bytes and reads `j`, whatever it returns. -/
abbrev Moves {α : Type} (m : Prog α) (i j : Nat) : Prop :=
  Counts m fun _ i' j' => i' = i ∧ j' = j

theorem moves_sendBytes (kind : Kind) (buf : List Byte) (party : Party) :
    Moves (sendBytes kind buf party) buf.length 0 := by
  intro c sent received
  refine ⟨buf.length, 0, ⟨rfl, rfl⟩, ?_, rfl, rfl⟩
  rw [Counters.recieved_zero]

theorem moves_recvBytes (kind : Kind) (size : Nat) (party : Party) :
    Moves (recvBytes kind size party) 0 size := by
  intro c sent received buf _
  refine ⟨0, size, ⟨rfl, rfl⟩, ?_, rfl, rfl⟩
  rw [Counters.sent_zero]

theorem Moves.bind {α γ : Type} {m : Prog α} {f : α → Prog γ} {i j i' j' : Nat}
    (first : Moves m i j) (second : ∀ a, Moves (f a) i' j') :
    Moves (m >>= f) (i + i') (j + j') := by
  refine Counts.bind first ?_
  rintro a _ _ ⟨rfl, rfl⟩
  refine (second a).imp ?_
  rintro b _ _ ⟨rfl, rfl⟩
  exact ⟨rfl, rfl⟩

/-- The rule for a first step of known length. -/
theorem Moves.andThen {α γ : Type} {m : Prog α} {f : α → Prog γ} {good : γ → Nat → Nat → Prop}
    {i j : Nat} (first : Moves m i j)
    (second : ∀ a, Counts (f a) fun b i' j' => good b (i + i') (j + j')) :
    Counts (m >>= f) good := by
  refine Counts.bind first ?_
  rintro a _ _ ⟨rfl, rfl⟩
  exact second a

theorem Moves.congr {α : Type} {m : Prog α} {i j i' j' : Nat} (moves : Moves m i j)
    (sent : i = i') (received : j = j') : Moves m i' j' := by
  subst sent received
  exact moves

theorem moves_sendWord {w : Nat} (kind : Kind) (v : BitVec w) (party : Party) :
    Moves (sendWord kind v party) (w / 8) 0 := by
  have moves := moves_sendBytes kind (toBytes (w / 8) v.toNat) party
  rwa [length_toBytes] at moves

theorem moves_recvWord (w : Nat) (kind : Kind) (party : Party) :
    Moves (recvWord w kind party) 0 (w / 8) :=
  (moves_recvBytes kind (w / 8) party).bind fun _ => Counts.pure ⟨rfl, rfl⟩

theorem moves_sendGe (ge : GroupElement) (bw : Nat) (party : Party) :
    Moves (sendGe ge bw party) (geBytes bw) 0 := by
  have moves := moves_sendBytes (.ge bw) (toBytes (geBytes bw) ge.value.toNat) party
  rwa [length_toBytes] at moves

theorem moves_recvGe (stack : Stack) (bl : Nat) (party : Party) :
    Moves (recvGe stack bl party) 0 (geBytes bl) := by
  intro c sent received
  have moves := (moves_recvBytes (.ge bl) (geBytes bl) party).bind fun buf =>
    show Moves (Pure.pure (GroupElement.ofValue (loadWord buf (stack c.bytesRecieved) 0) bl)) 0 0
      from Counts.pure ⟨rfl, rfl⟩
  exact moves c sent received

theorem moves_sendEach {n i : Nat} {body : Fin n → Prog Unit} (moves : ∀ k, Moves (body k) i 0) :
    Moves (sendEach n body) (n * i) 0 := by
  induction n with
  | zero =>
    rw [Nat.zero_mul]
    exact Counts.pure ⟨rfl, rfl⟩
  | succ n ih =>
    rw [Nat.succ_mul]
    exact (ih fun k => moves k.castSucc).bind fun _ => moves (Fin.last n)

theorem moves_recvEach {α : Type} {body : Prog α} {j : Nat} (moves : Moves body 0 j) (n : Nat) :
    Moves (recvEach body n) 0 (n * j) := by
  induction n with
  | zero =>
    rw [Nat.zero_mul]
    exact Counts.pure ⟨rfl, rfl⟩
  | succ n ih =>
    rw [Nat.succ_mul]
    exact ih.bind fun _ => moves.bind fun _ => Counts.pure ⟨rfl, rfl⟩

/-! ## Messages -/

/-- The length of a key. -/
def keyBytes (height bl : Nat) : Nat := 25 + 18 * height + 2 * geBytes bl

/-- The length of a server's pack. -/
def packBytes (size bw bl : Nat) : Nat := geBytes bw + 5 * geBytes bl + 12 + 52 * size

/-- The length of the dealer's pack. -/
def pack2Bytes (size bw bl : Nat) : Nat := 2 * geBytes bw + 8 * geBytes bl + 16 + 86 * size

section Messages

variable (stack : Stack) (bw bl : Nat) (party : Party)

theorem moves_sendDpfKey (k : DpfKey) :
    Moves (sendDpfKey k bw bl party) (keyBytes k.height bl) 0 := by
  have moves := (moves_sendWord .int (BitVec.ofNat 32 k.height) party).bind fun _ =>
    (moves_sendWord .int k.Bout party).bind fun _ =>
    (moves_sendWord .block k.s party).bind fun _ =>
    (moves_sendWord .uint8 k.t party).bind fun _ =>
    (moves_sendEach fun i => moves_sendWord .block (k.sigma i) party).bind fun _ =>
    (moves_sendEach fun i => moves_sendWord .uint8 (k.tau0 i) party).bind fun _ =>
    (moves_sendEach fun i => moves_sendWord .uint8 (k.tau1 i) party).bind fun _ =>
    (moves_sendGe (k.gamma 0) bl party).bind fun _ => moves_sendGe (k.gamma 1) bl party
  refine moves.congr ?_ rfl
  unfold keyBytes
  omega

theorem counts_recvDpfKey :
    Counts (recvDpfKey stack bl party) fun k i j => i = 0 ∧ j = keyBytes k.height bl := by
  unfold recvDpfKey
  refine (moves_recvWord 32 .int party).andThen fun height => ?_
  refine (moves_recvWord 32 .int party).andThen fun Bout => ?_
  refine (moves_recvWord 128 .block party).andThen fun s => ?_
  refine (moves_recvWord 8 .uint8 party).andThen fun t => ?_
  split
  · exact counts_undefined
  · refine (moves_recvEach (moves_recvWord 128 .block party) _).andThen fun sigma => ?_
    refine (moves_recvEach (moves_recvWord 8 .uint8 party) _).andThen fun tau0 => ?_
    refine (moves_recvEach (moves_recvWord 8 .uint8 party) _).andThen fun tau1 => ?_
    refine (moves_recvGe stack bl party).andThen fun gamma0 => ?_
    refine (moves_recvGe stack bl party).andThen fun gamma1 => ?_
    refine Counts.pure ⟨rfl, ?_⟩
    simp only [keyBytes]
    omega

/-- One entry of `sigma`, `tau[0]` and `tau[1]`. -/
theorem moves_sendCorrection (sigma : Block) (tau0 tau1 : Byte) :
    Moves (do
      sendBlock sigma party
      sendUint8 tau0 party
      sendUint8 tau1 party) 18 0 :=
  (moves_sendWord .block sigma party).bind fun _ =>
    (moves_sendWord .uint8 tau0 party).bind fun _ => moves_sendWord .uint8 tau1 party

theorem moves_recvCorrection : Moves (recvCorrection party) 0 18 :=
  (moves_recvWord 128 .block party).bind fun _ => (moves_recvWord 8 .uint8 party).bind fun _ =>
    (moves_recvWord 8 .uint8 party).bind fun _ => Counts.pure ⟨rfl, rfl⟩

/-- One entry of the sums of one party. -/
theorem moves_sendSums (zs0 zs1 : Block) (zt0 zt1 : Byte) :
    Moves (do
      sendBlock zs0 party
      sendBlock zs1 party
      sendUint8 zt0 party
      sendUint8 zt1 party) 34 0 :=
  (moves_sendWord .block zs0 party).bind fun _ => (moves_sendWord .block zs1 party).bind fun _ =>
    (moves_sendWord .uint8 zt0 party).bind fun _ => moves_sendWord .uint8 zt1 party

theorem moves_recvSums : Moves (recvSums party) 0 34 :=
  (moves_recvWord 128 .block party).bind fun _ => (moves_recvWord 128 .block party).bind fun _ =>
    (moves_recvWord 8 .uint8 party).bind fun _ => (moves_recvWord 8 .uint8 party).bind fun _ =>
    Counts.pure ⟨rfl, rfl⟩

theorem moves_sendInputCheckPack (icp : InputCheckPack) :
    Moves (sendInputCheckPack icp bw bl party) (packBytes icp.size bw bl) 0 := by
  have moves := (moves_sendGe icp.index bw party).bind fun _ =>
    (moves_sendGe icp.payload bl party).bind fun _ =>
    (moves_sendWord .size (BitVec.ofNat 64 icp.size) party).bind fun _ =>
    (moves_sendEach fun i => moves_sendWord .block (icp.zs 0 i) party).bind fun _ =>
    (moves_sendEach fun i => moves_sendWord .block (icp.zs 1 i) party).bind fun _ =>
    (moves_sendEach fun i => moves_sendWord .uint8 (icp.zt 0 i) party).bind fun _ =>
    (moves_sendEach fun i => moves_sendWord .uint8 (icp.zt 1 i) party).bind fun _ =>
    (moves_sendEach fun i =>
      moves_sendCorrection party (icp.sigma i) (icp.tau 0 i) (icp.tau 1 i)).bind fun _ =>
    (moves_sendWord .int icp.T party).bind fun _ =>
    (moves_sendGe (icp.W 0) bl party).bind fun _ =>
    (moves_sendGe (icp.W 1) bl party).bind fun _ =>
    (moves_sendGe (icp.gamma 0) bl party).bind fun _ => moves_sendGe (icp.gamma 1) bl party
  refine moves.congr ?_ rfl
  unfold packBytes
  omega

theorem counts_recvInputCheckPack :
    Counts (recvInputCheckPack stack bw bl party) fun icp i j =>
      i = 0 ∧ j = packBytes icp.size bw bl := by
  unfold recvInputCheckPack
  refine (moves_recvGe stack bw party).andThen fun index => ?_
  refine (moves_recvGe stack bl party).andThen fun payload => ?_
  refine (moves_recvWord 64 .size party).andThen fun size => ?_
  refine (moves_recvEach (moves_recvWord 128 .block party) _).andThen fun zs0 => ?_
  refine (moves_recvEach (moves_recvWord 128 .block party) _).andThen fun zs1 => ?_
  refine (moves_recvEach (moves_recvWord 8 .uint8 party) _).andThen fun zt0 => ?_
  refine (moves_recvEach (moves_recvWord 8 .uint8 party) _).andThen fun zt1 => ?_
  refine (moves_recvEach (moves_recvCorrection party) _).andThen fun words => ?_
  refine (moves_recvWord 32 .int party).andThen fun T => ?_
  refine (moves_recvGe stack bl party).andThen fun W0 => ?_
  refine (moves_recvGe stack bl party).andThen fun W1 => ?_
  refine (moves_recvGe stack bl party).andThen fun gamma0 => ?_
  refine (moves_recvGe stack bl party).andThen fun gamma1 => ?_
  refine Counts.pure ⟨rfl, ?_⟩
  simp only [packBytes]
  omega

theorem moves_sendInputCheckPack2 (icp : InputCheckPack2) :
    Moves (sendInputCheckPack2 icp bw bl party) (pack2Bytes icp.size bw bl) 0 := by
  have moves := (moves_sendGe (icp.index 0) bw party).bind fun _ =>
    (moves_sendGe (icp.index 1) bw party).bind fun _ =>
    (moves_sendGe (icp.payload 0) bl party).bind fun _ =>
    (moves_sendGe (icp.payload 1) bl party).bind fun _ =>
    (moves_sendWord .size (BitVec.ofNat 64 icp.size) party).bind fun _ =>
    (moves_sendEach fun i => moves_sendSums party (icp.zs0 0 i) (icp.zs0 1 i) (icp.zt0 0 i)
      (icp.zt0 1 i)).bind fun _ =>
    (moves_sendEach fun i => moves_sendSums party (icp.zs1 0 i) (icp.zs1 1 i) (icp.zt1 0 i)
      (icp.zt1 1 i)).bind fun _ =>
    (moves_sendEach fun i =>
      moves_sendCorrection party (icp.sigma i) (icp.tau 0 i) (icp.tau 1 i)).bind fun _ =>
    (moves_sendWord .int (icp.T 0) party).bind fun _ =>
    (moves_sendWord .int (icp.T 1) party).bind fun _ =>
    (moves_sendGe (icp.W 0 0) bl party).bind fun _ =>
    (moves_sendGe (icp.W 0 1) bl party).bind fun _ =>
    (moves_sendGe (icp.W 1 0) bl party).bind fun _ =>
    (moves_sendGe (icp.W 1 1) bl party).bind fun _ =>
    (moves_sendGe (icp.gamma 0) bl party).bind fun _ => moves_sendGe (icp.gamma 1) bl party
  refine moves.congr ?_ rfl
  unfold pack2Bytes
  omega

theorem counts_recvInputCheckPack2 :
    Counts (recvInputCheckPack2 stack bw bl party) fun icp i j =>
      i = 0 ∧ j = pack2Bytes icp.size bw bl := by
  unfold recvInputCheckPack2
  refine (moves_recvGe stack bw party).andThen fun index0 => ?_
  refine (moves_recvGe stack bw party).andThen fun index1 => ?_
  refine (moves_recvGe stack bl party).andThen fun payload0 => ?_
  refine (moves_recvGe stack bl party).andThen fun payload1 => ?_
  refine (moves_recvWord 64 .size party).andThen fun size => ?_
  refine (moves_recvEach (moves_recvSums party) _).andThen fun sums0 => ?_
  refine (moves_recvEach (moves_recvSums party) _).andThen fun sums1 => ?_
  refine (moves_recvEach (moves_recvCorrection party) _).andThen fun words => ?_
  refine (moves_recvWord 32 .int party).andThen fun T0 => ?_
  refine (moves_recvWord 32 .int party).andThen fun T1 => ?_
  refine (moves_recvGe stack bl party).andThen fun W00 => ?_
  refine (moves_recvGe stack bl party).andThen fun W01 => ?_
  refine (moves_recvGe stack bl party).andThen fun W10 => ?_
  refine (moves_recvGe stack bl party).andThen fun W11 => ?_
  refine (moves_recvGe stack bl party).andThen fun gamma0 => ?_
  refine (moves_recvGe stack bl party).andThen fun gamma1 => ?_
  refine Counts.pure ⟨rfl, ?_⟩
  simp only [pack2Bytes]
  omega

end Messages

/-! ## The programs -/

section Lengths

variable (setup : Setup)

/-- The length of a server's answer. -/
def answerBytes : Option (GroupElement × Reply setup.block) → Nat
  | none => 0
  | some (_, .entry _ _) => 2 * geBytes setup.bitlength
  | some (_, .entries _ _) => 2 * (setup.block * geBytes setup.bitlength)

/-- The length of the answers of both servers. -/
def answersBytes : Option (GroupElement × Replies setup.block × Bool) → Nat
  | none => 0
  | some (_, .entry _ _, _) => 4 * geBytes setup.bitlength
  | some (_, .entries _ _, _) => 4 * (setup.block * geBytes setup.bitlength)

/-- The bytes that a server has sent, by its local variables. -/
def ServerLocals.sentBytes (locals : ServerLocals setup.block) : Nat :=
  1 + packBytes locals.key.height setup.inputSize setup.bitlength + answerBytes setup locals.answer

/-- The bytes that a server has received. The height of its key is the width in which it
reads the query. -/
def ServerLocals.recievedBytes (locals : ServerLocals setup.block) : Nat :=
  geBytes setup.inputSize + geBytes setup.bitlength +
    keyBytes locals.key.height setup.bitlength + (if locals.kgtime.isSome then 4 else 0) + 1 +
    (if locals.answer.isSome then geBytes locals.key.height else 0)

/-- The bytes that the dealer has sent. -/
def Offer.sentBytes (offer : Offer) : Nat :=
  2 * (geBytes setup.inputSize + geBytes setup.bitlength) +
    keyBytes (offer.key 0).height setup.bitlength +
    keyBytes (offer.key 1).height setup.bitlength + 4 +
    pack2Bytes offer.ip2.size setup.inputSize setup.bitlength

def ClientLocals.sentBytes (locals : ClientLocals setup.block) : Nat :=
  2 + (if locals.answer.isSome then 2 * geBytes locals.ip2.size else 0)

def ClientLocals.recievedBytes (locals : ClientLocals setup.block) : Nat :=
  2 + packBytes (locals.icp 0).size setup.inputSize setup.bitlength +
    packBytes (locals.icp 1).size setup.inputSize setup.bitlength +
    pack2Bytes locals.ip2.size setup.inputSize setup.bitlength + answersBytes setup locals.answer

end Lengths

section Programs

variable (setup : Setup) (side : ServerSide setup) (aes : Cipher)

theorem counts_serveReply (locals : ServerLocals setup.block) (rotatedIndex : GroupElement) :
    Counts (serveReply setup side locals rotatedIndex) fun r i j => ∃ answer,
      r = { locals with answer := some answer } ∧
      i = answerBytes setup (some answer) ∧ j = 0 := by
  unfold serveReply
  split
  · refine Counts.bind (counts_defined fun _ _ => ⟨rfl, rfl⟩ : Moves _ 0 0) ?_
    rintro ⟨o, hato⟩ _ _ ⟨rfl, rfl⟩
    refine (moves_sendGe o setup.bitlength .client).andThen fun _ => ?_
    refine (moves_sendGe hato setup.bitlength .client).andThen fun _ => ?_
    refine Counts.pure ⟨(rotatedIndex, .entry o hato), rfl, ?_, rfl⟩
    simp only [answerBytes]
    omega
  · refine Counts.bind (counts_defined fun _ _ => ⟨rfl, rfl⟩ : Moves _ 0 0) ?_
    rintro ⟨o, hato⟩ _ _ ⟨rfl, rfl⟩
    refine (moves_sendEach fun i => moves_sendGe (o i) setup.bitlength .client).andThen fun _ => ?_
    refine (moves_sendEach fun i =>
      moves_sendGe (hato i) setup.bitlength .client).andThen fun _ => ?_
    refine Counts.pure ⟨(rotatedIndex, .entries o hato), rfl, ?_, rfl⟩
    simp only [answerBytes]
    omega

theorem counts_serveVerdict (index payload : GroupElement) (key : DpfKey)
    (kgtime : Option (BitVec 32)) (eval : EvalAll key.height) :
    Counts (serveVerdict setup side index payload key kgtime eval) fun r i j =>
      ∃ accept answer, r = ⟨index, payload, key, kgtime, eval, accept, answer⟩ ∧
        i = answerBytes setup answer ∧
        j = 1 + if answer.isSome then geBytes eval.icp.size else 0 := by
  unfold serveVerdict
  refine (moves_recvWord 8 .uint8 .client).andThen fun accept => ?_
  dsimp only
  split
  · exact Counts.pure ⟨accept, none, rfl, rfl, rfl⟩
  · unfold serveQuery
    refine (moves_recvGe side.stack eval.icp.size .client).andThen fun rotatedIndex => ?_
    refine (counts_serveReply setup side _ rotatedIndex).imp ?_
    rintro r i j ⟨answer, rfl, rfl, rfl⟩
    exact ⟨accept, some answer, rfl, by omega, rfl⟩

/-- A server's program from its key on. -/
theorem counts_serve (party : Fin 2) (index payload : GroupElement) (key : DpfKey)
    (kgtime : Option (BitVec 32)) :
    Counts (serve setup side aes party index payload key kgtime) fun r i j =>
      r.key = key ∧ r.kgtime = kgtime ∧ i = r.sentBytes setup ∧
      j = 1 + if r.answer.isSome then geBytes key.height else 0 := by
  unfold serve
  have evaluated : ∀ eval ∈ evalInto setup side.machine aes party key index payload,
      eval.icp.size = key.height := by
    unfold evalInto
    intro eval mem
    split at mem
    · cases Option.mem_some_iff.mp mem
      rfl
    · cases mem
  refine Counts.bind (counts_defined fun eval mem => ⟨evaluated eval mem, rfl, rfl⟩ :
    Counts _ fun eval i j => eval.icp.size = key.height ∧ i = 0 ∧ j = 0) ?_
  rintro eval _ _ ⟨size, rfl, rfl⟩
  refine (moves_sendWord .uint8 4#8 .client).andThen fun _ => ?_
  refine (moves_sendInputCheckPack setup.inputSize setup.bitlength .client
    eval.icp).andThen fun _ => ?_
  refine (counts_serveVerdict setup side index payload key kgtime eval).imp ?_
  rintro r i j ⟨accept, answer, rfl, rfl, rfl⟩
  rw [size]
  refine ⟨rfl, rfl, ?_, ?_⟩
  · simp only [ServerLocals.sentBytes]
    omega
  · dsimp only
    omega

theorem counts_p0 : Counts (p0 setup side aes) fun r i j =>
    i = r.sentBytes setup ∧ j = r.recievedBytes setup := by
  unfold p0
  refine (moves_recvGe side.stack setup.inputSize .p2).andThen fun index => ?_
  refine (moves_recvGe side.stack setup.bitlength .p2).andThen fun payload => ?_
  refine Counts.bind (counts_recvDpfKey side.stack setup.bitlength .p2) ?_
  rintro key _ _ ⟨rfl, rfl⟩
  refine (moves_recvWord 32 .int .p2).andThen fun kgtime => ?_
  refine (counts_serve setup side aes 0 index payload key (some kgtime)).imp ?_
  rintro r i j ⟨rfl, time, rfl, rfl⟩
  refine ⟨by omega, ?_⟩
  simp only [ServerLocals.recievedBytes, time, Option.isSome_some, if_true]
  omega

theorem counts_p1 : Counts (p1 setup side aes) fun r i j =>
    i = r.sentBytes setup ∧ j = r.recievedBytes setup := by
  unfold p1
  refine (moves_recvGe side.stack setup.inputSize .p2).andThen fun index => ?_
  refine (moves_recvGe side.stack setup.bitlength .p2).andThen fun payload => ?_
  refine Counts.bind (counts_recvDpfKey side.stack setup.bitlength .p2) ?_
  rintro key _ _ ⟨rfl, rfl⟩
  refine (counts_serve setup side aes 1 index payload key none).imp ?_
  rintro r i j ⟨rfl, time, rfl, rfl⟩
  refine ⟨by omega, ?_⟩
  simp only [ServerLocals.recievedBytes, time, Option.isSome_none]
  simp only [Bool.false_eq_true, if_false]
  omega

theorem moves_p2 (offer : Offer) : Moves (p2 setup offer) (offer.sentBytes setup) 0 := by
  have moves := (moves_sendGe (offer.index 0) setup.inputSize .p0).bind fun _ =>
    (moves_sendGe (offer.alpha 0) setup.bitlength .p0).bind fun _ =>
    (moves_sendDpfKey setup.inputSize setup.bitlength .p0 (offer.key 0)).bind fun _ =>
    (moves_sendWord .int offer.kgtime .p0).bind fun _ =>
    (moves_sendGe (offer.index 1) setup.inputSize .p1).bind fun _ =>
    (moves_sendGe (offer.alpha 1) setup.bitlength .p1).bind fun _ =>
    (moves_sendDpfKey setup.inputSize setup.bitlength .p1 (offer.key 1)).bind fun _ =>
    (moves_sendInputCheckPack2 setup.inputSize setup.bitlength .client offer.ip2).bind fun _ =>
    show Moves (Pure.pure () : Prog Unit) 0 0 from Counts.pure ⟨rfl, rfl⟩
  refine moves.congr ?_ rfl
  unfold Offer.sentBytes
  omega

theorem counts_clientReplies (stack : Stack) (locals : ClientLocals setup.block)
    (rotatedIndex : GroupElement) :
    Counts (clientReplies setup stack locals rotatedIndex) fun r i j => ∃ answer,
      r = { locals with answer := some answer } ∧
      i = 0 ∧ j = answersBytes setup (some answer) := by
  unfold clientReplies
  dsimp only
  have ge := fun party => moves_recvGe stack setup.bitlength party
  split
  · refine (ge .p0).andThen fun o0 => ?_
    refine (ge .p0).andThen fun ohat0 => ?_
    refine (ge .p1).andThen fun o1 => ?_
    refine (ge .p1).andThen fun ohat1 => ?_
    refine Counts.bind (counts_defined fun _ _ => ⟨rfl, rfl⟩ : Moves _ 0 0) ?_
    rintro check _ _ ⟨rfl, rfl⟩
    refine Counts.pure ⟨(rotatedIndex, _, check), rfl, rfl, ?_⟩
    simp only [answersBytes]
    omega
  · refine (moves_recvEach (ge .p0) setup.block).andThen fun o0 => ?_
    refine (moves_recvEach (ge .p0) setup.block).andThen fun hato0 => ?_
    refine (moves_recvEach (ge .p1) setup.block).andThen fun o1 => ?_
    refine (moves_recvEach (ge .p1) setup.block).andThen fun hato1 => ?_
    refine Counts.bind (counts_defined fun _ _ => ⟨rfl, rfl⟩ : Moves _ 0 0) ?_
    rintro check _ _ ⟨rfl, rfl⟩
    refine Counts.pure ⟨(rotatedIndex, _, check), rfl, rfl, ?_⟩
    simp only [answersBytes]
    omega

theorem counts_client (stack : Stack) : Counts (client setup stack) fun r i j =>
    i = r.sentBytes setup ∧ j = r.recievedBytes setup := by
  unfold client
  refine (moves_recvWord 8 .uint8 .p0).andThen fun temp0 => ?_
  refine (moves_recvWord 8 .uint8 .p1).andThen fun temp1 => ?_
  refine Counts.bind (counts_recvInputCheckPack stack _ _ .p0) ?_
  rintro icp0 _ _ ⟨rfl, rfl⟩
  refine Counts.bind (counts_recvInputCheckPack stack _ _ .p1) ?_
  rintro icp1 _ _ ⟨rfl, rfl⟩
  refine Counts.bind (counts_recvInputCheckPack2 stack _ _ .p2) ?_
  rintro ip2 _ _ ⟨rfl, rfl⟩
  unfold clientVerdict
  dsimp only
  refine (moves_sendWord .uint8 _ .p0).andThen fun _ => ?_
  refine (moves_sendWord .uint8 _ .p1).andThen fun _ => ?_
  split
  · unfold clientQuery
    dsimp only
    refine (moves_sendGe _ ip2.size .p0).andThen fun _ => ?_
    refine (moves_sendGe _ ip2.size .p1).andThen fun _ => ?_
    refine (counts_clientReplies setup stack _ _).imp ?_
    rintro r i j ⟨answer, rfl, rfl, rfl⟩
    refine ⟨?_, ?_⟩
    · simp only [ClientLocals.sentBytes, Option.isSome_some, if_true]
      omega
    · simp only [ClientLocals.recievedBytes]
      show _ = 2 + packBytes icp0.size _ _ + packBytes icp1.size _ _ + _ + _
      omega
  · refine Counts.pure ⟨rfl, ?_⟩
    simp only [ClientLocals.recievedBytes, answersBytes]
    show _ = 2 + packBytes icp0.size _ _ + packBytes icp1.size _ _ + _ + _
    omega

end Programs

/-! ## Whole runs -/

/-- What the parties hold of their traffic when they return. -/
def Tallied (setup : Setup) (session : Session setup) :
    (p : Party) → Result setup.block p → Nat → Nat → Prop
  | .p0, r, sent, received => r.2 = ⟨BitVec.ofNat 64 sent, BitVec.ofNat 64 received⟩ ∧
    sent = r.1.sentBytes setup ∧ received = r.1.recievedBytes setup
  | .p1, r, sent, received => r.2 = ⟨BitVec.ofNat 64 sent, BitVec.ofNat 64 received⟩ ∧
    sent = r.1.sentBytes setup ∧ received = r.1.recievedBytes setup
  | .p2, r, sent, received => r.2 = ⟨BitVec.ofNat 64 sent, BitVec.ofNat 64 received⟩ ∧
    sent = session.offer.sentBytes setup ∧ received = 0
  | .client, r, sent, received => r.2 = ⟨BitVec.ofNat 64 sent, BitVec.ofNat 64 received⟩ ∧
    sent = r.1.sentBytes setup ∧ received = r.1.recievedBytes setup

/-- A program that starts with its counters at zero. -/
theorem Counts.ends {α : Type} {m : Prog α} {sent received : α → Nat}
    (counts : Counts m fun a i j => i = sent a ∧ j = received a) :
    (m ⟨0#64, 0#64⟩).Ends (fun r i j => r.2 = ⟨BitVec.ofNat 64 i, BitVec.ofNat 64 j⟩ ∧
      i = sent r.1 ∧ j = received r.1) 0 0 := by
  refine (counts ⟨0#64, 0#64⟩ 0 0).imp ?_
  rintro ⟨a, c⟩ _ _ ⟨i, j, ⟨rfl, rfl⟩, counted, rfl, rfl⟩
  rw [Nat.zero_add, Nat.zero_add, counted]
  refine ⟨Counters.ext ?_ ?_, rfl, rfl⟩
  · exact BitVec.zero_add _
  · exact BitVec.zero_add _

/-- The counters are right in every run, whatever the dealer and the servers send and
however a run ends. When a party has returned, they are the numbers of bytes that it has
written to and read from its channels, and these follow from what it holds. -/
theorem counters_account {setup : Setup} (session : Session setup)
    {s : State Party Kind Byte (Result setup.block)}
    (run : Reaches (State.start session.programs) s) {p : Party} {r : Result setup.block p}
    (returned : s.procs p = .ret r) :
    Tallied setup session p r (s.bytesSent p) (s.bytesReceived p) := by
  have guarantee : ∀ p, (session.programs p).Ends (Tallied setup session p) 0 0 := by
    intro p
    cases p with
    | p0 => exact (counts_p0 setup (session.server 0) session.aes).ends
    | p1 => exact (counts_p1 setup (session.server 1) session.aes).ends
    | p2 => exact Counts.ends (moves_p2 setup session.offer)
    | client => exact (counts_client setup session.stack).ends
  exact run.ends guarantee returned

/-- The client of the toy session ends with 4 bytes sent and 262 received. -/
theorem counters_account_toy :
    ∃ (s : State Party Kind Byte (Result toySetup.block)) (r : Result toySetup.block .client),
      Reaches (State.start toySession.programs) s ∧ s.procs .client = .ret r ∧
      r.2 = ⟨4#64, 262#64⟩ := by
  have accepted : toySession.output = true := by decide
  have shaped : toySession.offer.Shaped toySetup := ⟨fun _ => rfl, by decide, by decide⟩
  obtain ⟨answer, verdict, answers, final, ⟨result, agreed, rfl⟩, shakes⟩ :=
    @session_answered toySetup toySession ⟨by decide, by decide, by decide⟩ shaped
  obtain ⟨s, run, ended⟩ := shakes.meets.reaches
  have returned : s.procs .client = .ret (result .client) := congrFun ended .client
  obtain ⟨counted, sent, received⟩ := counters_account toySession run returned
  refine ⟨s, result .client, run, returned, counted.trans ?_⟩
  rw [accepted, Option.isSome_iff_exists] at verdict
  obtain ⟨⟨rotatedIndex, replies, check⟩, rfl⟩ := verdict
  have served := (answers _ rfl).served
  cases replies with
  | entry o hato => exact absurd served.1 (by decide)
  | entries o hato =>
    rw [sent, received, agreed.client]
    rfl

end DpfPir
