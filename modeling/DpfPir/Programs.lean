import DpfPir.Integrity
import DpfPir.Prng

/-!
# The programs from their first line on

The four `main` functions with the pseudorandom generator: the servers generate their
databases, the dealer draws its shares and the seeds of its keys.

Results:
1. `createDatabase_draws`, `dealerInput_draws`: the values that the loops and calls read
   from the keystream of the seed.
2. `serverStart_eq`, `dealerStart_eq`: what the parties start the session with.
3. `programs_retrieve`: every interleaving of the four programs ends with the generated
   entry that the client asks for, whatever the time of day is that the dealer takes as
   its seed.
-/

namespace DpfPir

open LittleEndian Words CorrectionTree Network Streams PRNG

/-! ## What the programs draw -/

/-- `PRNG prng;`, a global object: before its first use all its memory is zero. -/
def prng : PRNG := unkeyed ⟨fun _ => 0#128⟩

/-- `random_ge`. -/
def randomGe (bitlength : Nat) : StateT PRNG Option GroupElement := do
  let value ← fun p => p.get 8
  return GroupElement.mod bitlength (BitVec.ofNat 64 (ofBytes value))

/-- `prng.get<std::array<block, 2>>()`. -/
def randomKeys : StateT PRNG Option (Fin 2 → Block) := do
  let keys ← fun p => p.get 32
  return fun b => BitVec.ofNat 128 (ofBytes ((keys.drop (16 * b)).take 16))

section Start

variable (setup : Setup)

/-- The loops of `p0.cpp` and `p1.cpp` that create the database. The array that stays
`NULL` is never read; it is filled with zeros here. -/
def createDatabase : StateT PRNG Option ((Fin (2 ^ setup.inputSize) → GroupElement) ×
    (Fin setup.block → Fin (2 ^ setup.inputSize) → GroupElement)) :=
  let null := GroupElement.ofValue 0#64 setup.bitlength
  if setup.entrySize ≤ setup.bitlength then do
    let database ← each (randomGe setup.bitlength) (2 ^ setup.inputSize)
    return (database, fun _ _ => null)
  else do
    let databaseB ← each (each (randomGe setup.bitlength) (2 ^ setup.inputSize)) setup.block
    return (fun _ => null, databaseB)

/-- `p0.cpp` and `p1.cpp` up to the connection. `block` is an `int` there, so the buffer of
the generator has `sizeof(block) = 4` blocks. -/
def serverStart (machine : Machine) (stack : Stack) : Option (ServerSide setup) := do
  let p ← prng.setSeed (toBlock 0#64 0#64) 4
  let ((database, databaseB), _) ← createDatabase setup p
  return { machine, stack, database, databaseB }

/-- The shares that `p2.cpp` draws. -/
def dealerInput : StateT PRNG Option DpfInput := do
  let index0 ← randomGe setup.inputSize
  let index1 ← randomGe setup.inputSize
  let alpha0 ← randomGe setup.bitlength
  let alpha1 ← randomGe setup.bitlength
  return { index := ![index0, index1], alpha := ![alpha0, alpha1] }

/-- `p2.cpp` up to the messages. Key generation draws its two seeds before anything else. -/
def dealerStart (dealer : Machine) (time : BitVec 64) (kgtime : BitVec 32) : Option Offer := do
  let p ← prng.setSeed (toBlock 0#64 time) 16
  let (dpfip, p) ← dealerInput setup p
  let (keys, _) ← randomKeys p
  return Offer.dealt setup dealer aesCipher dpfip keys kgtime

end Start

/-! ## The values -/

/-- The group element in the eight bytes of a stream from `pos` on. -/
def geAt (stream : Nat → Byte) (bitlength pos : Nat) : GroupElement :=
  GroupElement.mod bitlength (BitVec.ofNat 64 (ofBytes (excerpt stream pos 8)))

def keysAt (stream : Nat → Byte) (pos : Nat) (b : Fin 2) : Block :=
  BitVec.ofNat 128 (ofBytes (excerpt stream (pos + 16 * b) 16))

/-- The two arrays of `createDatabase`: entry by entry and, for long entries, block by
block. -/
def databaseAt (setup : Setup) (stream : Nat → Byte) (pos : Nat) :
    (Fin (2 ^ setup.inputSize) → GroupElement) ×
      (Fin setup.block → Fin (2 ^ setup.inputSize) → GroupElement) :=
  if setup.entrySize ≤ setup.bitlength then
    (fun i => geAt stream setup.bitlength (pos + i * 8),
      fun _ _ => GroupElement.ofValue 0#64 setup.bitlength)
  else
    (fun _ => GroupElement.ofValue 0#64 setup.bitlength,
      fun j i => geAt stream setup.bitlength (pos + j * (2 ^ setup.inputSize * 8) + i * 8))

def inputAt (setup : Setup) (stream : Nat → Byte) (pos : Nat) : DpfInput where
  index := ![geAt stream setup.inputSize pos, geAt stream setup.inputSize (pos + 8)]
  alpha := ![geAt stream setup.bitlength (pos + 16), geAt stream setup.bitlength (pos + 24)]

section Draws

variable {aes : AES}

theorem get_draws (n : Nat) : Draws (ReadsAt aes) (fun p => p.get n) n fun pos =>
    excerpt (keystream aes) pos n := fun _ _ start => get_readsAt n start

theorem randomGe_draws (w : Nat) :
    Draws (ReadsAt aes) (randomGe w) 8 (geAt (keystream aes) w) :=
  (get_draws 8).map fun value => GroupElement.mod w (BitVec.ofNat 64 (ofBytes value))

theorem randomKeys_draws : Draws (ReadsAt aes) randomKeys 32 (keysAt (keystream aes)) := by
  refine ((get_draws 32).map _).congr fun pos => funext fun b => ?_
  have inside : 16 * b.val + 16 ≤ 32 := by omega
  rw [drop_excerpt _ _ (by omega), take_excerpt _ _ (by omega)]
  rfl

variable (setup : Setup)

theorem createDatabase_draws :
    ∃ n, Draws (ReadsAt aes) (createDatabase setup) n (databaseAt setup (keystream aes)) := by
  have row : Draws (ReadsAt aes) _ _ _ :=
    (randomGe_draws setup.bitlength).each (2 ^ setup.inputSize)
  unfold createDatabase databaseAt
  by_cases short : setup.entrySize ≤ setup.bitlength
  · simp only [if_pos short]
    exact ⟨_, row.map _⟩
  · simp only [if_neg short]
    exact ⟨_, (row.each setup.block).map _⟩

theorem dealerInput_draws :
    Draws (ReadsAt aes) (dealerInput setup) 32 (inputAt setup (keystream aes)) := by
  have draws : Draws (ReadsAt aes) _ _ _ :=
    (randomGe_draws setup.inputSize).bind fun index0 =>
    (randomGe_draws setup.inputSize).bind fun index1 =>
    (randomGe_draws setup.bitlength).bind fun alpha0 =>
    (randomGe_draws setup.bitlength).map fun alpha1 =>
      DpfInput.mk ![index0, index1] ![alpha0, alpha1]
  exact draws

end Draws

/-! ## What the parties start with -/

/-- The bytes that the servers' generators produce. -/
def serverStream : Nat → Byte := keystream (AES.setKey (toBlock 0#64 0#64))

/-- The bytes that the dealer's generator produces. -/
def dealerStream (time : BitVec 64) : Nat → Byte := keystream (AES.setKey (toBlock 0#64 time))

section Start

variable (setup : Setup)

/-- Both servers start with the same database. -/
theorem serverStart_eq (machine : Machine) (stack : Stack) :
    serverStart setup machine stack = some
      { machine := machine
        stack := stack
        database := (databaseAt setup serverStream 0).1
        databaseB := (databaseAt setup serverStream 0).2 } := by
  obtain ⟨p, seeded, start⟩ :=
    @setSeed_readsAt prng (toBlock 0#64 0#64) 4 (by decide) (by decide)
  obtain ⟨n, draws⟩ := createDatabase_draws setup
  obtain ⟨q, created, _⟩ := draws p 0 start
  rw [serverStart, seeded]
  show (createDatabase setup p).bind _ = _
  rw [created]
  rfl

/-- The dealer's shares are the first 32 bytes of its stream, the seeds the next 32. -/
theorem dealerStart_eq (dealer : Machine) (time : BitVec 64) (kgtime : BitVec 32) :
    dealerStart setup dealer time kgtime = some (Offer.dealt setup dealer aesCipher
      (inputAt setup (dealerStream time) 0) (keysAt (dealerStream time) 32) kgtime) := by
  obtain ⟨p, seeded, start⟩ :=
    @setSeed_readsAt prng (toBlock 0#64 time) 16 (by decide) (by decide)
  obtain ⟨q, shares, there⟩ := dealerInput_draws setup p 0 start
  obtain ⟨q', keys, _⟩ := randomKeys_draws q 32 there
  rw [dealerStart, seeded]
  show (dealerInput setup p).bind _ = _
  rw [shares]
  show (randomKeys q).bind _ = _
  rw [keys]
  rfl

end Start

/-! ## The four programs -/

/-- What the programs do not control: the thread schedules, the memory behind receive
buffers and the two times that `p2.cpp` takes. -/
structure Surroundings where
  server : Fin 2 → Machine
  dealer : Machine
  serverStack : Fin 2 → Stack
  clientStack : Stack
  time : BitVec 64
  kgtime : BitVec 32

section Programs

variable (setup : Setup)

/-- `main` of `p0.cpp`. -/
def p0Main (machine : Machine) (stack : Stack) : Prog (ServerLocals setup.block) := do
  let side ← defined (serverStart setup machine stack)
  p0 setup side aesCipher

/-- `main` of `p1.cpp`. -/
def p1Main (machine : Machine) (stack : Stack) : Prog (ServerLocals setup.block) := do
  let side ← defined (serverStart setup machine stack)
  p1 setup side aesCipher

/-- `main` of `p2.cpp`. -/
def p2Main (dealer : Machine) (time : BitVec 64) (kgtime : BitVec 32) : Prog Unit := do
  let offer ← defined (dealerStart setup dealer time kgtime)
  p2 setup offer

def Surroundings.programs (env : Surroundings) : Lineup setup.block :=
  lineup (p0Main setup (env.server 0) (env.serverStack 0) ⟨0#64, 0#64⟩)
    (p1Main setup (env.server 1) (env.serverStack 1) ⟨0#64, 0#64⟩)
    (p2Main setup env.dealer env.time env.kgtime ⟨0#64, 0#64⟩)
    (client setup env.clientStack ⟨0#64, 0#64⟩)

/-- The session that the programs start. -/
def Surroundings.session (env : Surroundings) : Session setup where
  aes := aesCipher
  server b :=
    { machine := env.server b
      stack := env.serverStack b
      database := (databaseAt setup serverStream 0).1
      databaseB := (databaseAt setup serverStream 0).2 }
  stack := env.clientStack
  offer := Offer.dealt setup env.dealer aesCipher (inputAt setup (dealerStream env.time) 0)
    (keysAt (dealerStream env.time) 32) env.kgtime

theorem Surroundings.programs_eq (env : Surroundings) :
    env.programs setup = (env.session setup).programs := by
  unfold Surroundings.programs p0Main p1Main p2Main
  rw [serverStart_eq, serverStart_eq, dealerStart_eq]
  rfl

theorem databaseAt_reduced (stream : Nat → Byte) (pos : Nat) :
    (∀ i, ((databaseAt setup stream pos).1 i).value.toNat < 2 ^ setup.bitlength) ∧
    ∀ j i, ((databaseAt setup stream pos).2 j i).value.toNat < 2 ^ setup.bitlength := by
  unfold databaseAt
  split
  · exact ⟨fun i => GroupElement.reduced _, fun j i => GroupElement.reduced _⟩
  · exact ⟨fun i => GroupElement.reduced _, fun j i => GroupElement.reduced _⟩

/-- The client's `dbout`: the entry with the number 1, out of the servers' keystream. -/
def Setup.Outputs : Replies setup.block → Prop
  | .entry o _ => setup.entrySize ≤ setup.bitlength ∧
    (o 0 + o 1).value = (geAt serverStream setup.bitlength (8 * setup.query)).value
  | .entries o _ => ¬ setup.entrySize ≤ setup.bitlength ∧ ∀ j,
    (o 0 j + o 1 j).value =
      (geAt serverStream setup.bitlength (8 * (j * 2 ^ setup.inputSize + setup.query))).value

theorem outputs_of_retrieved {env : Surroundings} {replies : Replies setup.block}
    (served : (env.session setup).Served replies)
    (retrieved : (env.session setup).Retrieved setup.query replies) :
    setup.Outputs replies := by
  cases replies with
  | entry o hato =>
    have place : 0 + setup.query.val * 8 = 8 * setup.query.val := by omega
    have entry : ((databaseAt setup serverStream 0).1 setup.query) =
        geAt serverStream setup.bitlength (0 + setup.query.val * 8) := by
      rw [databaseAt, if_pos served.1]
    rw [place] at entry
    exact ⟨served.1, retrieved.trans (congrArg GroupElement.value entry)⟩
  | entries o hato =>
    refine ⟨served.1, fun j => ?_⟩
    have place : 0 + j.val * (2 ^ setup.inputSize * 8) + setup.query.val * 8 =
        8 * (j.val * 2 ^ setup.inputSize + setup.query.val) := by ring
    have entry : ((databaseAt setup serverStream 0).2 j setup.query) =
        geAt serverStream setup.bitlength
          (0 + j.val * (2 ^ setup.inputSize * 8) + setup.query.val * 8) := by
      rw [databaseAt, if_neg served.1]
    rw [place] at entry
    exact (retrieved j).trans (congrArg GroupElement.value entry)

/-- The programs retrieve the entry that the client asks for: in every interleaving, for all
schedules and seeds of the dealer, the client accepts, its last test passes and it outputs
the entry that both servers have generated. -/
theorem programs_retrieve (supported : setup.Supported) (env : Surroundings) :
    ∃ (rotatedIndex : GroupElement) (replies : Replies setup.block)
      (result : (p : Party) → Result setup.block p),
      setup.Outputs replies ∧ (result .client).1.output = true ∧
      (result .client).1.answer = some (rotatedIndex, replies, true) ∧
      ∀ s, Reaches (State.start (env.programs setup)) s →
        (∃ s', Reaches s s' ∧ ∀ p, s'.procs p = .ret (result p)) ∧
        (Stuck s → (∀ p, s.procs p = .ret (result p)) ∧ ∀ c, s.channel c = []) := by
  have hn : setup.inputSize ≤ 30 := supported.inputSize
  have hw : setup.bitlength ≤ 64 := by have := supported.bitlength; omega
  have reduced := databaseAt_reduced setup serverStream 0
  have accepted : (env.session setup).output = true :=
    dealt_accepted env.dealer (keysAt (dealerStream env.time) 32) env.kgtime hn hw
      (Fin.forall_fin_two.mpr ⟨rfl, rfl⟩) (Fin.forall_fin_two.mpr ⟨rfl, rfl⟩) rfl
  have shaped : (env.session setup).offer.Shaped setup :=
    dealt_shaped env.dealer aesCipher (keysAt (dealerStream env.time) 32) env.kgtime hn hw
  have same : (env.session setup).SameDatabase :=
    ⟨fun _ _ i => ⟨rfl, reduced.1 i⟩, fun _ _ j i => ⟨rfl, reduced.2 j i⟩⟩
  obtain ⟨replies, served, retrieved, final, ⟨result, agreed, rfl⟩, shakes⟩ :=
    retrieved_settles supported shaped same accepted
  refine ⟨(env.session setup).rotatedIndex, replies, result,
    outputs_of_retrieved setup served retrieved, ?_, ?_, fun s run => ?_⟩
  · rw [agreed.client]
    exact accepted
  · rw [agreed.client]
    rfl
  · rw [env.programs_eq] at run
    exact (shakes.meets.synchronised run).2

end Programs

/-- The constants of the four programs. -/
def protocolSetup : Setup where
  inputSize := 18
  bitlength := 40
  entrySize := 8192

/-- Three threads, and a dealer that runs at time 5. -/
def toySurroundings : Surroundings where
  server := toyServers
  dealer := toyDealer
  serverStack := fun _ _ _ => 7#8
  clientStack := fun _ _ => 9#8
  time := 5#64
  kgtime := 3#32

/-- The client outputs 205 blocks of entry 1. -/
theorem programs_retrieve_protocol :
    ∃ (rotatedIndex : GroupElement) (replies : Replies protocolSetup.block)
      (result : (p : Party) → Result protocolSetup.block p),
      protocolSetup.Outputs replies ∧ (result .client).1.output = true ∧
      (result .client).1.answer = some (rotatedIndex, replies, true) ∧
      ∀ s, Reaches (State.start (toySurroundings.programs protocolSetup)) s →
        Stuck s → ∀ p, s.procs p = .ret (result p) := by
  obtain ⟨rotatedIndex, replies, result, outputs, accepted, answer, runs⟩ :=
    programs_retrieve protocolSetup ⟨by decide, by decide, by decide⟩ toySurroundings
  exact ⟨rotatedIndex, replies, result, outputs, accepted, answer,
    fun s run stuck => ((runs s run).2 stuck).1⟩

end DpfPir
