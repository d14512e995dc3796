import DpfPir.AesBlocks
import DpfPir.Streams

/-!
# The pseudorandom generator

The class `PRNG` (`PRNG.h`, `PRNG.cpp`): a buffer of AES blocks that is refilled in
counter mode when its last byte is used up.

Results:
1. `setSeed_run`: a generator with a buffer of 1 to `2 ^ 31 - 1` blocks that has just been
   seeded answers any requests with successive bytes of the keystream of its seed. Nothing
   of its past, of the size of its buffer or of how the requests fall on its refills shows.
   `ofSeed_run` says the same of a new generator.
2. `throws_iff`: `get` ends for every request, and throws exactly on a generator without a
   buffer; `SetSeed` throws exactly when it cannot make one. That memory for a buffer runs
   out (`std::bad_alloc`) is left out.
-/

namespace DpfPir

open LittleEndian MemoryPass Streams

/-- `mBuffer.max_size()`: `PTRDIFF_MAX / sizeof(block)`. -/
def maxSize : Nat := (2 ^ 63 - 1) / 16

/-- `class PRNG`, with what the constructors and every operation establish. The numbers of
bytes are 64-bit words; with `size` they do not wrap. -/
structure PRNG where
  mBuffer : List Block
  mAes : AES
  mBytesIdx : Nat
  mBlockIdx : BitVec 64
  mBufferByteCapacity : Nat
  size : mBuffer.length ≤ maxSize
  capacity : mBufferByteCapacity = 16 * mBuffer.length
  within : mBytesIdx ≤ mBufferByteCapacity

namespace PRNG

/-! ## The operations -/

/-- A generator that was default-constructed or moved from. It has a cipher without a key. -/
def unkeyed (mAes : AES) : PRNG where
  mBuffer := []
  mAes := mAes
  mBytesIdx := 0
  mBlockIdx := 0#64
  mBufferByteCapacity := 0
  size := Nat.zero_le _
  capacity := rfl
  within := le_rfl

/-- The buffer as a `u8 *` addresses it. -/
def bytes (p : PRNG) : List Byte := p.mBuffer.flatMap fun b => toBytes 16 b.toNat

/-- What `ecbEncCounterMode` leaves in the buffer. -/
def refilled (p : PRNG) : List Block :=
  (List.range p.mBuffer.length).map
    (p.mAes.ecbEncCounterMode p.mBlockIdx (BitVec.ofNat 64 p.mBuffer.length) 0
      fun i => p.mBuffer.getD i 0#128)

/-- `refillBuffer`, or `none` where it throws. -/
def refillBuffer (p : PRNG) : Option PRNG :=
  if p.mBuffer.length = 0 then none
  else some { p with
    mBuffer := p.refilled
    mBlockIdx := p.mBlockIdx + BitVec.ofNat 64 p.mBuffer.length
    mBytesIdx := 0
    size := by rw [refilled, List.length_map, List.length_range]; exact p.size
    capacity := by rw [p.capacity, refilled, List.length_map, List.length_range]
    within := Nat.zero_le _ }

/-- The branch of `SetSeed` that allocates the buffer. `resize` throws `std::length_error`
above `max_size`. -/
def allocate (p : PRNG) (bufferSize : Nat) : Option PRNG :=
  if empty : p.mBuffer.length = 0 then
    if fits : bufferSize ≤ maxSize then some { p with
      mBuffer := List.replicate bufferSize 0#128
      mBufferByteCapacity := 16 * bufferSize
      size := by rw [List.length_replicate]; exact fits
      capacity := by rw [List.length_replicate]
      within := by have start := p.within; rw [p.capacity, empty] at start; omega }
    else none
  else some p

/-- `mAes.setKey(seed); mBlockIdx = 0;`. -/
def keyed (p : PRNG) (seed : Block) : PRNG :=
  { p with mAes := AES.setKey seed, mBlockIdx := 0#64 }

/-- `SetSeed`, or `none` where it throws. A generator that has a buffer keeps its size. -/
def setSeed (p : PRNG) (seed : Block) (bufferSize : Nat) : Option PRNG := do
  let p ← (p.keyed seed).allocate bufferSize
  p.refillBuffer

/-- `PRNG(seed, bufferSize)`. -/
def ofSeed (mAes : AES) (seed : Block) (bufferSize : Nat) : Option PRNG :=
  (unkeyed mAes).setSeed seed bufferSize

/-- `mBytesIdx += step`. -/
def advance (p : PRNG) (step : Nat) (room : step ≤ p.mBufferByteCapacity - p.mBytesIdx) : PRNG :=
  { p with
    mBytesIdx := p.mBytesIdx + step
    within := by have start := p.within; omega }

/-- `if (mBytesIdx == mBufferByteCapacity) refillBuffer();`. -/
def refillUsed (p : PRNG) : Option PRNG :=
  if p.mBytesIdx = p.mBufferByteCapacity then p.refillBuffer else some p

/-- There are unread bytes after the check. -/
theorem lt_of_refillUsed {p q : PRNG} (refill : p.refillUsed = some q) :
    q.mBytesIdx < q.mBufferByteCapacity := by
  unfold refillUsed refillBuffer at refill
  split at refill
  · split at refill
    · cases refill
    · cases refill
      have capacity := p.capacity
      simp only
      omega
  · cases refill
    have within := p.within
    omega

/-- `get(dest, length)` for values of one byte. -/
def get (p : PRNG) (lengthu8 : Nat) : Option (List Byte × PRNG) :=
  if lengthu8 = 0 then some ([], p)
  else
    let step := min lengthu8 (p.mBufferByteCapacity - p.mBytesIdx)
    let dest := (p.bytes.drop p.mBytesIdx).take step
    match _refill : (p.advance step (Nat.min_le_right _ _)).refillUsed with
    | none => none
    | some q => do
      let (rest, q) ← q.get (lengthu8 - step)
      return (dest ++ rest, q)
termination_by 2 * lengthu8 + if p.mBytesIdx = p.mBufferByteCapacity then 1 else 0
decreasing_by
  have unread := lt_of_refillUsed _refill
  have within := p.within
  rw [if_neg unread.ne]
  split <;> omega

/-- `getBufferSpan`. -/
def getBufferSpan (p : PRNG) (maxSize : Nat) : Option (List Byte × PRNG) := do
  let p ← p.refillUsed
  let size := min maxSize (p.mBufferByteCapacity - p.mBytesIdx)
  return ((p.bytes.drop p.mBytesIdx).take size, p.advance size (Nat.min_le_right _ _))

/-! ## The keystream -/

/-- The encryptions of 0, 1, 2, ... modulo `2 ^ 64`, byte by byte. -/
def keystream (aes : AES) : Nat → Byte :=
  unchunk 16 0#8 fun k => toBytes 16 (aes.ecbEncBlock (mmSet1Epi64x (BitVec.ofNat 64 k))).toNat

/-- The next unread byte is byte `pos` of the keystream: the buffer holds the blocks from
`first` on, and the counter stands behind them. -/
structure ReadsAt (aes : AES) (p : PRNG) (pos : Nat) : Prop where
  key : p.mAes = aes
  nonempty : 0 < p.mBuffer.length
  short : p.mBuffer.length < 2 ^ 31
  buffered : ∃ first, pos = 16 * first + p.mBytesIdx ∧
    p.mBlockIdx = BitVec.ofNat 64 (first + p.mBuffer.length) ∧
    p.bytes = excerpt (keystream aes) (16 * first) (16 * p.mBuffer.length)

/-- Up to `2 ^ 31` blocks counter mode fills the whole buffer. -/
theorem counterLength_ofNat {n : Nat} (short : n < 2 ^ 31) :
    counterLength (BitVec.ofNat 64 n) = n := by
  have value : (BitVec.ofNat 64 n).toNat = n := by
    rw [BitVec.toNat_ofNat, Nat.mod_eq_of_lt (by omega)]
  rw [counterLength_eq, value, Nat.mod_eq_of_lt (by omega), if_pos short]

theorem refilled_eq {p : PRNG} (short : p.mBuffer.length < 2 ^ 31) {first : Nat}
    (counter : p.mBlockIdx = BitVec.ofNat 64 first) :
    p.refilled = excerpt
      (fun k => p.mAes.ecbEncBlock (mmSet1Epi64x (BitVec.ofNat 64 k))) first p.mBuffer.length := by
  refine List.map_congr_left fun i listed => ?_
  have inside : i < counterLength (BitVec.ofNat 64 p.mBuffer.length) := by
    rw [counterLength_ofNat short]
    exact List.mem_range.mp listed
  rw [ecbEncCounterMode_eq, ← Nat.zero_add i, mapped_inside _ _ _ _ inside, Nat.zero_add, counter,
    ← BitVec.ofNat_add]

theorem refillBuffer_readsAt {p : PRNG} (nonempty : 0 < p.mBuffer.length)
    (short : p.mBuffer.length < 2 ^ 31) {first : Nat}
    (counter : p.mBlockIdx = BitVec.ofNat 64 first) :
    ∃ q, p.refillBuffer = some q ∧ q.ReadsAt p.mAes (16 * first) := by
  refine ⟨_, if_neg nonempty.ne', ?_⟩
  have length : p.refilled.length = p.mBuffer.length := by
    rw [refilled_eq short counter, length_excerpt]
  refine ⟨rfl, length.symm ▸ nonempty, length.symm ▸ short, first, rfl, ?_, ?_⟩
  · show p.mBlockIdx + BitVec.ofNat 64 p.mBuffer.length = BitVec.ofNat 64 (first + p.refilled.length)
    rw [counter, length, BitVec.ofNat_add]
  · show p.refilled.flatMap (fun b => toBytes 16 b.toNat) =
      excerpt (keystream p.mAes) (16 * first) (16 * p.refilled.length)
    rw [length, keystream, ← flatten_chunks 0#8 (fun k => length_toBytes 16 _),
      refilled_eq short counter, excerpt, List.flatMap_def, List.map_map]
    rfl

theorem refillUsed_readsAt {aes : AES} {p : PRNG} {pos : Nat} (reads : p.ReadsAt aes pos) :
    ∃ q, p.refillUsed = some q ∧ q.ReadsAt aes pos := by
  unfold refillUsed
  split
  next used =>
    obtain ⟨rfl, nonempty, short, first, place, counter, _⟩ := reads
    obtain ⟨q, refill, fresh⟩ := refillBuffer_readsAt nonempty short counter
    refine ⟨q, refill, ?_⟩
    rwa [place, used, p.capacity, ← Nat.mul_add]
  next => exact ⟨p, rfl, reads⟩

/-- The bytes that a step takes out of the buffer. -/
theorem ReadsAt.take {aes : AES} {p : PRNG} {pos step : Nat} (reads : p.ReadsAt aes pos)
    (room : step ≤ p.mBufferByteCapacity - p.mBytesIdx) :
    (p.bytes.drop p.mBytesIdx).take step = excerpt (keystream aes) pos step ∧
    (p.advance step room).ReadsAt aes (pos + step) := by
  obtain ⟨key, nonempty, short, first, rfl, counter, content⟩ := reads
  have capacity := p.capacity
  have within := p.within
  constructor
  · rw [content, drop_excerpt _ _ (by omega), take_excerpt _ _ (by omega)]
  · exact ⟨key, nonempty, short, first, Nat.add_assoc _ _ _, counter, content⟩

/-- The size of the buffer after a call of `SetSeed`. -/
def sizeAfter (p : PRNG) (bufferSize : Nat) : Nat :=
  if p.mBuffer.length = 0 then bufferSize else p.mBuffer.length

theorem allocate_spec (p : PRNG) {bufferSize : Nat} (fits : p.sizeAfter bufferSize ≤ maxSize) :
    ∃ q, p.allocate bufferSize = some q ∧ q.mBuffer.length = p.sizeAfter bufferSize ∧
      q.mAes = p.mAes ∧ q.mBlockIdx = p.mBlockIdx := by
  unfold allocate sizeAfter at *
  split
  next empty =>
    rw [if_pos empty] at fits
    exact ⟨_, dif_pos fits, List.length_replicate, rfl, rfl⟩
  next => exact ⟨p, rfl, rfl, rfl, rfl⟩

theorem allocate_eq_none (p : PRNG) {bufferSize : Nat}
    (large : maxSize < p.sizeAfter bufferSize) : p.allocate bufferSize = none := by
  unfold allocate sizeAfter at *
  split
  next empty =>
    rw [if_pos empty] at large
    exact dif_neg large.not_ge
  next filled =>
    rw [if_neg filled] at large
    exact absurd p.size large.not_ge

/-- `SetSeed` restarts any generator at the first byte of the keystream of the seed. -/
theorem setSeed_readsAt (p : PRNG) (seed : Block) {bufferSize : Nat}
    (nonempty : 0 < p.sizeAfter bufferSize) (short : p.sizeAfter bufferSize < 2 ^ 31) :
    ∃ q, p.setSeed seed bufferSize = some q ∧ q.ReadsAt (AES.setKey seed) 0 := by
  have fits : p.sizeAfter bufferSize ≤ maxSize := short.le.trans (by decide)
  obtain ⟨p', allocated, size, key, counter⟩ := allocate_spec (p.keyed seed) fits
  obtain ⟨q, refill, fresh⟩ := refillBuffer_readsAt (size.symm ▸ nonempty) (size.symm ▸ short)
    counter
  rw [key] at fresh
  exact ⟨q, by rw [setSeed, allocated]; exact refill, fresh⟩

theorem get_readsAt {aes : AES} (n : Nat) {p : PRNG} {pos : Nat} (reads : p.ReadsAt aes pos) :
    ∃ q, p.get n = some (excerpt (keystream aes) pos n, q) ∧ q.ReadsAt aes (pos + n) := by
  fun_induction get p n generalizing pos with
  | case1 p => exact ⟨p, rfl, reads⟩
  | case2 p n positive step =>
    rename_i failed
    -- a generator with a buffer can refill it
    obtain ⟨q, refill, _⟩ := refillUsed_readsAt (reads.take (Nat.min_le_right n _)).2
    exact absurd (refill.symm.trans failed) (Option.some_ne_none q)
  | case3 p n positive step dest q refill =>
    rename_i ih
    obtain ⟨taken, there⟩ := reads.take (Nat.min_le_right n _)
    obtain ⟨q', refill', there⟩ := refillUsed_readsAt there
    obtain rfl : q' = q := Option.some.inj (refill'.symm.trans refill)
    obtain ⟨last, rest, final⟩ := ih there
    have whole : step + (n - step) = n := Nat.add_sub_of_le (Nat.min_le_left n _)
    refine ⟨last, ?_, ?_⟩
    · have dest_eq : dest = excerpt (keystream aes) pos step := taken
      rw [rest, dest_eq]
      show some (excerpt (keystream aes) pos step ++ _, last) = _
      rw [← excerpt_add, whole]
    · rwa [Nat.add_assoc, whole] at final

theorem getBufferSpan_readsAt {aes : AES} (maxSize : Nat) {p : PRNG} {pos : Nat}
    (reads : p.ReadsAt aes pos) :
    ∃ n q, n ≤ maxSize ∧ (0 < maxSize → 0 < n) ∧
      p.getBufferSpan maxSize = some (excerpt (keystream aes) pos n, q) ∧
      q.ReadsAt aes (pos + n) := by
  obtain ⟨q, refill, there⟩ := refillUsed_readsAt reads
  have unread := lt_of_refillUsed refill
  obtain ⟨taken, final⟩ := there.take (Nat.min_le_right maxSize _)
  refine ⟨_, _, Nat.min_le_left _ _, fun wanted => ?_, ?_, final⟩
  · omega
  · unfold getBufferSpan
    rw [refill, ← taken]
    rfl

/-! ## Requests -/

/-- What is asked of a generator. -/
inductive Request
  | get (length : Nat)
  | span (maxSize : Nat)

def serve : Request → PRNG → Option (List Byte × PRNG)
  | .get length, p => p.get length
  | .span maxSize, p => p.getBufferSpan maxSize

/-- The length of the answer: of `get` what it is asked for, of `getBufferSpan` at most that,
but something. -/
def Request.Suits : Request → Nat → Prop
  | .get length, n => n = length
  | .span maxSize, n => n ≤ maxSize ∧ (0 < maxSize → 0 < n)

theorem reads_keystream (aes : AES) :
    Reads serve (keystream aes) (ReadsAt aes) Request.Suits := by
  intro request p pos start
  cases request with
  | get length =>
    obtain ⟨q, answer, final⟩ := get_readsAt length start
    exact ⟨length, q, rfl, answer, final⟩
  | span maxSize =>
    obtain ⟨n, q, short, some, answer, final⟩ := getBufferSpan_readsAt maxSize start
    exact ⟨n, q, ⟨short, some⟩, answer, final⟩

theorem ReadsAt.answers {aes : AES} {p : PRNG} (start : p.ReadsAt aes 0)
    (requests : List Request) :
    ∃ answers q, runRequests serve requests p = some (answers, q) ∧
      List.Forall₂ (fun request answer => request.Suits answer.length) requests answers ∧
      answers.flatten = excerpt (keystream aes) 0 answers.flatten.length := by
  obtain ⟨answers, q, run, suits, whole, _⟩ := (reads_keystream aes).run requests start
  exact ⟨answers, q, run, suits, whole⟩

/-- Whatever a generator has done before, from a call of `SetSeed` on its answers to any
requests are the keystream of the seed from its first byte on, cut into pieces. -/
theorem setSeed_run (p : PRNG) (seed : Block) {bufferSize : Nat}
    (nonempty : 0 < p.sizeAfter bufferSize) (short : p.sizeAfter bufferSize < 2 ^ 31)
    (requests : List Request) :
    ∃ q answers q', p.setSeed seed bufferSize = some q ∧
      runRequests serve requests q = some (answers, q') ∧
      List.Forall₂ (fun request answer => request.Suits answer.length) requests answers ∧
      answers.flatten =
        excerpt (keystream (AES.setKey seed)) 0 answers.flatten.length := by
  obtain ⟨q, seeded, start⟩ := setSeed_readsAt p seed nonempty short
  obtain ⟨answers, q', answered⟩ := start.answers requests
  exact ⟨q, answers, q', seeded, answered⟩

/-- A generator with four blocks, seeded for the first time, asked for more than it holds. -/
theorem setSeed_run_four :
    ∃ q answers q', (unkeyed (AES.setKey 0#128)).setSeed 7#128 4 = some q ∧
      runRequests serve [.get 24, .span 40, .get 100] q = some (answers, q') ∧
      List.Forall₂ (fun (request : Request) answer => request.Suits answer.length)
        [.get 24, .span 40, .get 100] answers ∧
      answers.flatten = excerpt (keystream (AES.setKey 7#128)) 0 answers.flatten.length :=
  setSeed_run (unkeyed (AES.setKey 0#128)) 7#128 (by decide : 0 < 4) (by decide : 4 < 2 ^ 31)
    [.get 24, .span 40, .get 100]

/-- The same of a new generator. -/
theorem ofSeed_run (mAes : AES) (seed : Block) {bufferSize : Nat} (nonempty : 0 < bufferSize)
    (short : bufferSize < 2 ^ 31) (requests : List Request) :
    ∃ q answers q', ofSeed mAes seed bufferSize = some q ∧
      runRequests serve requests q = some (answers, q') ∧
      List.Forall₂ (fun request answer => request.Suits answer.length) requests answers ∧
      answers.flatten =
        excerpt (keystream (AES.setKey seed)) 0 answers.flatten.length := by
  obtain ⟨q, seeded, start⟩ := setSeed_readsAt (unkeyed mAes) seed nonempty short
  obtain ⟨answers, q', answered⟩ := start.answers requests
  exact ⟨q, answers, q', seeded, answered⟩

/-! ## Exceptions -/

theorem refillBuffer_isSome {p : PRNG} (nonempty : 0 < p.mBuffer.length) :
    ∃ q, p.refillBuffer = some q ∧ q.mBuffer.length = p.mBuffer.length := by
  refine ⟨_, if_neg nonempty.ne', ?_⟩
  show p.refilled.length = p.mBuffer.length
  rw [refilled, List.length_map, List.length_range]

theorem refillUsed_isSome {p : PRNG} (nonempty : 0 < p.mBuffer.length) :
    ∃ q, p.refillUsed = some q ∧ q.mBuffer.length = p.mBuffer.length := by
  unfold refillUsed
  split
  · exact refillBuffer_isSome nonempty
  · exact ⟨p, rfl, rfl⟩

theorem refillUsed_empty {p : PRNG} (empty : p.mBuffer.length = 0) : p.refillUsed = none := by
  have capacity := p.capacity
  have within := p.within
  rw [refillUsed, if_pos (by omega), refillBuffer, if_pos empty]

theorem get_isSome (n : Nat) {p : PRNG} (nonempty : 0 < p.mBuffer.length) :
    ∃ answer, p.get n = some answer := by
  fun_induction get p n with
  | case1 p => exact ⟨_, rfl⟩
  | case2 p n positive step =>
    rename_i failed
    obtain ⟨q, refill, _⟩ := @refillUsed_isSome (p.advance step _) nonempty
    exact absurd (refill.symm.trans failed) (Option.some_ne_none q)
  | case3 p n positive step dest q refill =>
    rename_i ih
    obtain ⟨q', refill', size⟩ := @refillUsed_isSome (p.advance step _) nonempty
    obtain rfl : q' = q := Option.some.inj (refill'.symm.trans refill)
    obtain ⟨answer, rest⟩ := ih (size.symm ▸ nonempty)
    exact ⟨(dest ++ answer.1, answer.2), by rw [rest]; rfl⟩

theorem get_empty {n : Nat} (positive : n ≠ 0) {p : PRNG} (empty : p.mBuffer.length = 0) :
    p.get n = none := by
  fun_induction get p n with
  | case1 p => exact absurd rfl positive
  | case2 p n => rfl
  | case3 p n _ step dest q refill =>
    exact absurd (refill.symm.trans (refillUsed_empty empty)) (Option.some_ne_none q)

theorem setSeed_eq_none_iff (p : PRNG) (seed : Block) (bufferSize : Nat) :
    p.setSeed seed bufferSize = none ↔
      p.sizeAfter bufferSize = 0 ∨ maxSize < p.sizeAfter bufferSize := by
  unfold setSeed
  rcases Nat.lt_or_ge maxSize (p.sizeAfter bufferSize) with large | fits
  · rw [allocate_eq_none (p.keyed seed) large]
    exact ⟨fun _ => .inr large, fun _ => rfl⟩
  · obtain ⟨q, allocated, size, _⟩ := allocate_spec (p.keyed seed) fits
    rw [allocated]
    constructor
    · intro failed
      by_contra other
      have nonempty : 0 < q.mBuffer.length :=
        size.symm ▸ Nat.pos_of_ne_zero fun empty => other (.inl empty)
      obtain ⟨_, refill, _⟩ := refillBuffer_isSome nonempty
      exact absurd (refill.symm.trans failed) (Option.some_ne_none _)
    · rintro (empty | large)
      · exact if_pos (size.trans empty)
      · exact absurd fits large.not_ge

/-- The generator throws for want of a buffer, and for nothing else: `SetSeed` when it is
to make an empty one or one that is too large, `get` and `getBufferSpan` when they have none
to read. -/
theorem throws_iff (p : PRNG) :
    (∀ seed bufferSize, p.setSeed seed bufferSize = none ↔
      p.mBuffer.length = 0 ∧ (bufferSize = 0 ∨ maxSize < bufferSize)) ∧
    (∀ n, p.get n = none ↔ n ≠ 0 ∧ p.mBuffer.length = 0) ∧
    ∀ maxSize, p.getBufferSpan maxSize = none ↔ p.mBuffer.length = 0 := by
  refine ⟨fun seed bufferSize => ?_, fun n => ?_, fun maxSize => ?_⟩
  · rw [setSeed_eq_none_iff]
    have size := p.size
    unfold sizeAfter
    split <;> omega
  · constructor
    · intro failed
      constructor
      · rintro rfl
        rw [get, if_pos rfl] at failed
        exact absurd failed (Option.some_ne_none _)
      · by_contra nonempty
        obtain ⟨answer, returned⟩ := get_isSome n (Nat.pos_of_ne_zero nonempty)
        exact absurd (returned.symm.trans failed) (Option.some_ne_none answer)
    · rintro ⟨positive, empty⟩
      exact get_empty positive empty
  · constructor
    · intro failed
      by_contra nonempty
      obtain ⟨q, refill, _⟩ := refillUsed_isSome (Nat.pos_of_ne_zero nonempty)
      rw [getBufferSpan, refill] at failed
      exact absurd failed (Option.some_ne_none _)
    · intro empty
      rw [getBufferSpan, refillUsed_empty empty]
      rfl

end PRNG

end DpfPir
