import DpfPir.Programs
import DpfPir.Tampering

/-!
# The test program

`tests/main.cpp`: key generation, the evaluation of both keys, the answers and the client's
test in one process.

Results:
1. `flatMap_eq_single`: a loop that prints at one index only.
2. `testMain_passes`: the program prints one leaf, the queried one, with the values 1 and
   the payload, finds the final bits different there only, and prints that the check holds,
   for all shares, widths and schedules. From key generation on this does not depend on the
   root seeds, the database or the cipher.
-/

namespace DpfPir

open LittleEndian Words CorrectionTree Streams PRNG

/-- What the program prints of its results. -/
inductive Line
  | leaf (i : Nat) (value0 value1 : BitVec 64)
  | this (i : Nat)
  | check (check : Bool)
deriving DecidableEq

/-- The body of the loop over the leaves. -/
def testLeaf (i : Nat) (out0 out1 : Fin 2 → GroupElement) (t0 t1 : Byte) : List Line :=
  (if (out0 0 + out1 0).value ≠ 0#64 ∨ (out0 1 + out1 1).value ≠ 0#64 then
    [.leaf i (out0 0 + out1 0).value (out0 1 + out1 1).value] else []) ++
  if t0 ^^^ t1 ≠ 0#8 then [.this i] else []

/-- The loop that computes `check`. Its mask is a 64-bit word. -/
def testCheck (bitlength : Nat) (payload : Fin 2 → GroupElement) {blocks : Nat}
    (o hato : Fin 2 → Fin blocks → GroupElement) : Option Bool :=
  (List.finRange blocks).foldlM (fun check j => do
    return check && (← checkEntry bitlength payload (fun b => o b j) fun b => hato b j)) true

section Test

variable (setup : Setup) (dealer : Machine) (server : Fin 2 → Machine) (aes : Cipher)
  (dpfip : DpfInput) (keys : Fin 2 → Block)

/-- The program from key generation on. -/
def testSession (database : Fin setup.block → Fin (2 ^ setup.inputSize) → GroupElement) :
    Option (List Line) := do
  let dealt := dpfKeygen dealer setup.bitlength aes setup.inputSize setup.bitlength dpfip keys
  let eval := fun b => dpfEvalAll (server b) setup.bitlength aes b (dealt.key b)
    (dealt.ip2.index b) (dealt.ip2.payload b)
  let rotatedIndex := GroupElement.ofValue 0#64 setup.inputSize
  let (o0, hato0) ← computeInnerProdZp (server 0) setup.bitlength (2 ^ setup.inputSize)
    rotatedIndex database (eval 0).out
  let (o1, hato1) ← computeInnerProdZp (server 1) setup.bitlength (2 ^ setup.inputSize)
    rotatedIndex database (eval 1).out
  let check ← testCheck setup.bitlength dealt.ip2.payload ![o0, o1] ![hato0, hato1]
  return ((List.finRange (2 ^ setup.inputSize)).flatMap fun i : Fin (2 ^ setup.inputSize) =>
    testLeaf i.val ((eval 0).out i) ((eval 1).out i) ((eval 0).t i) ((eval 1).t i)) ++
      [.check check]

/-- `main`. The generator is seeded twice, for the database and for the keys. -/
def testMain : Option (List Line) := do
  let p ← prng.setSeed (toBlock 0#64 0#64) 16
  let (database, p) ← each (each (randomGe setup.bitlength) (2 ^ setup.inputSize)) setup.block p
  let p ← p.setSeed (toBlock 0#64 0#64) 16
  let (keys, _) ← randomKeys p
  testSession setup dealer server aesCipher dpfip keys database

end Test

/-! ## The loops -/

theorem flatMap_eq_single {α γ : Type} {f : α → List γ} {q : α} {l : List α} (nodup : l.Nodup)
    (mem : q ∈ l) (others : ∀ i ∈ l, i ≠ q → f i = []) : l.flatMap f = f q := by
  induction l with
  | nil => exact absurd mem List.not_mem_nil
  | cons a l ih =>
    obtain ⟨fresh, nodup⟩ := List.nodup_cons.mp nodup
    rw [List.flatMap_cons]
    rcases List.mem_cons.mp mem with same | later
    · subst same
      have none : l.flatMap f = [] := List.flatMap_eq_nil_iff.mpr fun i mem =>
        others i (List.mem_cons_of_mem _ mem) fun same => fresh (same ▸ mem)
      rw [none, List.append_nil]
    · have first : f a = [] := others a List.mem_cons_self fun same => fresh (same ▸ later)
      rw [first, List.nil_append]
      exact ih nodup later fun i mem => others i (List.mem_cons_of_mem _ mem)

theorem checkEntry_eq {w : Nat} (hw : w ≤ 63) (payload o hato : Fin 2 → GroupElement) :
    checkEntry w payload o hato = some (checkBlock w payload o hato) :=
  @check_entry_eq w 0 hw payload o hato

/-- The check of the program is the client's for every block. -/
theorem testCheck_eq {w : Nat} (hw : w ≤ 63) {payload : Fin 2 → GroupElement} {blocks : Nat}
    {o hato : Fin 2 → Fin blocks → GroupElement}
    (passes : ∀ j, checkBlock w payload (fun b => o b j) (fun b => hato b j) = true) :
    testCheck w payload o hato = some true := by
  unfold testCheck
  generalize List.finRange blocks = js
  induction js with
  | nil => rfl
  | cons j js ih =>
    rw [List.foldlM_cons, checkEntry_eq hw, passes]
    exact ih

/-- The rotated index that the program passes is the client's for the queried leaf. -/
theorem rotateQuery_queried {n : Nat} (hn : n ≤ 64) (index : Fin 2 → GroupElement) :
    rotateQuery (BitVec.ofNat 64 (queriedLeaf n index)) n index = GroupElement.ofValue 0#64 n := by
  have shares : residue n (BitVec.ofNat 64 (queriedLeaf n index)) =
      (index 0).res n + (index 1).res n := by
    rw [residue, BitVec.toNat_ofNat, natCast_mod_two_pow hn, queriedLeaf,
      natCast_mod_two_pow le_rfl, Nat.cast_add]
    rfl
  refine GroupElement.ext_res (w := n) (rotateQuery_bitsize _ n index) rfl ?_
  rw [rotateQuery_res hn, shares, GroupElement.res_zero]
  ring

section Dealt

variable (dealer : Machine) (server : Fin 2 → Machine) (aes : Cipher) {n w : Nat}
  (hn : n ≤ 30) (hw : w ≤ 63) {dpfip : DpfInput} (indexWidth : ∀ b, (dpfip.index b).bitsize = n)
  (alphaWidth : ∀ b, (dpfip.alpha b).bitsize = w) (keys : Fin 2 → Block)
  (index payload : Fin 2 → GroupElement)
include hn hw indexWidth alphaWidth

/-- The final bits differ at the queried leaf. -/
theorem dealt_t_ne (x : Fin (2 ^ n)) :
    let key := (dpfKeygen dealer w aes n w dpfip keys).key
    let eval := fun b => dpfEvalAll (server b) w aes b (key b) (index b) (payload b)
    (eval 0).t x ^^^ (eval 1).t x ≠ 0#8 ↔ x.val = queriedLeaf n dpfip.index := by
  intro key eval
  have fits := dpfKeygen_fitting dealer aes (h := n) dpfip keys (by omega) alphaWidth
  have bit (b : Fin 2) : Xor.of ((eval b).t x) = (keyLayer aes b (key b) n x).bit :=
    evalAll_t (server b) w aes b (key b) (index b) (payload b) x
  have leaf : x = position (pathDirs n (dpfip.index 0 + dpfip.index 1).value) n ↔
      x.val = queriedLeaf n dpfip.index := by
    rw [Fin.ext_iff, position_pathDirs, toNat_add_index (by omega) indexWidth]
  have apart : (eval 0).t x ^^^ (eval 1).t x ≠ 0#8 ↔
      Xor.of ((eval 0).t x) ≠ Xor.of ((eval 1).t x) := BitVec.xor_eq_zero_iff.not
  rw [apart, bit 0, bit 1, differ_bits aes (fits.differ le_rfl) x, leaf]

/-- What the program prints for a leaf. -/
theorem testLeaf_dealt (positive : 0 < w) (x : Fin (2 ^ n)) :
    let key := (dpfKeygen dealer w aes n w dpfip keys).key
    let eval := fun b => dpfEvalAll (server b) w aes b (key b) (index b) (payload b)
    testLeaf x.val ((eval 0).out x) ((eval 1).out x) ((eval 0).t x) ((eval 1).t x) =
      if x.val = queriedLeaf n dpfip.index then
        [.leaf x.val 1#64 (dpfip.alpha 0 + dpfip.alpha 1).value, .this x.val]
      else [] := by
  intro key eval
  have fits := dpfKeygen_fitting dealer aes (h := n) dpfip keys (by omega) alphaWidth
  have sum : addPair ((eval 0).out x) ((eval 1).out x) =
      pointFunction n w dpfip.index dpfip.alpha x :=
    fits.add_out hn (by omega) (fun _ => rfl) (toNat_keygen_Bout dealer aes dpfip keys (by omega))
      indexWidth alphaWidth server w index payload x
  have bits := dealt_t_ne dealer server aes hn hw indexWidth alphaWidth keys index payload x
  have one : (GroupElement.ofValue 1#64 w).value = 1#64 := by
    refine BitVec.eq_of_toNat_eq ?_
    rw [GroupElement.ofValue_toNat (by omega)]
    exact Nat.mod_eq_of_lt (Nat.one_lt_two_pow (by omega))
  unfold testLeaf
  have sum0 : (eval 0).out x 0 + (eval 1).out x 0 = _ := congrFun sum 0
  have sum1 : (eval 0).out x 1 + (eval 1).out x 1 = _ := congrFun sum 1
  rw [sum0, sum1, pointFunction]
  by_cases here : x.val = queriedLeaf n dpfip.index
  · rw [if_pos (bits.mpr here)]
    simp only [if_pos here, Matrix.cons_val_zero, Matrix.cons_val_one]
    rw [one, if_pos (.inl (by decide))]
    rfl
  · rw [if_neg (mt bits.mp here)]
    simp only [if_neg here, Matrix.cons_val_zero, Matrix.cons_val_one]
    rw [GroupElement.value_zero, if_neg (by simp)]
    rfl

/-- The program from key generation on, whatever the database is. -/
theorem testSession_passes {setup : Setup} (size : setup.inputSize = n)
    (width : setup.bitlength = w) (positive : 0 < w)
    (database : Fin setup.block → Fin (2 ^ setup.inputSize) → GroupElement) :
    testSession setup dealer server aes dpfip keys database = some
      [.leaf (queriedLeaf n dpfip.index) 1#64 (dpfip.alpha 0 + dpfip.alpha 1).value,
        .this (queriedLeaf n dpfip.index), .check true] := by
  subst size width
  obtain ⟨o, hato, run, widths, sums⟩ := dealt_answers dealer server aes hn hw dpfip indexWidth
    alphaWidth keys database (queriedPosition setup.inputSize dpfip.index)
  have rotated : rotateQuery (BitVec.ofNat 64 (queriedPosition setup.inputSize dpfip.index))
      setup.inputSize dpfip.index = GroupElement.ofValue 0#64 setup.inputSize :=
    rotateQuery_queried (by omega) dpfip.index
  rw [rotated] at run
  have index : (dpfKeygen dealer setup.bitlength aes setup.inputSize setup.bitlength dpfip
      keys).ip2.index = dpfip.index := vec_eta dpfip.index
  have payload : (dpfKeygen dealer setup.bitlength aes setup.inputSize setup.bitlength dpfip
      keys).ip2.payload = dpfip.alpha := vec_eta dpfip.alpha
  have passes (j : Fin setup.block) : checkBlock setup.bitlength dpfip.alpha
      (fun b => ![o 0, o 1] b j) (fun b => ![hato 0, hato 1] b j) = true := by
    refine (checkBlock_iff (by omega) ⟨alphaWidth 0, (widths 0 j).1, (widths 0 j).2⟩).mpr ?_
    show _ * (o 0 j + o 1 j).res _ = (hato 0 j + hato 1 j).res _
    rw [(sums j).1, (sums j).2]
  have leaves := testLeaf_dealt dealer server aes hn hw indexWidth alphaWidth keys dpfip.index
    dpfip.alpha positive
  have run0 := run 0
  have run1 := run 1
  dsimp only at run0 run1 leaves
  unfold testSession
  dsimp only
  rw [index, payload, run0, Option.bind_eq_bind, Option.bind_some, run1]
  dsimp only
  rw [Option.bind_eq_bind, Option.bind_some, testCheck_eq hw passes]
  have printed : ∀ i ∈ List.finRange (2 ^ setup.inputSize),
      i ≠ queriedPosition setup.inputSize dpfip.index → _ = [] := fun i _ off =>
    (leaves i).trans (if_neg fun here => off (Fin.ext here))
  have here : (queriedPosition setup.inputSize dpfip.index).val =
      queriedLeaf setup.inputSize dpfip.index := rfl
  rw [Option.bind_some, flatMap_eq_single (List.nodup_finRange _)
    (List.mem_finRange (queriedPosition setup.inputSize dpfip.index)) printed, leaves, if_pos here]
  rfl

end Dealt

/-- The test passes, for all shares, widths and schedules: the program prints the queried
leaf with the values 1 and the payload, and no other leaf, finds the final bits different
there only, and prints that the check holds. It would do so with any other root seeds and
any other database in place of those that it draws, and with any other cipher. -/
theorem testMain_passes {setup : Setup} (supported : setup.Supported) (dealer : Machine)
    (server : Fin 2 → Machine) {dpfip : DpfInput}
    (indexWidth : ∀ b, (dpfip.index b).bitsize = setup.inputSize)
    (alphaWidth : ∀ b, (dpfip.alpha b).bitsize = setup.bitlength) :
    let printed :=
      [.leaf (queriedLeaf setup.inputSize dpfip.index) 1#64 (dpfip.alpha 0 + dpfip.alpha 1).value,
        .this (queriedLeaf setup.inputSize dpfip.index), .check true]
    (∀ aes keys database,
      testSession setup dealer server aes dpfip keys database = some printed) ∧
    testMain setup dealer server dpfip = some printed := by
  intro printed
  have passes (aes : Cipher) (keys : Fin 2 → Block)
      (database : Fin setup.block → Fin (2 ^ setup.inputSize) → GroupElement) :
      testSession setup dealer server aes dpfip keys database = some printed :=
    testSession_passes dealer server aes supported.inputSize supported.bitlength indexWidth
      alphaWidth keys rfl rfl supported.positive database
  refine ⟨passes, ?_⟩
  obtain ⟨p, seeded, start⟩ :=
    @setSeed_readsAt prng (toBlock 0#64 0#64) 16 (by decide) (by decide)
  have rows : Draws (ReadsAt (AES.setKey (toBlock 0#64 0#64))) _ _ _ :=
    ((randomGe_draws setup.bitlength).each (2 ^ setup.inputSize)).each setup.block
  obtain ⟨p1, created, there⟩ := rows p 0 start
  have buffered : p1.sizeAfter 16 = p1.mBuffer.length := if_neg there.nonempty.ne'
  obtain ⟨p2, reseeded, again⟩ := @setSeed_readsAt p1 (toBlock 0#64 0#64) 16
    (buffered ▸ there.nonempty) (buffered ▸ there.short)
  obtain ⟨p3, drawn, _⟩ := randomKeys_draws p2 0 again
  rw [testMain, seeded]
  show (each _ _ p).bind _ = _
  rw [created]
  show (p1.setSeed _ _).bind _ = _
  rw [reseeded]
  show (randomKeys p2).bind _ = _
  rw [drawn]
  exact passes aesCipher _ _

/-- The constants of the program. -/
def testSetup : Setup where
  inputSize := 20
  bitlength := 40
  entrySize := 8192

def testInput : DpfInput where
  index := ![GroupElement.ofValue 0#64 20, GroupElement.ofValue 2#64 20]
  alpha := ![GroupElement.ofValue 2#64 40, GroupElement.ofValue 10#64 40]

/-- Leaf 2 with the payload 12. -/
theorem testMain_passes_constants :
    testMain testSetup toyDealer toyServers testInput =
      some [.leaf 2 1#64 12#64, .this 2, .check true] := by
  have leaf : queriedLeaf 20 testInput.index = 2 := by decide
  have payload : (testInput.alpha 0 + testInput.alpha 1).value = 12#64 := by decide
  have passes := @testMain_passes testSetup ⟨by decide, by decide, by decide⟩ toyDealer toyServers
    testInput (by decide) (by decide)
  rw [← leaf, ← payload]
  exact passes.2

end DpfPir
