import DpfPir.Congruences
import DpfPir.Parties

/-!
# Tampered answers

The client's last test compares the product of the payload and the answer with the
authenticated answer, modulo `2 ^ bitlength`, where few numbers are invertible. One server
adds errors to what it sends. It does not know the payload, so the question is how many
payloads let a given error pass.

Results:
1. `check_tampered_iff`: the errors pass exactly for the payloads that solve a system of
   congruences, one for each block.
2. `tampering_detected`: these are none, or as many as the least power of two that divides
   an error of an answer.
3. `dealt_replies`: the replies of the two servers are of the kind that the other results
   are about.
-/

namespace DpfPir

open LittleEndian Words ParallelLoop Congruences

/-! ## Honest and tampered replies -/

/-- What the client holds when both servers are honest: shares of a payload `alpha`, and
for each block shares of its value `d j` and of the product of the two. -/
structure HonestReplies (bitlength : Nat) {block : Nat} (d : Fin block → Nat) (alpha : Nat) where
  payload : Fin 2 → GroupElement
  o : Fin 2 → Fin block → GroupElement
  hato : Fin 2 → Fin block → GroupElement
  payloadWidth : ∀ b, (payload b).bitsize = bitlength
  oWidth : ∀ b j, (o b j).bitsize = bitlength
  hatoWidth : ∀ b j, (hato b j).bitsize = bitlength
  payloadSum : (payload 0 + payload 1).value.toNat = alpha
  oSum : ∀ j, (o 0 j + o 1 j).value.toNat = d j % 2 ^ bitlength
  hatoSum : ∀ j, (hato 0 j + hato 1 j).value.toNat = alpha * d j % 2 ^ bitlength

/-- Server `b` adds an error to each of the group elements that it sends. -/
def tamper (bitlength : Nat) {block : Nat} (b : Fin 2) (error : Fin block → Nat)
    (share : Fin 2 → Fin block → GroupElement) : Fin 2 → Fin block → GroupElement :=
  Function.update share b fun j =>
    share b j + GroupElement.ofValue (BitVec.ofNat 64 (error j)) bitlength

/-- The payloads for which the client accepts the answers of server `b` with the errors
`e` and the authenticated answers with the errors `f`. -/
def acceptedPayloads {bitlength block : Nat} {d : Fin block → Nat}
    (honest : (alpha : Fin (2 ^ bitlength)) → HonestReplies bitlength d alpha) (b : Fin 2)
    (e f : Fin block → Nat) : Finset (Fin (2 ^ bitlength)) :=
  Finset.univ.filter fun alpha =>
    (Replies.entries (tamper bitlength b e (honest alpha).o)
      (tamper bitlength b f (honest alpha).hato)).check bitlength (honest alpha).payload = some true

section Tampering

variable {L block : Nat}

theorem tamper_bitsize {share : Fin 2 → Fin block → GroupElement}
    (width : ∀ c j, (share c j).bitsize = L) (b : Fin 2) (error : Fin block → Nat) (c : Fin 2)
    (j : Fin block) : (tamper L b error share c j).bitsize = L := by
  by_cases own : c = b
  · rw [own, tamper, Function.update_self]
    exact width b j
  · rw [tamper, Function.update_of_ne own]
    exact width c j

/-- The error of either server reaches the sum. -/
theorem tamper_sum (hL : L ≤ 64) {share : Fin 2 → Fin block → GroupElement}
    (width : ∀ c j, (share c j).bitsize = L) (b : Fin 2) (error : Fin block → Nat)
    (j : Fin block) :
    (tamper L b error share 0 j + tamper L b error share 1 j).res L =
      (share 0 j + share 1 j).res L + error j := by
  have added : (GroupElement.ofValue (BitVec.ofNat 64 (error j)) L).res L = error j := by
    rw [GroupElement.res_ofValue hL, residue, BitVec.toNat_ofNat, natCast_mod_two_pow hL]
  rw [GroupElement.res_add hL (tamper_bitsize width b error 0 j),
    GroupElement.res_add hL (width 0 j)]
  unfold tamper
  revert b
  refine Fin.forall_fin_two.mpr ⟨?_, ?_⟩
  · rw [Function.update_self, Function.update_of_ne (by decide),
      GroupElement.res_add hL (width 0 j), added, add_right_comm]
  · rw [Function.update_self, Function.update_of_ne (by decide),
      GroupElement.res_add hL (width 1 j), added, add_assoc]

/-- The client accepts errors `e` and `f` when the payload takes each `e j` to `f j`. What
the honest shares add up to does not matter. -/
theorem check_tampered_iff (hL : L ≤ 63) {d : Fin block → Nat} {alpha : Nat}
    (honest : HonestReplies L d alpha) (b : Fin 2) (e f : Fin block → Nat) :
    (Replies.entries (tamper L b e honest.o) (tamper L b f honest.hato)).check L honest.payload =
      some true ↔ ∀ j, alpha * e j ≡ f j [MOD 2 ^ L] := by
  have low : L ≤ 64 := by omega
  have payload : (honest.payload 0 + honest.payload 1).res L = alpha :=
    congrArg Nat.cast honest.payloadSum
  have blocks : ∀ j, checkBlock L honest.payload (fun c => tamper L b e honest.o c j)
      (fun c => tamper L b f honest.hato c j) = true ↔ alpha * e j ≡ f j [MOD 2 ^ L] := by
    intro j
    have answer : (honest.o 0 j + honest.o 1 j).res L = d j :=
      (congrArg Nat.cast (honest.oSum j)).trans (natCast_mod_two_pow le_rfl _)
    have authenticated : (honest.hato 0 j + honest.hato 1 j).res L = alpha * d j :=
      (congrArg Nat.cast (honest.hatoSum j)).trans
        ((natCast_mod_two_pow le_rfl _).trans (Nat.cast_mul _ _))
    rw [checkBlock_iff low ⟨honest.payloadWidth 0, tamper_bitsize honest.oWidth b e 0 j,
      tamper_bitsize honest.hatoWidth b f 0 j⟩, tamper_sum low honest.oWidth,
      tamper_sum low honest.hatoWidth, payload, answer, authenticated, mul_add, add_right_inj,
      ← Nat.cast_mul, ZMod.natCast_eq_natCast_iff]
  rw [Replies.check, Option.some.injEq, foldl_and_iff]
  constructor
  · rintro ⟨-, tests⟩ j
    exact (blocks j).mp (tests j (List.mem_finRange j))
  · intro solves
    exact ⟨rfl, fun j _ => (blocks j).mpr (solves j)⟩

theorem card_acceptedPayloads (hL : L ≤ 63) {d : Fin block → Nat}
    (honest : (alpha : Fin (2 ^ L)) → HonestReplies L d alpha) (b : Fin 2)
    (e f : Fin block → Nat) :
    (acceptedPayloads honest b e f).card = (solutions (2 ^ L) e f).card := by
  have same : (acceptedPayloads honest b e f).map Fin.valEmbedding = solutions (2 ^ L) e f := by
    ext alpha
    rw [Finset.mem_map, mem_solutions]
    constructor
    · rintro ⟨alpha, accepted, rfl⟩
      rw [acceptedPayloads, Finset.mem_filter, check_tampered_iff hL] at accepted
      exact ⟨alpha.isLt, accepted.2⟩
    · rintro ⟨small, solves⟩
      refine ⟨⟨alpha, small⟩, ?_, rfl⟩
      rw [acceptedPayloads, Finset.mem_filter, check_tampered_iff hL]
      exact ⟨Finset.mem_univ _, solves⟩
  rw [← same, Finset.card_map]

/-- For a single entry the client's test is the one that it makes for one block. -/
theorem check_entry_eq (hL : L ≤ 63) (payload o hato : Fin 2 → GroupElement) :
    (Replies.entry o hato : Replies block).check L payload =
      (Replies.entries (fun b (_ : Fin 1) => o b) fun b _ => hato b).check L payload := by
  have wide : ((1#64 <<< L) - 1#64).setWidth 128 = (1#128 <<< L) - 1#128 := by
    refine BitVec.eq_of_toNat_eq ?_
    rw [toNat_wideMask (by omega), mask_toNat (by omega)]
  rw [Replies.check, Replies.check, checkEntry, wordMask_of_lt (by omega)]
  show some (_ &&& BitVec.setWidth 128 _ == _) = _
  rw [wide]
  rfl

/-- What the client's test detects. For no payload, or for `2 ^ v` of them, it lets a
tampered answer pass, where `v` is the least exponent with which two divides an error of
the answers. So a wrong answer passes for at most half of the payloads, and for at most one
when one of its errors is odd. A wrong authenticated answer alone never passes. -/
theorem tampering_detected (hL : L ≤ 63) {d : Fin block → Nat}
    (honest : (alpha : Fin (2 ^ L)) → HonestReplies L d alpha) (b : Fin 2)
    (e f : Fin block → Nat) :
    ((acceptedPayloads honest b e f).card = 0 ∨
      (acceptedPayloads honest b e f).card = 2 ^ minExponent 2 L e) ∧
    ((∃ j, ¬ 2 ^ L ∣ e j) → 2 * (acceptedPayloads honest b e f).card ≤ 2 ^ L) ∧
    ((∃ j, ¬ 2 ∣ e j) → (acceptedPayloads honest b e f).card ≤ 1) ∧
    ((∀ j, 2 ^ L ∣ e j) → (∃ j, ¬ 2 ^ L ∣ f j) → (acceptedPayloads honest b e f).card = 0) ∧
    ∀ payload o hato : Fin 2 → GroupElement,
      (Replies.entry o hato : Replies block).check L payload =
        (Replies.entries (fun b (_ : Fin 1) => o b) fun b _ => hato b).check L payload := by
  rw [card_acceptedPayloads hL]
  have count := card_solutions_pow (L := L) Nat.prime_two e f
  have most : (solutions (2 ^ L) e f).card ≤ 2 ^ minExponent 2 L e := by
    cases count with
    | inl none => rw [none]; exact Nat.zero_le _
    | inr power => exact power.le
  refine ⟨count, ?_, ?_, ?_, check_entry_eq hL⟩
  · rintro ⟨j, wrong⟩
    calc 2 * (solutions (2 ^ L) e f).card
        ≤ 2 * 2 ^ minExponent 2 L e := Nat.mul_le_mul_left 2 most
      _ = 2 ^ (minExponent 2 L e + 1) := (Nat.pow_succ').symm
      _ ≤ 2 ^ L := Nat.pow_le_pow_right (by decide) (minExponent_lt wrong)
  · rintro ⟨j, odd⟩
    rwa [minExponent_eq_zero odd, pow_zero] at most
  · rintro zero ⟨j, wrong⟩
    rw [solutions_eq_empty zero wrong, Finset.card_empty]

end Tampering

/-- Replies over two bits for two blocks. The second server's shares are zero. -/
def toyReplies (alpha : Fin (2 ^ 2)) : HonestReplies 2 ![3, 1] alpha where
  payload := ![GroupElement.ofValue (BitVec.ofNat 64 alpha) 2, GroupElement.ofValue 0#64 2]
  o := ![fun j => GroupElement.ofValue (BitVec.ofNat 64 (![3, 1] j)) 2,
    fun _ => GroupElement.ofValue 0#64 2]
  hato := ![fun j => GroupElement.ofValue (BitVec.ofNat 64 (alpha * ![3, 1] j)) 2,
    fun _ => GroupElement.ofValue 0#64 2]
  payloadWidth := Fin.forall_fin_two.mpr ⟨rfl, rfl⟩
  oWidth := Fin.forall_fin_two.mpr ⟨fun _ => rfl, fun _ => rfl⟩
  hatoWidth := Fin.forall_fin_two.mpr ⟨fun _ => rfl, fun _ => rfl⟩
  payloadSum := by revert alpha; decide
  oSum := by decide
  hatoSum := by revert alpha; decide

/-- The error 2 in one of the blocks and its authenticated answer passes for half of the
four payloads. -/
theorem tampering_detected_toy :
    2 * (acceptedPayloads toyReplies 1 ![2, 0] ![2, 0]).card ≤ 2 ^ 2 ∧
    (acceptedPayloads toyReplies 1 ![2, 0] ![2, 0]).card = 2 ^ minExponent 2 2 ![2, 0] := by
  obtain ⟨count, half, -⟩ := tampering_detected (by decide) toyReplies 1 ![2, 0] ![2, 0]
  refine ⟨half ⟨0, by decide⟩, ?_⟩
  cases count with
  | inl none => exact absurd none (by decide)
  | inr power => exact power

/-! ## The replies of the two servers -/

/-- For the keys of `dpf_keygen` the answers of the two servers are honest replies. -/
theorem dealt_replies (dealer : Machine) (server : Fin 2 → Machine) (aes : Cipher) {n w : Nat}
    (hn : n ≤ 30) (hw : w ≤ 63) (dpfip : DpfInput)
    (indexWidth : ∀ b, (dpfip.index b).bitsize = n) (alphaWidth : ∀ b, (dpfip.alpha b).bitsize = w)
    (seeds : Fin 2 → Block) {blocks : Nat} (db : Fin blocks → Fin (2 ^ n) → GroupElement)
    (q : Fin (2 ^ n)) :
    let key := (dpfKeygen dealer w aes n w dpfip seeds).key
    let eval := fun b => dpfEvalAll (server b) w aes b (key b) (dpfip.index b) (dpfip.alpha b)
    ∃ honest : HonestReplies w (fun j => (db j q).value.toNat)
        (dpfip.alpha 0 + dpfip.alpha 1).value.toNat,
      honest.payload = dpfip.alpha ∧
      ∀ b, computeInnerProdZp (server b) w (2 ^ n) (rotateQuery (BitVec.ofNat 64 q) n dpfip.index)
        db (eval b).out = some (honest.o b, honest.hato b) := by
  intro key eval
  obtain ⟨o, hato, run, widths, sums⟩ := dealt_answers dealer server aes hn hw dpfip indexWidth
    alphaWidth seeds db q
  exact ⟨{
    payload := dpfip.alpha
    o := o
    hato := hato
    payloadWidth := alphaWidth
    oWidth := fun b j => (widths b j).1
    hatoWidth := fun b j => (widths b j).2
    payloadSum := rfl
    oSum := fun j => GroupElement.toNat_of_res (g := o 0 j + o 1 j) (widths 0 j).1 (sums j).1
    hatoSum := fun j => GroupElement.toNat_of_res (g := hato 0 j + hato 1 j) (widths 0 j).2
      ((sums j).2.trans (Nat.cast_mul _ _).symm) }, rfl, run⟩

end DpfPir
