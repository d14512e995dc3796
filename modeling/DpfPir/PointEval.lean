import DpfPir.PointFunction

/-!
# Point evaluation

`dpf_eval` walks from the root to one leaf, `dpf_eval_all` expands whole layers.
For every key, dealt or not, the walk ends at the leaf of the full expansion
whose number is the index modulo the number of leaves.

Results:
1. `evalPath_walk`: the level loop of `dpf_eval` walks the key's tree.
2. `dpfEval_eq_evalAll`: both evaluators return the same pair.
-/

namespace DpfPir

open LittleEndian Words ParallelLoop CorrectionTree

section PointEval

variable (aes : Cipher) (party : Fin 2) (idx : GroupElement) (key : DpfKey)

/-- The two ciphertexts that a step in direction `d` picks. -/
theorem child_ciphertexts (k : Block) (d : Fin 2) :
    ecbEncFourBlocks aes k ⟨2 * d, by omega⟩ = childSeed aes k d ∧
    lsb (ecbEncFourBlocks aes k ⟨2 * d + 1, by omega⟩) = childBit aes k d := by
  match d with
  | 0 => exact ⟨rfl, rfl⟩
  | 1 => exact ⟨rfl, rfl⟩

/-- One step of `dpf_eval` is a step to the child in the direction of the index bit. -/
theorem evalPath_succ {i : Nat} (hi : i < key.height) :
    let node := evalPath aes party idx key i hi.le
    let d := pathDirs key.height idx.value i
    evalPath aes party idx key (i + 1) hi =
      correctNode node.2 (childSeed aes node.1 d) (childBit aes node.1 d) (key.sigma ⟨i, hi⟩)
        (![key.tau0 ⟨i, hi⟩, key.tau1 ⟨i, hi⟩] d) := by
  intro node d
  have bit : pathBit idx.value (key.height - 1 - i) = BitVec.ofNat 8 d := pathBit_eq _ _
  have index : bitIndex (pathBit idx.value (key.height - 1 - i)) = d := by
    rw [bit, bitIndex_dir]
  have tau : (if pathBit idx.value (key.height - 1 - i) = 0#8 then key.tau0 ⟨i, hi⟩
      else key.tau1 ⟨i, hi⟩) = ![key.tau0 ⟨i, hi⟩, key.tau1 ⟨i, hi⟩] d := by
    rw [bit]
    cases d using Fin.cases with
    | zero => rfl
    | succ d => rw [Subsingleton.elim d 0]; rfl
  obtain ⟨seed, control⟩ := child_ciphertexts aes node.1 d
  rw [← seed, ← control, ← tau]
  simp only [← index]
  rfl

/-- The level loop of `dpf_eval` walks the key's tree. -/
theorem evalPath_walk : ∀ (i : Nat) (hi : i ≤ key.height),
    walk (aesGenerator aes) (keyRoot party key) (keyWords key) (pathDirs key.height idx.value) i =
      ⟨Xor.of (evalPath aes party idx key i hi).1, Xor.of (evalPath aes party idx key i hi).2⟩
  | 0, _ => rfl
  | i + 1, hi => by
    rw [walk, evalPath_walk i (Nat.le_of_succ_le hi), child_correctNode, keyWords_of_lt key hi,
      evalPath_succ aes party idx key hi]
    rfl

/-- The leaf that an index selects, modulo the number of leaves. -/
def leafOf (height : Nat) (idx : GroupElement) : Fin (2 ^ height) :=
  ⟨idx.value.toNat % 2 ^ height, Nat.mod_lt _ (Nat.two_pow_pos _)⟩

/-- The point evaluator returns what the full-domain evaluator returns at the
index, for arbitrary keys and under arbitrary schedules. -/
theorem dpfEval_eq_evalAll (m m' : Machine) (bitlength : Nat) (index payload : GroupElement)
    (bout : key.Bout.toNat ≤ 64) :
    dpfEval m aes party idx key =
      (dpfEvalAll m' bitlength aes party key index payload).out (leafOf key.height idx) := by
  have leaf : position (pathDirs key.height idx.value) key.height = leafOf key.height idx :=
    Fin.ext (position_pathDirs key.height idx.value)
  have node : keyLayer aes party key key.height (leafOf key.height idx) =
      ⟨Xor.of (evalPath aes party idx key key.height le_rfl).1,
        Xor.of (evalPath aes party idx key key.height le_rfl).2⟩ := by
    rw [← evalPath_walk aes party idx key key.height le_rfl, walk_eq_layer, leaf]
    rfl
  rw [evalAll_out, node, convert_inside aes m'.beyond m.beyond bout]
  rfl

/-- The two evaluators on the second key of a dealt pair, at an index past the leaves. -/
theorem dpfEval_eq_evalAll_toy :
    dpfEval toyDealer toyCipher 1 (GroupElement.ofValue 3#64 8) ((toyKeygen toyInput).key 1) =
      (toyEval 1).out 1 :=
  dpfEval_eq_evalAll toyCipher 1 (GroupElement.ofValue 3#64 8) ((toyKeygen toyInput).key 1) toyDealer
    (toyServers 1) 8 (toyInput.index 1) (toyInput.alpha 1) (by decide)

end PointEval

end DpfPir
