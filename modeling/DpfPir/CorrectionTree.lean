import Mathlib.Logic.Equiv.Fin.Basic
import Mathlib.Tactic.Abel
import DpfPir.Words

/-!
# Binary trees with correction words

A node carries a seed and a control bit. A generator expands a seed into two
child seeds and two child bits, and a node whose control bit is set adds the
correction word of its level to its children. Two parties grow such trees from
different roots and the same correction words.

Results:
1. `layer_child`: the layer below a node is the node's corrected expansion, so a
   walk along a path meets the nodes of the full layers (`walk_eq_layer`).
2. `Differ.next`: if two layers agree except at `p`, where their control bits
   differ, and the correction word fits the two layers and the direction `d`,
   the next layers agree except at the child `d` of `p`, where the bits differ.
   `differ_layer` iterates this along the path.
3. `words_unique`: the fitting correction words are determined by the roots and
   the path.
4. `Differ.shares`: with the final correction word that fits the leaf sums, the
   leaf shares of the two parties add up to the point function.
-/

namespace CorrectionTree

open Words

@[ext] structure Node (S B : Type*) where
  seed : S
  bit : B

/-- The correction word of one level: a seed correction and one bit correction
for each of the two children. -/
@[ext] structure Word (S B : Type*) where
  sigma : S
  tau : Fin 2 → B

/-- A generator over two groups of exponent two, with bits in `{0, one}`. -/
structure Generator (S B : Type*) [AddCommGroup S] [AddCommGroup B] where
  seed : S → Fin 2 → S
  bit : S → Fin 2 → B
  one : B
  one_ne_zero : one ≠ 0
  seed_self : ∀ s : S, s + s = 0
  bit_self : ∀ b : B, b + b = 0
  bit_cases : ∀ s d, bit s d = 0 ∨ bit s d = one

variable {S B : Type*} [AddCommGroup S] [AddCommGroup B] [DecidableEq B] (G : Generator S B)

/-- The child of a node in direction `d`. -/
def child (w : Word S B) (n : Node S B) (d : Fin 2) : Node S B :=
  if n.bit = G.one then ⟨G.seed n.seed d + w.sigma, G.bit n.seed d + w.tau d⟩
  else ⟨G.seed n.seed d, G.bit n.seed d⟩

/-- The children of a whole layer, left to right. -/
def next {n : Nat} (w : Word S B) (L : Fin n → Node S B) (j : Fin (n * 2)) : Node S B :=
  child G w (L j.divNat) j.modNat

/-- The layer of depth `i` below a root. -/
def layer (root : Node S B) (words : Nat → Word S B) : (i : Nat) → Fin (2 ^ i) → Node S B
  | 0 => fun _ => root
  | i + 1 => next G (words i) (layer root words i)

/-- The node that a walk along the directions `dir` meets at depth `i`. -/
def walk (root : Node S B) (words : Nat → Word S B) (dir : Nat → Fin 2) : Nat → Node S B
  | 0 => root
  | i + 1 => child G (words i) (walk root words dir i) (dir i)

/-- The index of the child `d` of the node with index `p`. -/
def childIndex {n : Nat} (p : Fin n) (d : Fin 2) : Fin (n * 2) := finProdFinEquiv (p, d)

/-- The index, within its layer, of the node that the directions lead to. -/
def position (dir : Nat → Fin 2) : (i : Nat) → Fin (2 ^ i)
  | 0 => 0
  | i + 1 => childIndex (position dir i) (dir i)

/-- The sum of the child seeds in direction `d` over a layer. -/
def seedSum {n : Nat} (L : Fin n → Node S B) (d : Fin 2) : S := ∑ j, G.seed (L j).seed d

/-- The sum of the child bits in direction `d` over a layer. -/
def bitSum {n : Nat} (L : Fin n → Node S B) (d : Fin 2) : B := ∑ j, G.bit (L j).seed d

/-- `w` is the correction word of two layers whose special path continues in
direction `d`: it cancels the two trees on the other side. -/
structure Correct {n : Nat} (L0 L1 : Fin n → Node S B) (w : Word S B) (d : Fin 2) : Prop where
  sigma : w.sigma = seedSum G L0 (d + 1) + seedSum G L1 (d + 1)
  tau : ∀ b, w.tau b = bitSum G L0 b + bitSum G L1 b + if b = d then G.one else 0

def IsBit (b : B) : Prop := b = 0 ∨ b = G.one

/-- Two layers that agree except at `p`, where exactly one control bit is set. -/
structure Differ {n : Nat} (L0 L1 : Fin n → Node S B) (p : Fin n) : Prop where
  agree : ∀ j, j ≠ p → L0 j = L1 j
  isBit0 : ∀ j, IsBit G (L0 j).bit
  isBit1 : ∀ j, IsBit G (L1 j).bit
  apart : (L0 p).bit + (L1 p).bit = G.one

/-! ## Indices -/

@[simp] theorem divNat_childIndex {n : Nat} (p : Fin n) (d : Fin 2) :
    (childIndex p d).divNat = p :=
  congrArg Prod.fst (finProdFinEquiv.symm_apply_apply (p, d))

@[simp] theorem modNat_childIndex {n : Nat} (p : Fin n) (d : Fin 2) :
    (childIndex p d).modNat = d :=
  congrArg Prod.snd (finProdFinEquiv.symm_apply_apply (p, d))

@[simp] theorem childIndex_divNat_modNat {n : Nat} (j : Fin (n * 2)) :
    childIndex j.divNat j.modNat = j :=
  finProdFinEquiv.apply_symm_apply j

theorem childIndex_val {n : Nat} (p : Fin n) (d : Fin 2) :
    (childIndex p d).val = 2 * p.val + d.val := by
  rw [childIndex, finProdFinEquiv_apply_val, Nat.add_comm]

/-- Directions read off the binary digits of `x`, highest of `h` first, lead to
the leaf `x % 2 ^ h`. -/
theorem position_val {h : Nat} {dir : Nat → Fin 2} {x : Nat}
    (digits : ∀ i, i < h → (dir i).val = x / 2 ^ (h - 1 - i) % 2) :
    ∀ i, i ≤ h → (position dir i).val = x / 2 ^ (h - i) % 2 ^ i
  | 0, _ => by simp [position, Nat.mod_one]
  | i + 1, hi => by
    have halved : x / 2 ^ (h - i) = x / 2 ^ (h - (i + 1)) / 2 := by
      rw [show h - i = h - (i + 1) + 1 by omega, Nat.pow_succ, Nat.div_div_eq_div_mul]
    have digit : (dir i).val = x / 2 ^ (h - (i + 1)) % 2 := by
      rw [digits i (by omega), show h - 1 - i = h - (i + 1) by omega]
    rw [position, childIndex_val, position_val digits i (by omega), digit, halved, Nat.pow_succ,
      Nat.mul_comm (2 ^ i) 2, Nat.mod_mul, Nat.add_comm]

/-! ## Layers and walks -/

theorem layer_child (root : Node S B) (words : Nat → Word S B) (i : Nat) (p : Fin (2 ^ i))
    (d : Fin 2) :
    layer G root words (i + 1) (childIndex p d) = child G (words i) (layer G root words i p) d := by
  show child G (words i) (layer G root words i (childIndex p d).divNat) (childIndex p d).modNat = _
  rw [divNat_childIndex, modNat_childIndex]

/-- A walk along single nodes meets the nodes of the full layers. -/
theorem walk_eq_layer (root : Node S B) (words : Nat → Word S B) (dir : Nat → Fin 2) (i : Nat) :
    walk G root words dir i = layer G root words i (position dir i) := by
  induction i with
  | zero => rfl
  | succ i ih => rw [walk, ih, position, layer_child]

theorem layer_congr {root : Node S B} {words words' : Nat → Word S B} {h : Nat}
    (same : ∀ i, i < h → words i = words' i) :
    ∀ i, i ≤ h → layer G root words i = layer G root words' i
  | 0, _ => rfl
  | i + 1, hi => by
    rw [layer, layer, layer_congr same i (by omega), same i (by omega)]

/-! ## Bits -/

section Bits

omit [DecidableEq B]

theorem isBit_add {a b : B} (ha : IsBit G a) (hb : IsBit G b) : IsBit G (a + b) := by
  cases ha with
  | inl ha => rw [ha, zero_add]; exact hb
  | inr ha =>
    cases hb with
    | inl hb => rw [ha, hb, add_zero]; exact Or.inr rfl
    | inr hb => rw [ha, hb, G.bit_self]; exact Or.inl rfl

theorem isBit_sum {ι : Type*} [Fintype ι] {f : ι → B} (hf : ∀ i, IsBit G (f i)) :
    IsBit G (∑ i, f i) :=
  Finset.sum_induction f (IsBit G) (fun _ _ => isBit_add G) (Or.inl rfl) (fun i _ => hf i)

theorem isBit_bitSum {n : Nat} (L : Fin n → Node S B) (d : Fin 2) : IsBit G (bitSum G L d) :=
  isBit_sum G fun j => G.bit_cases (L j).seed d

include G in
theorem seed_sub (a b : S) : a - b = a + b := by
  rw [sub_eq_iff_eq_add, add_assoc, G.seed_self, add_zero]

include G in
theorem bit_sub (a b : B) : a - b = a + b := by
  rw [sub_eq_iff_eq_add, add_assoc, G.bit_self, add_zero]

end Bits

/-! ## The two-tree invariant -/

section TwoTrees

variable {G} {n : Nat} {L0 L1 : Fin n → Node S B} {w : Word S B} {p : Fin n} {d : Fin 2}

omit [DecidableEq B] in
theorem Correct.symm (fits : Correct G L0 L1 w d) : Correct G L1 L0 w d where
  sigma := by rw [fits.sigma, add_comm]
  tau b := by rw [fits.tau b, add_comm (bitSum G L0 b)]

omit [DecidableEq B] in
theorem Differ.symm (h : Differ G L0 L1 p) : Differ G L1 L0 p where
  agree j hj := (h.agree j hj).symm
  isBit0 := h.isBit1
  isBit1 := h.isBit0
  apart := by rw [add_comm, h.apart]

omit [DecidableEq B] in
/-- Exactly one of the two control bits at the special node is set. -/
theorem Differ.one_set (h : Differ G L0 L1 p) :
    ((L0 p).bit = G.one ∧ (L1 p).bit = 0) ∨ ((L0 p).bit = 0 ∧ (L1 p).bit = G.one) := by
  have apart := h.apart
  rcases h.isBit0 p with off | on
  · rw [off, zero_add] at apart
    exact Or.inr ⟨off, apart⟩
  · refine Or.inl ⟨on, ?_⟩
    rw [on] at apart
    exact add_eq_left.mp apart

omit [DecidableEq B] in
/-- On layers that differ at one node, the correction word depends on that node only. -/
theorem Correct.at_node (fits : Correct G L0 L1 w d) (h : Differ G L0 L1 p) :
    w.sigma = G.seed (L0 p).seed (d + 1) + G.seed (L1 p).seed (d + 1) ∧
    ∀ b, w.tau b = G.bit (L0 p).seed b + G.bit (L1 p).seed b + if b = d then G.one else 0 := by
  constructor
  -- every other term of the two sums cancels
  · rw [fits.sigma, ← seed_sub G, ← seed_sub G]
    exact sum_sub_sum_of_agree p fun j hj => by rw [h.agree j hj]
  · intro b
    have bits : bitSum G L0 b + bitSum G L1 b =
        G.bit (L0 p).seed b + G.bit (L1 p).seed b := by
      rw [← bit_sub G, ← bit_sub G]
      exact sum_sub_sum_of_agree p fun j hj => by rw [h.agree j hj]
    rw [fits.tau b, bits]

/-- On the side off the path the corrected expansion of the first tree becomes
the plain expansion of the second. -/
theorem child_off_path {n0 n1 : Node S B} (on : n0.bit = G.one) (off : n1.bit = 0)
    {b : Fin 2} (sigma : w.sigma = G.seed n0.seed b + G.seed n1.seed b)
    (tau : w.tau b = G.bit n0.seed b + G.bit n1.seed b) : child G w n0 b = child G w n1 b := by
  have clear : n1.bit ≠ G.one := off ▸ G.one_ne_zero.symm
  rw [child, child, if_pos on, if_neg clear, sigma, tau, ← add_assoc, ← add_assoc, G.seed_self,
    G.bit_self, zero_add, zero_add]

theorem child_on_path {n0 n1 : Node S B} (on : n0.bit = G.one) (off : n1.bit = 0)
    (tau : w.tau d = G.bit n0.seed d + G.bit n1.seed d + G.one) :
    (child G w n0 d).bit + (child G w n1 d).bit = G.one := by
  have clear : n1.bit ≠ G.one := off ▸ G.one_ne_zero.symm
  rw [child, child, if_pos on, if_neg clear]
  show G.bit n0.seed d + w.tau d + G.bit n1.seed d = G.one
  calc G.bit n0.seed d + w.tau d + G.bit n1.seed d
      = (G.bit n0.seed d + G.bit n0.seed d) + (G.bit n1.seed d + G.bit n1.seed d) + G.one := by
        rw [tau]; abel
    _ = G.one := by rw [G.bit_self, G.bit_self, zero_add, zero_add]

theorem child_agree (fits : Correct G L0 L1 w d) (h : Differ G L0 L1 p) {b : Fin 2}
    (side : b ≠ d) : child G w (L0 p) b = child G w (L1 p) b := by
  have opposite : d + 1 = b := by omega
  obtain ⟨sigma, tau⟩ := fits.at_node h
  have tau' : w.tau b = G.bit (L0 p).seed b + G.bit (L1 p).seed b := by
    rw [tau b, if_neg side, add_zero]
  rw [opposite] at sigma
  rcases h.one_set with ⟨on, off⟩ | ⟨off, on⟩
  · exact child_off_path on off sigma tau'
  · exact (child_off_path on off (sigma.trans (add_comm _ _)) (tau'.trans (add_comm _ _))).symm

theorem child_apart (fits : Correct G L0 L1 w d) (h : Differ G L0 L1 p) :
    (child G w (L0 p) d).bit + (child G w (L1 p) d).bit = G.one := by
  obtain ⟨-, tau⟩ := fits.at_node h
  have tau' : w.tau d = G.bit (L0 p).seed d + G.bit (L1 p).seed d + G.one := by
    rw [tau d, if_pos rfl]
  rcases h.one_set with ⟨on, off⟩ | ⟨off, on⟩
  · exact child_on_path on off tau'
  · rw [add_comm]
    refine child_on_path on off ?_
    rw [tau', add_comm (G.bit (L0 p).seed d)]

theorem isBit_child (tau : ∀ b, IsBit G (w.tau b)) (m : Node S B) (b : Fin 2) :
    IsBit G (child G w m b).bit := by
  unfold child
  split
  · exact isBit_add G (G.bit_cases m.seed b) (tau b)
  · exact G.bit_cases m.seed b

/-- Without a seed correction a child gets the seed of the plain expansion. -/
theorem child_seed_of_sigma (zero : w.sigma = 0) (m : Node S B) (b : Fin 2) :
    (child G w m b).seed = G.seed m.seed b := by
  unfold child
  split
  · show G.seed m.seed b + w.sigma = _
    rw [zero, add_zero]
  · rfl

omit [DecidableEq B] in
/-- Between layers with the same seeds there is nothing to correct. -/
theorem Correct.sigma_eq_zero (fits : Correct G L0 L1 w d)
    (same : ∀ j, (L0 j).seed = (L1 j).seed) : w.sigma = 0 := by
  rw [fits.sigma]
  simp only [seedSum, same]
  exact G.seed_self _

omit [DecidableEq B] in
theorem Correct.isBit_tau (fits : Correct G L0 L1 w d) (b : Fin 2) : IsBit G (w.tau b) := by
  rw [fits.tau b]
  refine isBit_add G (isBit_add G (isBit_bitSum G L0 b) (isBit_bitSum G L1 b)) ?_
  split
  · exact Or.inr rfl
  · exact Or.inl rfl

/-- One level: the special node moves to its child in direction `d`. -/
theorem Differ.next (h : Differ G L0 L1 p) (fits : Correct G L0 L1 w d) :
    Differ G (next G w L0) (next G w L1) (childIndex p d) where
  agree j hj := by
    show child G w (L0 j.divNat) j.modNat = child G w (L1 j.divNat) j.modNat
    -- a child of the special node agrees off the path only, all others have equal parents
    by_cases parent : j.divNat = p
    · have side : j.modNat ≠ d := by
        intro same
        exact hj (by rw [← childIndex_divNat_modNat j, parent, same])
      rw [parent]
      exact child_agree fits h side
    · rw [h.agree _ parent]
  isBit0 j := isBit_child fits.isBit_tau _ _
  isBit1 j := isBit_child fits.isBit_tau _ _
  apart := by
    show (child G w (L0 (childIndex p d).divNat) (childIndex p d).modNat).bit +
      (child G w (L1 (childIndex p d).divNat) (childIndex p d).modNat).bit = G.one
    rw [divNat_childIndex, modNat_childIndex]
    exact child_apart fits h

omit [DecidableEq B] in
theorem Correct.unique {w' : Word S B} (fits : Correct G L0 L1 w d)
    (fits' : Correct G L0 L1 w' d) : w = w' := by
  refine Word.ext ?_ ?_
  · rw [fits.sigma, fits'.sigma]
  · funext b
    rw [fits.tau, fits'.tau]

end TwoTrees

/-! ## Whole runs -/

section Runs

variable {G} {root0 root1 : Node S B} {words : Nat → Word S B} {dir : Nat → Fin 2} {h : Nat}

/-- The correction words of the first `h` levels fit the trees that they grow. -/
def Corrects (G : Generator S B) (root0 root1 : Node S B) (words : Nat → Word S B)
    (dir : Nat → Fin 2) (h : Nat) : Prop :=
  ∀ i, i < h → Correct G (layer G root0 words i) (layer G root1 words i) (words i) (dir i)

/-- The control bits of a tree are bits when the root's is and the words' are. -/
theorem isBit_layer (bit : IsBit G root0.bit)
    (tau : ∀ i, i < h → ∀ b, IsBit G ((words i).tau b)) :
    ∀ i, i ≤ h → ∀ j, IsBit G (layer G root0 words i j).bit
  | 0, _, _ => bit
  | i + 1, hi, j => isBit_child (tau i hi) (layer G root0 words i j.divNat) j.modNat

/-- From roots with bits 0 and `one`, fitting correction words keep the layers
equal off the path and the control bits apart on it. -/
theorem differ_layer (bit0 : root0.bit = 0) (bit1 : root1.bit = G.one)
    (fits : Corrects G root0 root1 words dir h) :
    ∀ i, i ≤ h → Differ G (layer G root0 words i) (layer G root1 words i) (position dir i)
  | 0, _ =>
    { agree := fun j hj => absurd (Subsingleton.elim (α := Fin 1) j _) hj
      isBit0 := fun _ => Or.inl bit0
      isBit1 := fun _ => Or.inr bit1
      apart := by simp [layer, bit0, bit1] }
  | i + 1, hi => (differ_layer bit0 bit1 fits i (by omega)).next (fits i (by omega))

theorem Corrects.congr {words' : Nat → Word S B} (fits : Corrects G root0 root1 words dir h)
    (same : ∀ i, i < h → words i = words' i) : Corrects G root0 root1 words' dir h := by
  intro i hi
  have fit := fits i hi
  rwa [layer_congr G same i hi.le, layer_congr G same i hi.le, same i hi] at fit

/-- Two sequences of fitting correction words over the same roots and the same
path are equal. -/
theorem words_unique {words' : Nat → Word S B} (fits : Corrects G root0 root1 words dir h)
    (fits' : Corrects G root0 root1 words' dir h) : ∀ i, i < h → words i = words' i := by
  intro i
  induction i using Nat.strong_induction_on with
  | _ i ih =>
    intro hi
    -- both words of level `i` fit the same layers, since all words above are equal
    have same : ∀ k, k < i → words k = words' k := fun k hk => ih k hk (by omega)
    have fit := fits i hi
    rw [layer_congr G same i le_rfl, layer_congr G same i le_rfl] at fit
    exact fit.unique (fits' i hi)

end Runs

/-! ## Leaves -/

section Leaves

variable {G} {n : Nat} {L0 L1 : Fin n → Node S B} {p : Fin n} {M : Type*} [AddCommGroup M]

/-- The sum over a layer of an output derived from each seed. -/
def leafSum (conv : S → M) (L : Fin n → Node S B) : M := ∑ j, conv (L j).seed

/-- The number that a leaf contributes to a party's output before its sign. -/
def leafShare (conv : S → M) (gamma : M) (m : Node S B) : M :=
  if m.bit = 0 then conv m.seed else conv m.seed + gamma

/-- The final correction word for the output `beta`, by the party whose control
bit is set at the special leaf. -/
def finalWord (second : Bool) (sum0 sum1 beta : M) : M :=
  if second then sum0 - beta - sum1 else beta - sum0 + sum1

/-- The leaf shares add up to the point function with value `beta` at `p`. -/
theorem Differ.shares (h : Differ G L0 L1 p) (conv : S → M) {second : Bool} {beta gamma : M}
    (which : second = true ↔ (L1 p).bit = G.one)
    (final : gamma = finalWord second (leafSum conv L0) (leafSum conv L1) beta) (j : Fin n) :
    leafShare conv gamma (L0 j) - leafShare conv gamma (L1 j) = if j = p then beta else 0 := by
  by_cases leaf : j = p
  · have sums : leafSum conv L0 - leafSum conv L1 = conv (L0 p).seed - conv (L1 p).seed :=
      sum_sub_sum_of_agree p fun i hi => by rw [h.agree i hi]
    subst leaf
    rw [if_pos rfl, final, finalWord, leafShare, leafShare]
    rcases h.one_set with ⟨on, off⟩ | ⟨off, on⟩
    -- the first party corrects the special leaf: its sum enters negated
    · have first : second ≠ true := fun set => G.one_ne_zero ((which.mp set).symm.trans off)
      rw [if_neg (on ▸ G.one_ne_zero), if_pos off, if_neg first]
      calc conv (L0 j).seed + (beta - leafSum conv L0 + leafSum conv L1) - conv (L1 j).seed
          = conv (L0 j).seed - conv (L1 j).seed - (leafSum conv L0 - leafSum conv L1) + beta := by
            abel
        _ = beta := by rw [sums, sub_self, zero_add]
    -- the second party corrects it
    · rw [if_pos off, if_neg (on ▸ G.one_ne_zero), if_pos (which.mpr on)]
      calc conv (L0 j).seed - (conv (L1 j).seed + (leafSum conv L0 - beta - leafSum conv L1))
          = conv (L0 j).seed - conv (L1 j).seed - (leafSum conv L0 - leafSum conv L1) + beta := by
            abel
        _ = beta := by rw [sums, sub_self, zero_add]
  · rw [if_neg leaf, h.agree j leaf, sub_self]

/-- The count of set bits tells which party's control bit is set at `p`. -/
theorem Differ.count_lt (h : Differ G L0 L1 p) (val : B → ℤ) (zero : val 0 = 0)
    (one : val G.one = 1) :
    (∑ j, val (L0 j).bit) < ∑ j, val (L1 j).bit ↔ (L1 p).bit = G.one := by
  have diff : (∑ j, val (L0 j).bit) - ∑ j, val (L1 j).bit = val (L0 p).bit - val (L1 p).bit :=
    sum_sub_sum_of_agree p fun i hi => by rw [h.agree i hi]
  rcases h.one_set with ⟨on, off⟩ | ⟨off, on⟩
  · rw [on, off, zero, one] at diff
    constructor
    · intro lt; omega
    · intro set; exact absurd (set.symm.trans off) G.one_ne_zero
  · rw [off, on, zero, one] at diff
    exact ⟨fun _ => on, fun _ => by omega⟩

end Leaves

end CorrectionTree
