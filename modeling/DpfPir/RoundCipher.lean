import Mathlib.Algebra.BigOperators.Group.Finset.Basic
import Mathlib.Algebra.BigOperators.Group.Finset.Lemmas
import Mathlib.Algebra.Group.Fin.Basic
import Mathlib.Algebra.Group.Hom.End
import Mathlib.Algebra.Group.Units.Equiv
import Mathlib.Algebra.BigOperators.Fin
import Mathlib.Tactic.NoncommRing

/-!
# Round ciphers

A cipher that alternates round keys with a layer of substitutions and a linear mixing
layer, over a group of exponent two, and the cipher that undoes it with the same order
of layers in each round.

Results:
1. `Layers.undo_encrypt`: running the inverse layers over the round keys in reverse, the
   inner ones unmixed, undoes the cipher, for any number of rounds.
2. `circulate_circulate`: mixing with one circulant of endomorphisms after another is
   mixing with their cyclic convolution.
3. `unmixing_mixing`: over a ring in which `2 = 0` the circulant of `x`, `x + 1`, 1, 1 has
   an inverse, whatever `x` is.
-/

namespace RoundCipher

/-! ## Ciphers and their inverses -/

/-- The two layers of a round, with their inverses. Both linear layers commute with
adding a key. -/
structure Layers (V : Type*) [AddCommGroup V] where
  sub : V → V
  unsub : V → V
  mix : V → V
  unmix : V → V
  unsub_sub : ∀ v, unsub (sub v) = v
  sub_unsub : ∀ v, sub (unsub v) = v
  unmix_mix : ∀ v, unmix (mix v) = v
  mix_unmix : ∀ v, mix (unmix v) = v
  mix_add : ∀ a b, mix (a + b) = mix a + mix b
  unmix_add : ∀ a b, unmix (a + b) = unmix a + unmix b
  add_self : ∀ v : V, v + v = 0

namespace Layers

variable {V : Type*} [AddCommGroup V] (L : Layers V)

/-- One full round. -/
def round (v key : V) : V := L.mix (L.sub v) + key

/-- The whole cipher: a key, the full rounds, and a last round that does not mix. -/
def encrypt (first : V) (middle : List V) (last v : V) : V :=
  L.sub (middle.foldl L.round (v + first)) + last

/-- The layers of the inverse cipher. -/
def inverse : Layers V where
  sub := L.unsub
  unsub := L.sub
  mix := L.unmix
  unmix := L.mix
  unsub_sub := L.sub_unsub
  sub_unsub := L.unsub_sub
  unmix_mix := L.mix_unmix
  mix_unmix := L.unmix_mix
  mix_add := L.unmix_add
  unmix_add := L.mix_add
  add_self := L.add_self

include L in
theorem add_add_self (a b : V) : a + b + b = a := by
  rw [add_assoc, L.add_self, add_zero]

/-- An inverse round takes the substituted output of a round to its substituted input. -/
theorem inverse_round (v key : V) :
    L.inverse.round (L.sub (L.round v key)) (L.unmix key) = L.sub v := by
  show L.unmix (L.unsub (L.sub (L.mix (L.sub v) + key))) + L.unmix key = L.sub v
  rw [L.unsub_sub, L.unmix_add, L.unmix_mix, L.add_add_self]

theorem inverse_rounds (middle : List V) (v : V) :
    (middle.reverse.map L.unmix).foldl L.inverse.round (L.sub (middle.foldl L.round v)) =
      L.sub v := by
  induction middle generalizing v with
  | nil => rfl
  | cons key rest ih =>
    rw [List.reverse_cons, List.map_append, List.foldl_append, List.foldl_cons, ih]
    exact L.inverse_round v key

/-- The inverse layers undo the cipher. -/
theorem undo_encrypt (first : V) (middle : List V) (last v : V) :
    L.inverse.encrypt last (middle.reverse.map L.unmix) first (L.encrypt first middle last v) =
      v := by
  show L.unsub ((middle.reverse.map L.unmix).foldl L.inverse.round
    (L.sub (middle.foldl L.round (v + first)) + last + last)) + first = v
  rw [L.add_add_self, L.inverse_rounds, L.unsub_sub, L.add_add_self]

/-- And the cipher undoes them. -/
theorem encrypt_undo (first : V) (middle : List V) (last v : V) :
    L.encrypt first middle last
      (L.inverse.encrypt last (middle.reverse.map L.unmix) first v) = v := by
  have undone := L.inverse.undo_encrypt last (middle.reverse.map L.unmix) first v
  have keys : (middle.reverse.map L.unmix).reverse.map L.inverse.unmix = middle := by
    rw [← List.map_reverse, List.reverse_reverse, List.map_map]
    refine (List.map_congr_left fun key _ => L.mix_unmix key).trans (List.map_id _)
  rwa [keys] at undone

end Layers

/-! ## Circulant mixing -/

section Circulant

variable {ι A : Type*} [Fintype ι] [AddCommGroup ι] [AddCommGroup A]

/-- Mixing the cells of a cycle: cell `r` becomes a sum over the cells from `r` on. -/
def circulate (coeff : ι → AddMonoid.End A) (a : ι → A) (r : ι) : A :=
  ∑ k, coeff k (a (r + k))

theorem circulate_add (coeff : ι → AddMonoid.End A) (a b : ι → A) :
    circulate coeff (a + b) = circulate coeff a + circulate coeff b := by
  funext r
  simp only [circulate, Pi.add_apply, map_add, Finset.sum_add_distrib]

/-- The coefficients of two mixings in a row. -/
def convolve {R : Type*} [Ring R] (outer inner : ι → R) (s : ι) : R :=
  ∑ k, outer k * inner (s - k)

theorem circulate_circulate (outer inner : ι → AddMonoid.End A) (a : ι → A) :
    circulate outer (circulate inner a) = circulate (convolve outer inner) a := by
  funext r
  calc ∑ k, outer k (∑ l, inner l (a (r + k + l)))
      = ∑ k, ∑ l, outer k (inner l (a (r + k + l))) := by simp only [map_sum]
    _ = ∑ k, ∑ s, outer k (inner (s - k) (a (r + s))) := by
        refine Finset.sum_congr rfl fun k _ => ?_
        refine Fintype.sum_equiv (Equiv.addLeft k) _ _ fun l => ?_
        rw [Equiv.coe_addLeft, add_sub_cancel_left, add_assoc]
    _ = ∑ s, ∑ k, outer k (inner (s - k) (a (r + s))) := Finset.sum_comm
    _ = ∑ s, convolve outer inner s (a (r + s)) := by
        refine Finset.sum_congr rfl fun s _ => ?_
        exact (AddMonoidHom.finsetSum_apply (fun k => outer k * inner (s - k)) Finset.univ
          (a (r + s))).symm

variable [DecidableEq ι]

/-- A mixing whose coefficients convolve to a single 1 is undone. -/
theorem circulate_inverse {outer inner : ι → AddMonoid.End A}
    (unit : ∀ s, convolve outer inner s = if s = 0 then 1 else 0) (a : ι → A) :
    circulate outer (circulate inner a) = a := by
  rw [circulate_circulate]
  funext r
  calc ∑ s, convolve outer inner s (a (r + s))
      = ∑ s : ι, if s = 0 then a r else 0 := by
        refine Finset.sum_congr rfl fun s _ => ?_
        rw [unit s]
        by_cases zero : s = 0
        · rw [if_pos zero, if_pos zero, zero, add_zero]
          rfl
        · rw [if_neg zero, if_neg zero]
          rfl
    _ = a r := by rw [Finset.sum_ite_eq', if_pos (Finset.mem_univ _)]

end Circulant

/-! ## A mixing of four cells -/

section FourCells

variable {R : Type*} [Ring R]

def mixing (x : R) : Fin 4 → R := ![x, x + 1, 1, 1]

def unmixing (x : R) : Fin 4 → R :=
  ![x ^ 3 + x ^ 2 + x, x ^ 3 + x + 1, x ^ 3 + x ^ 2 + 1, x ^ 3 + 1]

/-- A polynomial identity that needs no relation for `x`. -/
theorem unmixing_mixing (two : (2 : R) = 0) (x : R) (s : Fin 4) :
    convolve (unmixing x) (mixing x) s = (if s = 0 then 1 else 0) ∧
    convolve (mixing x) (unmixing x) s = if s = 0 then 1 else 0 := by
  have even : ∀ y : R, 2 * y = 0 := fun y => by rw [two, zero_mul]
  have cells : convolve (unmixing x) (mixing x) s =
        2 * ![x ^ 4 + 2 * x ^ 3 + x ^ 2 + x + 1, x ^ 4 + 2 * x ^ 3 + 2 * x ^ 2 + x + 1,
          x ^ 4 + 2 * x ^ 3 + x ^ 2 + 2 * x + 1, x ^ 4 + 2 * x ^ 3 + x ^ 2 + 2 * x + 1] s +
          (if s = 0 then 1 else 0) ∧
      convolve (mixing x) (unmixing x) s = convolve (unmixing x) (mixing x) s := by
    unfold convolve
    rw [Fin.sum_univ_four, Fin.sum_univ_four]
    revert s
    refine Fin.forall_fin_succ.mpr ⟨?_, Fin.forall_fin_succ.mpr ⟨?_, ?_⟩⟩
    on_goal 3 => refine Fin.forall_fin_two.mpr ⟨?_, ?_⟩
    all_goals
      simp [mixing, unmixing]
      constructor <;> noncomm_ring
  rw [even, zero_add] at cells
  exact ⟨cells.1, cells.2.trans cells.1⟩

end FourCells

end RoundCipher
