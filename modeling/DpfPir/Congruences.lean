import Mathlib.Algebra.GCDMonoid.Finset
import Mathlib.Algebra.GCDMonoid.Nat
import Mathlib.Data.Int.CardIntervalMod
import Mathlib.Data.Nat.Prime.Basic

/-!
# Simultaneous linear congruences

A system `a * e j ≡ f j` in one unknown `a`, for any number of indices `j`, modulo a
number `n` for which the coefficients need not be invertible.

Results:
1. `mul_modEq_mul_iff`: all `e j` identify two numbers modulo `n` exactly when they are
   congruent modulo `n` divided by its greatest common divisor with the coefficients.
2. `card_solutions`: so the system has no solution below `n`, or that divisor many.
3. `gcd_pow_eq`: modulo a power of a prime the divisor is the prime to the least exponent
   with which it divides a coefficient.
-/

namespace Congruences

variable {ι : Type*} [Fintype ι]

/-- The numbers below `n` that solve the system. -/
def solutions (n : Nat) (e f : ι → Nat) : Finset Nat :=
  (Finset.range n).filter fun a => ∀ j, a * e j ≡ f j [MOD n]

theorem mem_solutions {n : Nat} {e f : ι → Nat} {a : Nat} :
    a ∈ solutions n e f ↔ a < n ∧ ∀ j, a * e j ≡ f j [MOD n] := by
  rw [solutions, Finset.mem_filter, Finset.mem_range]

/-! ## The number of solutions -/

theorem mul_modEq_mul_iff {n : Nat} (pos : 0 < n) (e : ι → Nat) (a b : Nat) :
    (∀ j, a * e j ≡ b * e j [MOD n]) ↔ a ≡ b [MOD n / n.gcd (Finset.univ.gcd e)] := by
  let d := ((b : ℤ) - a).natAbs
  have each : ∀ j, a * e j ≡ b * e j [MOD n] ↔ n ∣ d * e j := by
    intro j
    rw [Nat.modEq_iff_dvd, Nat.cast_mul, Nat.cast_mul, ← sub_mul, Int.natCast_dvd, Int.natAbs_mul,
      Int.natAbs_natCast]
  have distance : a ≡ b [MOD n / n.gcd (Finset.univ.gcd e)] ↔
      n / n.gcd (Finset.univ.gcd e) ∣ d := by
    rw [Nat.modEq_iff_dvd, Int.natCast_dvd]
  have common : (∀ j, n ∣ d * e j) ↔ n ∣ Finset.univ.gcd e * d := by
    have factored : Finset.univ.gcd (fun j => d * e j) = d * Finset.univ.gcd e := by
      rw [Finset.gcd_mul_left, normalize_eq]
    rw [mul_comm, ← factored, Finset.dvd_gcd_iff]
    exact ⟨fun all j _ => all j, fun all j => all j (Finset.mem_univ j)⟩
  rw [distance, Nat.div_dvd_iff_dvd_mul (Nat.gcd_dvd_left _ _) (Nat.gcd_pos_of_pos_left _ pos),
    Nat.dvd_gcd_mul_iff_dvd_mul, ← common]
  exact forall_congr' each

/-- A system with a solution has as many as its coefficients have divisors in common
with the modulus. -/
theorem card_solutions {n : Nat} (pos : 0 < n) (e f : ι → Nat) :
    (solutions n e f).card = 0 ∨ (solutions n e f).card = n.gcd (Finset.univ.gcd e) := by
  rcases (solutions n e f).eq_empty_or_nonempty with none | ⟨a, found⟩
  · exact Or.inl (Finset.card_eq_zero.mpr none)
  · right
    obtain ⟨-, solves⟩ := mem_solutions.mp found
    -- the solutions are the residue class of one of them
    have others : solutions n e f =
        (Finset.range n).filter (· ≡ a [MOD n / n.gcd (Finset.univ.gcd e)]) := by
      refine Finset.filter_congr fun b _ => ?_
      rw [← mul_modEq_mul_iff pos]
      exact forall_congr' fun j => ⟨fun h => h.trans (solves j).symm, fun h => h.trans (solves j)⟩
    have divides : n.gcd (Finset.univ.gcd e) ∣ n := Nat.gcd_dvd_left _ _
    have positive : 0 < n.gcd (Finset.univ.gcd e) := Nat.gcd_pos_of_pos_left _ pos
    have whole : n % (n / n.gcd (Finset.univ.gcd e)) = 0 :=
      Nat.mod_eq_zero_of_dvd (Nat.div_dvd_of_dvd divides)
    rw [others, ← Nat.count_eq_card_filter_range,
      Nat.count_modEq_card _ (Nat.div_pos (Nat.le_of_dvd pos divides) positive), whole,
      if_neg (Nat.not_lt_zero _), add_zero, Nat.div_div_self divides pos.ne']

/-- Without coefficients every right side must vanish. -/
theorem solutions_eq_empty {n : Nat} {e f : ι → Nat} (zero : ∀ j, n ∣ e j) {j : ι}
    (nonzero : ¬ n ∣ f j) : solutions n e f = ∅ := by
  refine Finset.eq_empty_of_forall_notMem fun a mem => nonzero ?_
  obtain ⟨-, solves⟩ := mem_solutions.mp mem
  exact ((solves j).dvd_iff dvd_rfl).mp ((zero j).mul_left a)

/-! ## Powers of a prime -/

/-- The exponent of the largest power of `p`, up to `p ^ L`, that divides `e`. Zero is
divisible by all of them. -/
def exponent (p L e : Nat) : Nat := Nat.findGreatest (fun k => p ^ k ∣ e) L

/-- The least exponent over a family, and `L` for an empty one. -/
def minExponent (p L : Nat) (e : ι → Nat) : Nat :=
  Finset.univ.fold min L fun j => exponent p L (e j)

section PrimePower

variable {p L k : Nat} {e : ι → Nat}

theorem le_exponent_iff (hk : k ≤ L) (x : Nat) : k ≤ exponent p L x ↔ p ^ k ∣ x := by
  constructor
  · intro low
    have largest : p ^ exponent p L x ∣ x :=
      Nat.findGreatest_spec (P := fun k => p ^ k ∣ x) (Nat.zero_le L) (one_dvd x)
    exact (Nat.pow_dvd_pow p low).trans largest
  · intro divides
    exact Nat.le_findGreatest hk divides

theorem minExponent_le : minExponent p L e ≤ L :=
  (Finset.le_fold_min _).mp le_rfl |>.1

theorem le_minExponent_iff (hk : k ≤ L) : k ≤ minExponent p L e ↔ ∀ j, p ^ k ∣ e j := by
  rw [minExponent, Finset.le_fold_min]
  constructor
  · rintro ⟨-, all⟩ j
    exact (le_exponent_iff hk (e j)).mp (all j (Finset.mem_univ j))
  · intro all
    exact ⟨hk, fun j _ => (le_exponent_iff hk (e j)).mpr (all j)⟩

theorem minExponent_lt {j : ι} (nonzero : ¬ p ^ L ∣ e j) : minExponent p L e < L := by
  by_contra top
  exact nonzero ((le_minExponent_iff le_rfl).mp (Nat.not_lt.mp top) j)

theorem minExponent_eq_zero {j : ι} (coprime : ¬ p ∣ e j) : minExponent p L e = 0 := by
  by_contra positive
  have low : 1 ≤ minExponent p L e := Nat.one_le_iff_ne_zero.mpr positive
  have one := (le_minExponent_iff (low.trans minExponent_le)).mp low j
  rw [pow_one] at one
  exact coprime one

theorem gcd_pow_eq (prime : p.Prime) :
    (p ^ L).gcd (Finset.univ.gcd e) = p ^ minExponent p L e := by
  obtain ⟨k, hk, power⟩ :=
    (Nat.dvd_prime_pow prime).mp (Nat.gcd_dvd_left (p ^ L) (Finset.univ.gcd e))
  have all : ∀ j, p ^ k ∣ e j := by
    intro j
    rw [← power]
    exact (Nat.gcd_dvd_right _ _).trans (Finset.gcd_dvd (Finset.mem_univ j))
  have low : k ≤ minExponent p L e := (le_minExponent_iff hk).mpr all
  have least : p ^ minExponent p L e ∣ p ^ k := by
    rw [← power]
    refine Nat.dvd_gcd (Nat.pow_dvd_pow p minExponent_le) (Finset.dvd_gcd fun j _ => ?_)
    exact (le_minExponent_iff minExponent_le).mp le_rfl j
  have high : minExponent p L e ≤ k := (Nat.pow_dvd_pow_iff_le_right prime.one_lt).mp least
  rw [power, Nat.le_antisymm low high]

theorem card_solutions_pow (prime : p.Prime) (e f : ι → Nat) :
    (solutions (p ^ L) e f).card = 0 ∨
      (solutions (p ^ L) e f).card = p ^ minExponent p L e := by
  rw [← gcd_pow_eq prime]
  exact card_solutions (Nat.pow_pos prime.pos) e f

end PrimePower

end Congruences
