import Mathlib.NumberTheory.LucasPrimality
import Mathlib.Data.Nat.Log
import Mathlib.Data.List.Prime

/-!
# Modular powers and primality

`powMod b e m` is `b ^ e % m` by repeated squaring, so that it can be evaluated on exponents of
hundreds of bits. With it Lucas's test is an evaluation: `prime_of_primitive` proves a number prime
from a primitive root and the prime factors of its predecessor.
-/

namespace Eyenet.Pratt

/-- `acc * b ^ e % m`, for an exponent of at most `fuel` bits. -/
def powLoop (m : ℕ) : ℕ → ℕ → ℕ → ℕ → ℕ
  | 0, _, _, acc => acc % m
  | fuel + 1, b, e, acc =>
    powLoop m fuel (b * b % m) (e / 2) (if e % 2 = 1 then acc * b % m else acc)

/-- `b ^ e % m` -/
def powMod (b e m : ℕ) : ℕ := powLoop m (e.log2 + 1) b e 1

theorem powLoop_eq {m fuel b e acc : ℕ} (h : e < 2 ^ fuel) :
    powLoop m fuel b e acc = acc * b ^ e % m := by
  induction fuel generalizing b e acc with
  | zero =>
    obtain rfl : e = 0 := by simpa using h
    simp [powLoop]
  | succ fuel ih =>
    have hhalf : e / 2 < 2 ^ fuel := by
      rw [pow_succ] at h
      omega
    have hsplit : b ^ e = (b * b) ^ (e / 2) * b ^ (e % 2) := by
      rw [← sq, ← pow_mul, ← pow_add, Nat.div_add_mod]
    rw [powLoop, ih hhalf, Nat.mul_mod, ← Nat.pow_mod, ← Nat.mul_mod, hsplit]
    rcases Nat.mod_two_eq_zero_or_one e with heven | hodd
    · simp [heven]
    · rw [if_pos hodd, hodd, pow_one, Nat.mod_mul_mod]
      ring_nf

theorem powMod_eq (b e m : ℕ) : powMod b e m = b ^ e % m := by
  rw [powMod, powLoop_eq Nat.lt_log2_self, one_mul]

/-- A power in `ZMod m`, evaluated. -/
theorem cast_powMod (b e m : ℕ) : (powMod b e m : ZMod m) = (b : ZMod m) ^ e := by
  rw [powMod_eq, ZMod.natCast_mod, Nat.cast_pow]

theorem pow_eq_one_iff {p : ℕ} (hp : 1 < p) (b e : ℕ) :
    (b : ZMod p) ^ e = 1 ↔ powMod b e p = 1 := by
  rw [powMod_eq, ← Nat.cast_pow, ← Nat.cast_one, ZMod.natCast_eq_natCast_iff',
    Nat.mod_eq_of_lt hp]

/-- `a` generates the units: its power is one at `p - 1`, and at no `(p - 1) / q`. -/
def Primitive (p a : ℕ) (qs : List ℕ) : Bool :=
  decide (1 < p) && qs.prod == p - 1 && powMod a (p - 1) p == 1 &&
    qs.all fun q => powMod a ((p - 1) / q) p != 1

/-- **Lucas's test**, on the prime factors of `p - 1`. -/
theorem prime_of_primitive {p : ℕ} (a : ℕ) (qs : List ℕ) (hprime : ∀ q ∈ qs, q.Prime)
    (h : Primitive p a qs = true) : p.Prime := by
  simp only [Primitive, Bool.and_eq_true, decide_eq_true_eq, beq_iff_eq, List.all_eq_true,
    bne_iff_ne] at h
  obtain ⟨⟨⟨hp, hprod⟩, hone⟩, hparts⟩ := h
  refine lucas_primality p a ((pow_eq_one_iff hp _ _).mpr hone) ?_
  intro q hq hdvd
  rw [ne_eq, pow_eq_one_iff hp]
  rw [← hprod] at hdvd
  exact hparts q
    (mem_list_primes_of_dvd_prod hq.prime (fun r hr => (hprime r hr).prime) hdvd)

end Eyenet.Pratt
