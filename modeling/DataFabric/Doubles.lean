import Mathlib.Algebra.Ring.Int.Defs
import Mathlib.Algebra.Ring.Nat
import Mathlib.Data.Int.Basic
import Mathlib.Tactic.Linarith
import Mathlib.Tactic.NormNum
import Mathlib.Tactic.Positivity

set_option autoImplicit false

/-!
# Integers among the 64-bit floating-point numbers

Of 53 significant bits, so every integer up to `2 ^ 53` is one of them.
-/
namespace DataFabric.Doubles

/-- The nearest multiple of `d`, the even one of two that are as near. -/
def nearestMultiple (d n : ℤ) : ℤ :=
  let q := n / d
  let r := n % d
  if 2 * r < d then q * d
  else if d < 2 * r then (q + 1) * d
  else if q % 2 = 0 then q * d
  else (q + 1) * d

def spacing (n : ℤ) : ℤ := 2 ^ (n.natAbs.log2 - 52)

def toDouble (n : ℤ) : ℤ := nearestMultiple (spacing n) n

def Exact (n : ℤ) : Prop := n.natAbs ≤ 2 ^ 53

instance (n : ℤ) : Decidable (Exact n) := inferInstanceAs (Decidable (n.natAbs ≤ 2 ^ 53))

theorem nearestMultiple_one (n : ℤ) : nearestMultiple 1 n = n := by
  simp [nearestMultiple]

theorem spacing_one {n : ℤ} (h : n.natAbs < 2 ^ 53) : spacing n = 1 := by
  have hlog : n.natAbs.log2 < 53 := by
    by_cases hn : n.natAbs = 0
    · rw [hn]
      decide
    · exact (Nat.log2_lt hn).mpr h
  have hzero : n.natAbs.log2 - 52 = 0 := by omega
  rw [spacing, hzero]
  rfl

theorem toDouble_exact {n : ℤ} (h : Exact n) : toDouble n = n := by
  by_cases hn : n.natAbs = 2 ^ 53
  · rcases Int.natAbs_eq n with hpos | hneg
    · rw [hpos, hn]
      decide +kernel
    · rw [hneg, hn]
      decide +kernel
  · have hlt : n.natAbs < 2 ^ 53 := Nat.lt_of_le_of_ne h hn
    rw [toDouble, spacing_one hlt, nearestMultiple_one]

theorem toDouble_large {n : ℤ} (large : 2 ^ 52 ≤ n) : 2 ^ 52 ≤ toDouble n := by
  have positive : 0 < n := by omega
  have nonzero : n.natAbs ≠ 0 := by omega
  have digits : 52 ≤ n.natAbs.log2 := (Nat.le_log2 nonzero).mpr (by omega)
  have least : 2 ^ n.natAbs.log2 ≤ n.natAbs := Nat.log2_self_le nonzero
  have step : 0 < spacing n := by
    unfold spacing
    positivity
  have quotient : 2 ^ 52 ≤ n / spacing n := by
    rw [Int.le_ediv_iff_mul_le step]
    have split : (2 : ℤ) ^ 52 * spacing n = 2 ^ n.natAbs.log2 := by
      rw [spacing, ← pow_add, Nat.add_sub_cancel' digits]
    rw [split]
    calc (2 : ℤ) ^ n.natAbs.log2 = ((2 ^ n.natAbs.log2 : ℕ) : ℤ) := by norm_num
      _ ≤ (n.natAbs : ℤ) := Int.ofNat_le.mpr least
      _ = n := Int.natAbs_of_nonneg positive.le
  have down : 2 ^ 52 ≤ n / spacing n * spacing n := by nlinarith
  have up : 2 ^ 52 ≤ (n / spacing n + 1) * spacing n := by nlinarith
  unfold toDouble nearestMultiple
  dsimp only
  split_ifs <;> assumption

example : toDouble (2 ^ 53 + 1) = 2 ^ 53 := by decide +kernel

end DataFabric.Doubles
