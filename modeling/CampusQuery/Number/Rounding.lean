/-!
# Rounding a quotient

`Tie` says where an exact half goes, and `divRound` rounds a quotient of natural numbers to the
nearest one under that rule.

* `divRound_mul_right` — a whole quotient is left alone.
* `divRound_le`, `le_divRound` — the result is one of the two neighbours of the quotient.
-/

namespace CampusQuery

/-- Where a quotient that lies half way between two integers goes. -/
inductive Tie where
  /-- To the neighbour that is even. -/
  | toEven
  /-- To the larger neighbour. -/
  | up
  deriving DecidableEq, Repr

/-- The natural number nearest to `num / den`, an exact half going where `tie` says. -/
def divRound (tie : Tie) (num den : Nat) : Nat :=
  let whole := num / den
  match compare (2 * (num % den)) den, tie with
  | .lt, _ => whole
  | .gt, _ => whole + 1
  | .eq, .up => whole + 1
  | .eq, .toEven => whole + whole % 2

theorem le_divRound (tie : Tie) (num den : Nat) : num / den ≤ divRound tie num den := by
  unfold divRound
  cases compare (2 * (num % den)) den <;> cases tie <;> simp

theorem divRound_le (tie : Tie) (num den : Nat) : divRound tie num den ≤ num / den + 1 := by
  have hparity : num / den % 2 ≤ 1 := by omega
  unfold divRound
  cases compare (2 * (num % den)) den <;> cases tie <;> simp [hparity]

theorem divRound_mul_right (tie : Tie) (n : Nat) {den : Nat} (h : 0 < den) :
    divRound tie (n * den) den = n := by
  have hlt : compare (2 * (n * den % den)) den = .lt := by
    simp [Nat.mul_mod_left, Nat.compare_eq_lt, h]
  unfold divRound
  simp only [hlt]
  exact Nat.mul_div_cancel n h

end CampusQuery
