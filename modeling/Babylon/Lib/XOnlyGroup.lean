/-
  Groups whose points are transmitted by one coordinate.

  The scalars form a field, which for a group generated by one point says that
  its order is prime.  Two points with the same x coordinate are equal up to
  sign, and the parity bit tells a point from its negation.
-/
import Mathlib.Algebra.Module.Basic
import Mathlib.Algebra.Field.Basic
import Mathlib.Tactic.Module

set_option autoImplicit false

namespace Babylon.Lib

/-- A group over a field of scalars, with x coordinates and parities. -/
structure XOnlyGroup where
  Scalar : Type
  Point : Type
  Coord : Type
  [scalarField : Field Scalar]
  [pointGroup : AddCommGroup Point]
  [pointModule : Module Scalar Point]
  [scalarDecEq : DecidableEq Scalar]
  [pointDecEq : DecidableEq Point]
  [coordDecEq : DecidableEq Coord]
  base : Point
  xCoord : Point → Coord
  isOdd : Point → Bool
  eq_or_eq_neg : ∀ P Q : Point, P ≠ 0 → Q ≠ 0 → xCoord P = xCoord Q → P = Q ∨ P = -Q
  isOdd_neg : ∀ P : Point, P ≠ 0 → isOdd (-P) = !isOdd P

namespace XOnlyGroup

attribute [instance] scalarField pointGroup pointModule scalarDecEq pointDecEq coordDecEq

variable (C : XOnlyGroup)

/-- A point of even parity is determined by its x coordinate. -/
theorem eq_of_xCoord_eq_of_even {P Q : C.Point} (hP : P ≠ 0) (hQ : Q ≠ 0)
    (hx : C.xCoord P = C.xCoord Q) (hPeven : C.isOdd P = false) (hQeven : C.isOdd Q = false) :
    P = Q := by
  rcases C.eq_or_eq_neg P Q hP hQ hx with h | h
  · exact h
  · have hodd := C.isOdd_neg Q hQ
    rw [← h, hPeven, hQeven] at hodd
    cases hodd

section

variable {P : C.Point} {s₁ s₂ e₁ e₂ : C.Scalar} (he : e₁ ≠ e₂)
  (h : s₁ • C.base - e₁ • P = s₂ • C.base - e₂ • P)

include he h

/-- Two responses to different challenges on one commitment give the discrete
logarithm of the point. -/
theorem discreteLog_of_two_responses :
    ((s₁ - s₂) * (e₁ - e₂)⁻¹) • C.base = P := by
  have hne : e₁ - e₂ ≠ 0 := sub_ne_zero.mpr he
  have hdiff : (s₁ - s₂) • C.base = (e₁ - e₂) • P := by
    rw [sub_smul, sub_smul]
    exact sub_eq_sub_iff_sub_eq_sub.mp h
  calc ((s₁ - s₂) * (e₁ - e₂)⁻¹) • C.base
      = (e₁ - e₂)⁻¹ • (s₁ - s₂) • C.base := by rw [mul_comm, mul_smul]
    _ = (e₁ - e₂)⁻¹ • (e₁ - e₂) • P := by rw [hdiff]
    _ = P := by rw [smul_smul, inv_mul_cancel₀ hne, one_smul]

/-- The responses to different challenges differ, unless the point is zero. -/
theorem response_ne_of_challenge_ne (hP : P ≠ 0) : s₁ ≠ s₂ := by
  intro hs
  refine hP ?_
  rw [← C.discreteLog_of_two_responses he h, hs, sub_self, zero_mul, zero_smul]

end

end XOnlyGroup

end Babylon.Lib
