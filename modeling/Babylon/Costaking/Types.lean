/-
  `x/costaking/types`: parameters, the pool of rewards of the costakers and the record
  of each costaker.

  A costaker holds both BTC delegations and BABY delegations.  Its score is the smaller
  of the active satoshis and the active BABY divided by a ratio, and the rewards are
  shared by score.
-/
import Babylon.Types.Coins

set_option autoImplicit false

namespace Babylon.Costaking

open Lib

/-! ## Errors -/

def errScoreRatioTooLow : RegisteredError :=
  ⟨"costaking", 1103, "score ratio of btc to baby should be higher or equal 1"⟩
def errPercentageTooHigh : RegisteredError :=
  ⟨"costaking", 1105, "percentage should be less or equal 1"⟩
def errInvalidPercentage : RegisteredError := ⟨"costaking", 1106, "percentage is invalid"⟩
def errInvalidPeriod : RegisteredError := ⟨"costaking", 1107, "period is invalid"⟩
def errNegativeRewards : RegisteredError :=
  ⟨"costaking", 1108, "negative rewards should not be possible"⟩
def errInvalidCostakerRwdTracker : RegisteredError :=
  ⟨"costaking", 1109, "costaker reward tracker is invalid"⟩

/-! ## Parameters -/

/-- `Params`.  A number that a message leaves out is nil and refused by `Validate`; such
messages are not modelled. -/
structure Params where
  costakingPortion : Dec
  scoreRatioBtcByBaby : Int
  validatorsPortion : Dec
deriving DecidableEq

/-- `validatePercentage`. -/
def validatePercentage (percentage : Dec) : Outcome Unit := do
  ensure (percentage < Dec.one) (.registered errPercentageTooHigh)
  ensure (0 ≤ percentage) (.wrapf errInvalidPercentage "lower than zero")

/-- `Params.Validate`. -/
def Params.validate (p : Params) : Outcome Unit := do
  (validatePercentage p.costakingPortion).orWrap "invalid costaking portion"
  (validatePercentage p.validatorsPortion).orWrap "invalid validators portion"
  (validatePercentage (p.costakingPortion + p.validatorsPortion)).orWrap
    "invalid total portion; costaking (%s) + validators (%s)"
  ensure (1 ≤ p.scoreRatioBtcByBaby) (.registered errScoreRatioTooLow)

theorem Params.one_le_scoreRatio {p : Params} (h : p.validate = .ok ()) :
    1 ≤ p.scoreRatioBtcByBaby := by
  simp only [validate, ok_iff] at h
  obtain ⟨_, -, _, -, _, -, hratio⟩ := h
  exact hratio

/-! ## Records -/

/-- `CurrentRewards`: the rewards of the open period, in units of 10^-20, and the score of
all costakers. -/
structure CurrentRewards where
  rewards : Coins
  period : Nat
  totalScore : Int

/-- `HistoricalRewards`: the rewards per score up to the end of a period. -/
structure HistoricalRewards where
  cumulativeRewardsPerScore : Coins

/-- `CostakerRewardsTracker`. -/
structure CostakerRewardsTracker where
  startPeriodCumulativeReward : Nat
  activeSatoshis : Int
  activeBaby : Int
  totalScore : Int
deriving DecidableEq

/-- `CurrentRewards.Validate`; amounts of coins are not negative. -/
def CurrentRewards.validate (cr : CurrentRewards) : Outcome Unit := do
  ensure (cr.rewards.isValid = true) (.errorf "invalid rewards: %s")
  ensure (0 ≤ cr.totalScore) (.errorf "total score must be non-negative: %s")

/-- `CalculateScore`: the division truncates towards zero. -/
def calculateScore (scoreRatioBtcByBaby activeBaby activeSats : Int) : Int :=
  min activeSats (activeBaby.tdiv scoreRatioBtcByBaby)

namespace CostakerRewardsTracker

/-- `Validate`. -/
def validate (crt : CostakerRewardsTracker) : Outcome Unit := do
  ensure (0 ≤ crt.totalScore) (.wrapf errInvalidCostakerRwdTracker "has negative total score %s")
  ensure (0 ≤ crt.activeBaby) (.wrapf errInvalidCostakerRwdTracker "has negative active baby %s")
  ensure (0 ≤ crt.activeSatoshis)
    (.wrapf errInvalidCostakerRwdTracker "has negative active sats %s")

/-- `Sanitize`: a negative amount of BABY, due to rounding after a slash, becomes zero. -/
def sanitize (crt : CostakerRewardsTracker) : CostakerRewardsTracker :=
  if crt.activeBaby < 0 then { crt with activeBaby := 0 } else crt

/-- `UpdateScore`; also returns the change of the score. -/
def updateScore (crt : CostakerRewardsTracker) (scoreRatioBtcByBaby : Int) :
    CostakerRewardsTracker × Int :=
  let updated := { crt with
    totalScore := calculateScore scoreRatioBtcByBaby crt.activeBaby crt.activeSatoshis }
  (updated, updated.totalScore - crt.totalScore)

variable {crt : CostakerRewardsTracker}

theorem validate_ok_iff :
    crt.validate = .ok () ↔ 0 ≤ crt.totalScore ∧ 0 ≤ crt.activeBaby ∧ 0 ≤ crt.activeSatoshis := by
  simp only [validate, ok_iff, exists_and_left, exists_const]

@[simp] theorem sanitize_activeSatoshis : crt.sanitize.activeSatoshis = crt.activeSatoshis := by
  unfold sanitize
  split <;> rfl

@[simp] theorem sanitize_totalScore : crt.sanitize.totalScore = crt.totalScore := by
  unfold sanitize
  split <;> rfl

@[simp] theorem sanitize_start :
    crt.sanitize.startPeriodCumulativeReward = crt.startPeriodCumulativeReward := by
  unfold sanitize
  split <;> rfl

theorem sanitize_activeBaby : crt.sanitize.activeBaby = max crt.activeBaby 0 := by
  unfold sanitize
  split
  case isTrue h => exact (max_eq_right h.le).symm
  case isFalse h => exact (max_eq_left (not_lt.mp h)).symm

end CostakerRewardsTracker

end Babylon.Costaking
