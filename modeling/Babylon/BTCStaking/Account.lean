/-
  One delegation in the eyes of the voting power ledger.

  Messages and blocks move a delegation through inclusion, covenant quorum and
  unbonding, and queue ACTIVE, UNBONDED and EXPIRED events about it.  Processing
  the events up to a BTC height adds the sats of the delegation to the power of
  its provider and subtracts them again.  The law below is what keeps every
  delegation added at most once and subtracted at most as often as it was added,
  although the quorum is looked at when an event is processed and not when it is
  queued.
-/
import Mathlib.Tactic.Common

set_option autoImplicit false

namespace Babylon.BTCStaking

/-- What the ledger knows about a delegation: its state, the number of pending events of
each kind, and how often its sats were added and subtracted so far. -/
structure Account where
  included : Bool
  quorum : Bool
  unbonded : Bool
  startHeight : Nat
  /-- the BTC height of the EXPIRED event -/
  expiry : Nat
  activations : Nat
  unbondings : Nat
  expirations : Nat
  added : Nat
  subtracted : Nat

namespace Account

/-- The law of an account when the events up to the BTC height `processed` have been
processed and the tip is at `tip`.  A strict ledger has seen no quorum that came after
expiry. -/
structure Lawful (strict : Prop) (processed tip : Nat) (a : Account) : Prop where
  activated : a.added + a.activations = if a.included = true ∧ a.quorum = true then 1 else 0
  subtracted_le : a.subtracted ≤ a.added
  unbondings_le : a.unbondings ≤ 1
  unbonding : a.unbondings = 1 → a.unbonded = true ∧ a.included = true ∧
    (a.quorum = true → a.subtracted = 0)
  settled : a.unbonded = true → a.unbondings = 0 → a.added = a.subtracted ∧ a.activations = 0
  expiring : a.expirations = if a.included = true ∧ processed < a.expiry then 1 else 0
  bonded : a.included = true → processed < a.expiry → a.unbonded = false → a.subtracted = 0
  started : a.included = true → a.startHeight ≤ tip
  timely : strict → a.subtracted < a.added + a.activations → processed < a.expiry

variable {strict : Prop} {processed tip : Nat} {a : Account}

section

variable (h : a.Lawful strict processed tip)

include h

/-- There is no UNBONDED event about a delegation that nobody has unbonded. -/
theorem Lawful.unbondings_eq_zero (hunb : a.unbonded = false) : a.unbondings = 0 := by
  rcases Nat.le_one_iff_eq_zero_or_eq_one.mp h.unbondings_le with hzero | hone
  · exact hzero
  · rw [(h.unbonding hone).1] at hunb
    cases hunb

/-- Nothing was added before inclusion and quorum. -/
theorem Lawful.added_eq_zero
    (hnot : ¬ (a.included = true ∧ a.quorum = true)) : a.added = 0 ∧ a.activations = 0 := by
  have hact := h.activated
  rw [if_neg hnot] at hact
  omega

/-! ## Messages -/

/-- A new delegation, with or without inclusion proof. -/
def fresh (included : Bool) (startHeight expiry : Nat) : Account where
  included := included
  quorum := false
  unbonded := false
  startHeight := startHeight
  expiry := expiry
  activations := 0
  unbondings := 0
  expirations := if included then 1 else 0
  added := 0
  subtracted := 0

/-- The covenant quorum is reached. -/
def reachQuorum (a : Account) : Account :=
  { a with quorum := true, activations := a.activations + if a.included then 1 else 0 }

theorem Lawful.reachQuorum (hq : a.quorum = false) (hunb : a.unbonded = false)
    (htm : strict → a.included = true → processed < a.expiry) :
    a.reachQuorum.Lawful strict processed tip := by
  have hzero := h.added_eq_zero (by simp [hq])
  have hone := h.unbondings_eq_zero hunb
  cases h
  cases hinc : a.included <;> constructor <;> simp_all [Account.reachQuorum]

/-- The inclusion proof of a delegation with covenant quorum arrives. -/
def includeAt (a : Account) (startHeight expiry : Nat) : Account :=
  { a with
    included := true
    startHeight := startHeight
    expiry := expiry
    activations := a.activations + 1
    expirations := a.expirations + 1 }

theorem Lawful.includeAt {startHeight expiry : Nat} (hinc : a.included = false)
    (hq : a.quorum = true) (hunb : a.unbonded = false) (hstart : startHeight ≤ tip)
    (hexpy : processed < expiry) :
    (a.includeAt startHeight expiry).Lawful strict processed tip := by
  have hzero := h.added_eq_zero (by simp [hinc])
  have hone := h.unbondings_eq_zero hunb
  cases h
  constructor <;> simp_all [Account.includeAt]

/-- The delegator unbonds. -/
def unbond (a : Account) : Account :=
  { a with unbonded := true, unbondings := a.unbondings + if a.included then 1 else 0 }

theorem Lawful.unbond (hunb : a.unbonded = false)
    (hexpy : a.included = true → a.quorum = true → processed < a.expiry) :
    a.unbond.Lawful strict processed tip := by
  have hone := h.unbondings_eq_zero hunb
  cases hinc : a.included with
  | false =>
    have hzero := h.added_eq_zero (by simp [hinc])
    cases h
    constructor <;> simp_all [Account.unbond]
  | true =>
    cases h
    constructor <;> simp_all [Account.unbond]

/-! ## Blocks -/

/-- A higher tip. -/
theorem Lawful.mono {tip' : Nat} (hle : tip ≤ tip') : a.Lawful strict processed tip' :=
  { h with started := fun hinc => Nat.le_trans (h.started hinc) hle }

/-- How often processing subtracts the sats of a delegation: for an UNBONDED event if there is
a quorum, for an EXPIRED event if also nobody has unbonded. -/
def removals (a : Account) (upTo : Nat) : Nat :=
  (if a.quorum then a.unbondings else 0) +
    if a.quorum && !a.unbonded && decide (a.expiry ≤ upTo) then a.expirations else 0

/-- All events up to a BTC height are processed. -/
def process (a : Account) (upTo : Nat) : Account :=
  { a with
    activations := 0
    unbondings := 0
    expirations := if a.expiry ≤ upTo then 0 else a.expirations
    added := a.added + a.activations
    subtracted := a.subtracted + a.removals upTo }

/-- Without unbonding and expiry nothing is subtracted, otherwise all that was added. -/
theorem Lawful.process_cases (upTo : Nat) :
    a.removals upTo = 0 ∧ (a.unbonded = true → a.added + a.activations = a.subtracted) ∧
        (a.unbonded = false → processed < a.expiry → a.expiry ≤ upTo →
          a.added + a.activations = a.subtracted) ∨
      a.removals upTo = 1 ∧ a.subtracted = 0 ∧ a.added + a.activations = 1 ∧
        (a.unbonded = true ∨ a.expiry ≤ upTo) := by
  have hno := h.unbondings_eq_zero
  obtain ⟨activated, le, one, unbonding, settled, expiring, bonded, started, timely⟩ := h
  cases hq : a.quorum with
  | false =>
    rw [if_neg (by simp [hq])] at activated
    refine .inl ⟨by simp [removals, hq], fun _ => by omega, fun _ _ _ => by omega⟩
  | true =>
    cases hunb : a.unbonded with
    | true =>
      rcases Nat.le_one_iff_eq_zero_or_eq_one.mp one with hzero | hone
      · have := settled hunb hzero
        exact .inl ⟨by simp [removals, hzero, hunb], fun _ => by omega, by simp⟩
      · obtain ⟨-, hinc, hsub⟩ := unbonding hone
        rw [if_pos ⟨hinc, hq⟩] at activated
        exact .inr ⟨by simp [removals, hq, hunb, hone], hsub hq, activated, .inl rfl⟩
    | false =>
      have hzero := hno hunb
      by_cases hproc : a.expiry ≤ upTo
      · by_cases hcnt : a.included = true ∧ processed < a.expiry
        · rw [if_pos hcnt] at expiring
          rw [if_pos ⟨hcnt.1, hq⟩] at activated
          exact .inr ⟨by simp [removals, hq, hunb, hzero, hproc, expiring],
            bonded hcnt.1 hcnt.2 hunb, activated, .inr hproc⟩
        · rw [if_neg hcnt] at expiring
          refine .inl ⟨by simp [removals, hzero, expiring], by simp, fun _ hlt _ => ?_⟩
          have hinc : a.included ≠ true := fun hinc => hcnt ⟨hinc, hlt⟩
          rw [if_neg fun hboth => hinc hboth.1] at activated
          omega
      · exact .inl ⟨by simp [removals, hzero, hproc], by simp, fun _ _ hle => absurd hle hproc⟩

theorem Lawful.process {upTo : Nat} (hle : processed ≤ upTo) :
    (a.process upTo).Lawful strict upTo tip := by
  have hcases := h.process_cases upTo
  obtain ⟨activated, le, one, unbonding, settled, expiring, bonded, started, timely⟩ := h
  refine ⟨activated, ?_, Nat.zero_le 1, ?_, ?_, ?_, ?_, started, ?_⟩
  · show a.subtracted + a.removals upTo ≤ a.added + a.activations
    rcases hcases with ⟨hnone, -, -⟩ | ⟨hone, hsub, hadd, -⟩ <;> omega
  · intro hone
    exact absurd hone (by simp [Account.process])
  · intro hunb _
    refine ⟨?_, rfl⟩
    show a.added + a.activations = a.subtracted + a.removals upTo
    rcases hcases with ⟨hnone, hall, -⟩ | ⟨hone, hsub, hadd, -⟩
    · have := hall hunb
      omega
    · omega
  · show (if a.expiry ≤ upTo then 0 else a.expirations)
      = if a.included = true ∧ upTo < a.expiry then 1 else 0
    by_cases hproc : a.expiry ≤ upTo
    · rw [if_pos hproc, if_neg fun hboth => absurd hboth.2 (Nat.not_lt.mpr hproc)]
    · have hiff : (a.included = true ∧ upTo < a.expiry) ↔
          (a.included = true ∧ processed < a.expiry) :=
        and_congr_right fun _ => ⟨fun hlt => by omega, fun _ => by omega⟩
      rw [if_neg hproc, expiring]
      simp only [hiff]
  · intro hinc (hlt : upTo < a.expiry) (hunb : a.unbonded = false)
    show a.subtracted + a.removals upTo = 0
    have hsub := bonded hinc (Nat.lt_of_le_of_lt hle hlt) hunb
    rcases hcases with ⟨hnone, -, -⟩ | ⟨-, -, -, hbad | hbad⟩
    · omega
    · rw [hunb] at hbad
      cases hbad
    · omega
  · intro hstrict (hlt : a.subtracted + a.removals upTo < a.added + a.activations + 0)
    by_contra hnot
    have hbef := timely hstrict (by omega)
    rcases hcases with ⟨hnone, hall, hexpd⟩ | ⟨hone, hsub, hadd, -⟩
    · cases hunb : a.unbonded with
      | true =>
        have := hall hunb
        omega
      | false =>
        have := hexpd hunb hbef (Nat.not_lt.mp hnot)
        omega
    · omega

end

/-! ## What counts -/

/-- The sats of the delegation are in the power of its provider. -/
def counted (a : Account) : Bool := decide (a.subtracted < a.added)

/-- Once all events are processed, what counts is included, has its quorum, is not unbonded
and, in a strict ledger, is not expired, and nothing else. -/
theorem Lawful.counted_iff (h : a.Lawful True processed tip) (hactivations : a.activations = 0)
    (hunbondings : a.unbondings = 0) :
    a.counted = true ↔ a.unbonded = false ∧ a.quorum = true ∧ a.included = true ∧
      processed < a.expiry := by
  obtain ⟨activated, le, one, unbonding, settled, expiring, bonded, started, timely⟩ := h
  rw [counted, decide_eq_true_eq]
  constructor
  · intro hlt
    have hboth : a.included = true ∧ a.quorum = true := by
      by_contra hnot
      rw [if_neg hnot] at activated
      omega
    refine ⟨?_, hboth.2, hboth.1, timely trivial (by omega)⟩
    cases hunb : a.unbonded with
    | false => rfl
    | true =>
      have := settled hunb hunbondings
      omega
  · rintro ⟨hunb, hq, hinc, hexpy⟩
    have hsub := bonded hinc hexpy hunb
    rw [if_pos ⟨hinc, hq⟩] at activated
    omega

end Account

end Babylon.BTCStaking
