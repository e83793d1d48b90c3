/-
  What a call of `costakerModified` or `costakerWithdrawRewards` does.

  A change of the score closes the period, pays the costaker and writes its tracker.  The
  payment is refused by the bank if a denomination of the rewards truncates to zero while
  another does not; the call then fails with the period closed and nothing else written.
  `Booked` says what every call keeps, whether it succeeds or fails.
-/
import Babylon.Costaking.Pool
import Babylon.Incentive.Pools

set_option autoImplicit false

namespace Babylon

open Lib Incentive Costaking CostakerRewardsTracker State Outcome Incentive.State

/-- A claim truncates to zero while another one does not. -/
def Mixed (claim : Denom → Nat) : Prop :=
  (∃ denom, claim denom ≠ 0 ∧ claim denom / decimalRewards = 0) ∧
    ∃ denom, claim denom / decimalRewards ≠ 0

variable {claim : Denom → Nat}

/-- Coins that are not mixed are all zero or all positive. -/
theorem Incentive.Truncates.not_mixed_iff {rewards : Coins} (h : Truncates rewards claim) :
    ¬ Mixed claim ↔ rewards.isZero = true ∨ rewards.isValid = true := by
  rw [h.isZero_iff, h.isValid_iff]
  constructor
  · intro hmix
    by_cases hzero : ∀ denom, claim denom / decimalRewards = 0
    · exact .inl hzero
    · refine .inr fun denom hne htruncated => hmix ⟨⟨denom, hne, htruncated⟩, ?_⟩
      exact not_forall.mp hzero
  · rintro (hzero | hval) ⟨⟨denom, hne, htruncated⟩, ⟨other, ho⟩⟩
    · exact ho (hzero other)
    · exact hval denom hne htruncated

variable {cur : CurrentRewards} {closed : Costaking.State}

namespace RewardStores

variable {s t u : RewardStores} {costaker : AccAddress}

/-- The account of `costaking` covers what its pool has to pay. -/
def CostakersFunded (s : RewardStores) : Prop :=
  ∀ denom, (s.costaking.pool denom).value
    ≤ (s.bank.modules .costaking).amountOf denom * decimalRewards

/-- A claim is paid, rounded down: from the account of `costaking` to the one of `incentive`,
where it is booked in the gauge of the costaker. -/
structure Transferred (costaker : AccAddress) (claim : Denom → Nat) (s t : RewardStores) :
    Prop where
  incentive : ∃ rewards, Truncates rewards claim ∧
    (rewards.isZero = true ∨ rewards.isAllPositive = true) ∧
      t.incentive = s.incentive.accumulateRewardGauge .costaker costaker rewards
  costakingBalance : ∀ denom, (t.bank.modules .costaking).amountOf denom
    + claim denom / decimalRewards = (s.bank.modules .costaking).amountOf denom
  incentiveBalance : ∀ denom, (t.bank.modules .incentive).amountOf denom
    = (s.bank.modules .incentive).amountOf denom + claim denom / decimalRewards
  unpaid : (∀ denom, claim denom / decimalRewards = 0) → t.bank = s.bank

/-- Nothing is paid. -/
theorem Transferred.nothing (hclaim : ∀ denom, claim denom / decimalRewards = 0) {rewards : Coins}
    (hrwds : Truncates rewards claim) (hinc : t.incentive = s.incentive)
    (hbank : t.bank = s.bank) : Transferred costaker claim s t where
  incentive := by
    have hzero := hrwds.isZero_iff.mpr hclaim
    refine ⟨rewards, hrwds, .inl hzero, ?_⟩
    rw [accumulateRewardGauge_of_isZero hzero, hinc]
  costakingBalance := fun denom => by rw [hclaim, hbank, Nat.add_zero]
  incentiveBalance := fun denom => by rw [hclaim, hbank, Nat.add_zero]
  unpaid := fun _ => hbank

/-- The records of `costaking` do not matter for a payment. -/
theorem Transferred.of_eq (h : Transferred costaker claim s t) (before after : Costaking.State) :
    Transferred costaker claim { s with costaking := before } { t with costaking := after } :=
  ⟨h.incentive, h.costakingBalance, h.incentiveBalance, h.unpaid⟩

/-- A claim that the pool no longer has to pay leaves the account funded. -/
theorem Transferred.funded (h : Transferred costaker claim s t)
    (hvalue : ∀ denom, (t.costaking.pool denom).value + claim denom
      ≤ (s.costaking.pool denom).value) (hfund : s.CostakersFunded) : t.CostakersFunded := by
  intro denom
  have hbef := hfund denom
  have htaken := hvalue denom
  have hrounded := Nat.div_mul_le_self (claim denom) decimalRewards
  rw [← h.costakingBalance, Nat.add_mul] at hbef
  omega

/-! ## Paying a costaker -/

/-- `CalculateCostakerRewardsAndSendToGauge` pays the claim, unless it is mixed. -/
theorem sendToGauge_cases (h : s.costaking.Ordered) (hcur : s.costaking.currentRewards = some cur)
    (hfund : s.CostakersFunded) (costaker : AccAddress) :
    (¬ Mixed (fun denom => (s.costaking.pool denom).claim costaker) ∧
      ∃ t, s.calculateCostakerRewardsAndSendToGauge costaker (cur.period - 1) = .ok t ∧
        t.costaking = s.costaking ∧
          Transferred costaker (fun denom => (s.costaking.pool denom).claim costaker) s t) ∨
    Mixed (fun denom => (s.costaking.pool denom).claim costaker) ∧
      s.calculateCostakerRewardsAndSendToGauge costaker (cur.period - 1)
        = .error (.registered errInvalidCoins, s) := by
  obtain ⟨rewards, hrwds, htr⟩ := exists_rewards h hcur costaker
  unfold calculateCostakerRewardsAndSendToGauge
  rw [hrwds, leaving_ok, ok_bind]
  by_cases hzero : rewards.isZero = true
  · rw [if_pos hzero]
    exact .inl ⟨htr.not_mixed_iff.mpr (.inl hzero), s, rfl, rfl,
      .nothing (htr.isZero_iff.mp hzero) htr rfl rfl⟩
  rw [if_neg hzero]
  by_cases hval : rewards.isValid = true
  · have hholds : s.bank.Holds .costaking rewards := Bank.holds_iff.mpr fun denom => by
      have hclaim := (s.costaking.pool denom).claim_le_owed costaker
      have hvalue := hfund denom
      unfold Pool.value at hvalue
      rw [htr.amountOf, Nat.div_le_iff_le_mul_add_pred (by decide)]
      have hcomm := Nat.mul_comm decimalRewards ((s.bank.modules .costaking).amountOf denom)
      omega
    obtain ⟨balance, -, hsub⟩ := Bank.exists_subUnlockedCoins hval hholds
    obtain ⟨bank, hsent⟩ : ∃ bank, s.bank.sendCoinsFromModuleToModule .costaking .incentive rewards
        = .ok bank := ⟨_, by rw [Bank.sendCoinsFromModuleToModule, hsub]; rfl⟩
    have hmoved := Bank.sendCoinsFromModuleToModule_ok (by decide) hsent
    have hposi := Coins.isAllPositive_of_isValid hval hzero
    refine .inl ⟨htr.not_mixed_iff.mpr (.inr hval),
      ⟨s.incentive.accumulateRewardGauge .costaker costaker rewards, s.costaking, bank⟩,
      ?_, rfl, ?_⟩
    · dsimp only
      rw [hsent, leaving_ok, ok_bind]
      rfl
    · refine ⟨⟨rewards, htr, .inr hposi, rfl⟩, fun denom => ?_, fun denom => ?_, fun hnoth =>
        absurd (htr.isZero_iff.mpr hnoth) hzero⟩
      · rw [← htr.amountOf]
        exact (hmoved denom).1
      · rw [← htr.amountOf]
        exact (hmoved denom).2.1
  · -- the gauge takes only coins that are all positive
    have hdropped : s.incentive.accumulateRewardGauge .costaker costaker rewards = s.incentive := by
      unfold accumulateRewardGauge
      exact if_neg fun hposi => hval (Bool.and_eq_true_iff.mp hposi).2
    refine .inr ⟨?_, ?_⟩
    · by_contra hmix
      rcases htr.not_mixed_iff.mp hmix with hzero' | hvalid'
      · exact hzero hzero'
      · exact hval hvalid'
    · dsimp only
      rw [hdropped]
      unfold Bank.sendCoinsFromModuleToModule Bank.subUnlockedCoins
      rw [ensure_of_not _ hval]
      rfl

/-! ## What every call keeps -/

/-- The invariants of the store survive, and what is paid to the costaker is taken from the
pool. -/
structure Booked (costaker : AccAddress) (s t : RewardStores) : Prop where
  sound : t.costaking.Sound
  params : t.costaking.params = s.costaking.params
  validatorSet : t.costaking.validatorSet = s.costaking.validatorSet
  paid : ∃ claim : Denom → Nat, (∀ denom, (t.costaking.pool denom).value + claim denom
    ≤ (s.costaking.pool denom).value) ∧ Transferred costaker claim s t

theorem Booked.funded (h : Booked costaker s t) (hfund : s.CostakersFunded) :
    t.CostakersFunded := by
  obtain ⟨claim, hvalue, htrf⟩ := h.paid
  exact htrf.funded hvalue hfund

/-- Only the records of `costaking` change, and nothing is paid. -/
theorem Booked.of_costaking {costaking : Costaking.State} (hsound : costaking.Sound)
    (hpar : costaking.params = s.costaking.params)
    (hvset : costaking.validatorSet = s.costaking.validatorSet)
    (hvalue : ∀ denom, (costaking.pool denom).value ≤ (s.costaking.pool denom).value) :
    Booked costaker s { s with costaking } where
  sound := hsound
  params := hpar
  validatorSet := hvset
  paid := ⟨fun _ => 0, hvalue, .nothing (fun _ => Nat.zero_div _)
    (.of_claim_eq_zero fun _ => rfl) rfl rfl⟩

/-- The call failed: trackers, gauges and balances are as they were. -/
structure Untouched (s t : RewardStores) : Prop where
  trackers : t.costaking.costakerRewardsTracker = s.costaking.costakerRewardsTracker
  incentive : t.incentive = s.incentive
  bank : t.bank = s.bank

/-! ## Settling -/

/-- The claims of a costaker after the open period is closed. -/
def claims (s : RewardStores) (costaker : AccAddress) (denom : Denom) : Nat :=
  (s.costaking.pool denom).close.claim costaker

theorem CostakersFunded.close (hfund : s.CostakersFunded) {ended : Nat}
    (hcl : Closed s.costaking closed ended) : CostakersFunded { s with costaking := closed } := by
  intro denom
  have hvalue := (s.costaking.pool denom).value_close_le
  rw [← hcl.pool] at hvalue
  exact hvalue.trans (hfund denom)

/-- A settlement closes the period and pays the claims, unless they are mixed. -/
theorem exists_settled (h : s.costaking.Sound) (hfund : s.CostakersFunded) (costaker : AccAddress) :
    ∃ ended closed, s.costaking.incrementRewardsPeriod = .ok (ended, closed) ∧
      Closed s.costaking closed ended ∧
      ((¬ Mixed (s.claims costaker) ∧ ∃ paid : RewardStores,
          calculateCostakerRewardsAndSendToGauge { s with costaking := closed } costaker ended
            = .ok paid ∧ paid.costaking = closed ∧
          Transferred costaker (s.claims costaker) s paid) ∨
        (Mixed (s.claims costaker) ∧
          calculateCostakerRewardsAndSendToGauge { s with costaking := closed } costaker ended
            = .error (.registered errInvalidCoins, { s with costaking := closed }))) := by
  obtain ⟨ended, closed, hincr, hcl⟩ := exists_increment h
  obtain ⟨cur, hcur, -, rfl⟩ := hcl.current
  have hclaims : (fun denom => (closed.pool denom).claim costaker) = s.claims costaker := by
    funext denom
    unfold claims
    rw [hcl.pool]
  have hsent := sendToGauge_cases (s := { s with costaking := closed }) hcl.sound.ordered hcur
    (hfund.close hcl) costaker
  rw [hclaims] at hsent
  refine ⟨cur.period - 1, closed, hincr, hcl, hsent.imp_left ?_⟩
  rintro ⟨hmix, paid, hpaid, hcost, htrf⟩
  exact ⟨hmix, paid, hpaid, hcost, htrf.of_eq _ _⟩

/-- A settlement before the tracker is written. -/
theorem settle_cases (h : s.costaking.Sound) (hfund : s.CostakersFunded) (costaker : AccAddress) :
    ∃ closed ended, Closed s.costaking closed ended ∧
      ((¬ Mixed (s.claims costaker) ∧ ∃ paid : RewardStores, paid.costaking = closed ∧
          Transferred costaker (s.claims costaker) s paid ∧
          ∀ pre, s.costakerModifiedScoreWithPreInitalization costaker pre
            = ((pre closed).within fun costaking => { paid with costaking }) >>= fun costaking =>
                ((costaking.initializeCoStakerRwdTracker costaker).leaving
                  { paid with costaking }) >>= fun costaking => .ok { paid with costaking }) ∨
        (Mixed (s.claims costaker) ∧
          ∀ pre, s.costakerModifiedScoreWithPreInitalization costaker pre
            = .error (.registered errInvalidCoins, { s with costaking := closed }))) := by
  obtain ⟨ended, closed, hincr, hcl, hsent⟩ := exists_settled h hfund costaker
  refine ⟨closed, ended, hcl, ?_⟩
  unfold costakerModifiedScoreWithPreInitalization
  rw [hincr, leaving_ok]
  simp only [ok_bind]
  rcases hsent with ⟨hmix, paid, hpaid, hcost, htrf⟩ | ⟨hmix, hfails⟩
  · refine .inl ⟨hmix, paid, hcost, htrf, fun pre => ?_⟩
    rw [hpaid, ok_bind, hcost]
    rfl
  · refine .inr ⟨hmix, fun pre => ?_⟩
    rw [hfails]
    rfl

variable {tracker : CostakerRewardsTracker}

/-- A paid costaker with a new tracker. -/
theorem booked_restaked {ended : Nat} {paid : RewardStores} (hcl : Closed s.costaking closed ended)
    (hpaid : Transferred costaker (s.claims costaker) s paid)
    (hcur : closed.currentRewards = some cur) {total : Int}
    (hsc : tracker.Scored closed.params.scoreRatioBtcByBaby)
    (htot : total = cur.totalScore + (tracker.totalScore - closed.scoreOf costaker)) :
    Booked costaker s { paid with costaking := closed.restaked costaker cur tracker total } where
  sound := sound_restaked hcl.sound hcur hsc htot
  params := hcl.params
  validatorSet := hcl.validatorSet
  paid := by
    refine ⟨s.claims costaker, fun denom => ?_, hpaid.of_eq _ _⟩
    unfold claims
    rw [pool_restaked hcur, hcl.pool, Pool.value_restake]
    exact Pool.value_close_le _

/-- A call that failed after the period was closed. -/
theorem booked_closed {ended : Nat} (hcl : Closed s.costaking closed ended)
    (costaker : AccAddress) :
    Booked costaker s { s with costaking := closed } :=
  .of_costaking hcl.sound hcl.params hcl.validatorSet fun denom => by
    rw [hcl.pool]
    exact Pool.value_close_le _

/-- `costakerWithdrawRewards` succeeds for a costaker with a tracker whose claims are not
mixed. -/
theorem costakerWithdrawRewards_cases (h : s.costaking.Sound) (hfund : s.CostakersFunded)
    (costaker : AccAddress) :
    (∃ t, s.costakerWithdrawRewards costaker = .ok t ∧ Booked costaker s t ∧
      ¬ Mixed (s.claims costaker) ∧ Transferred costaker (s.claims costaker) s t ∧
        ∃ tracker start, s.costaking.costakerRewardsTracker.get costaker = some tracker ∧
          t.costaking.costakerRewardsTracker = s.costaking.costakerRewardsTracker.set costaker
            { tracker with startPeriodCumulativeReward := start }) ∨
    ∃ fault t, s.costakerWithdrawRewards costaker = .error (fault, t) ∧ Booked costaker s t ∧
      Untouched s t ∧ (Mixed (s.claims costaker) ∨
        s.costaking.costakerRewardsTracker.get costaker = none) := by
  obtain ⟨closed, ended, hcl, hcases⟩ := settle_cases h hfund costaker
  obtain ⟨cur, hcur, -, -⟩ := hcl.current
  unfold costakerWithdrawRewards
  rcases hcases with ⟨hmix, paid, hcost, hpaid, hcall⟩ | ⟨hmix, hcall⟩
  · rw [hcall]
    cases hget : s.costaking.costakerRewardsTracker.get costaker with
    | none =>
      -- nothing was paid to a costaker without a tracker
      have hnoth : ∀ denom, s.claims costaker denom / decimalRewards = 0 := fun denom => by
        unfold claims
        rw [← hcl.pool, Costaking.State.pool_claim, hcl.trackers, hget,
          Option.elim_none, Nat.zero_div]
      have hpaid' : ({ paid with costaking := closed } : RewardStores)
          = { s with costaking := closed } := by
        obtain ⟨rewards, hrwds, -, hinc⟩ := hpaid.incentive
        rw [hinc, accumulateRewardGauge_of_isZero (hrwds.isZero_iff.mpr hnoth), hpaid.unpaid hnoth]
      refine .inr ⟨.errorf "collections: not found", { paid with costaking := closed }, ?_, ?_,
        ?_, .inr rfl⟩
      · simp only [Attempt.within, ok_bind, initializeCoStakerRwdTracker,
          getCurrentRewards, getCostakerRewards, hcur, hcl.trackers, hget,
          orThrow_some, orThrow_none, error_bind, leaving_error]
      · rw [hpaid']
        exact booked_closed hcl costaker
      · rw [hpaid']
        exact ⟨hcl.trackers, rfl, rfl⟩
    | some tracker =>
      have hget' : closed.costakerRewardsTracker.get costaker = some tracker := by
        rw [hcl.trackers, hget]
      have hscore : closed.scoreOf costaker = tracker.totalScore := by
        unfold scoreOf
        rw [hget', Option.elim_some]
      refine .inl ⟨{ paid with costaking := closed.restaked costaker cur tracker cur.totalScore },
        ?_, booked_restaked hcl hpaid hcur (hcl.sound.scored costaker tracker hget')
          (by omega), hmix, hpaid.of_eq _ _, tracker, cur.period - 1, rfl, ?_⟩
      · simp only [Attempt.within, ok_bind, initialize_unchanged hcur hget', leaving_ok]
      · unfold Costaking.State.restaked
        rw [hcl.trackers]
  · exact .inr ⟨_, _, hcall _, booked_closed hcl costaker, ⟨hcl.trackers, rfl, rfl⟩, .inl hmix⟩

/-! ## Changing the amounts of a costaker -/

/-- The functions that `costakerModified` is called with only change the amounts. -/
structure Adjusts (modify : CostakerRewardsTracker → CostakerRewardsTracker) : Prop where
  totalScore : ∀ tracker, (modify tracker).totalScore = tracker.totalScore
  start : ∀ tracker, (modify tracker).startPeriodCumulativeReward
    = tracker.startPeriodCumulativeReward

/-- The tracker of a costaker has new amounts. -/
structure Modified (costaker : AccAddress) (activeSatoshis activeBaby : Int)
    (s t : RewardStores) : Prop extends Booked costaker s t where
  tracker : ∃ tracker : CostakerRewardsTracker,
    t.costaking.costakerRewardsTracker = s.costaking.costakerRewardsTracker.set costaker tracker ∧
      tracker.activeSatoshis = activeSatoshis ∧ tracker.activeBaby = activeBaby

/-- `updateTracker` and the following initialization write the new tracker. -/
theorem updateTracker_initialize {paid : RewardStores} (hcur : closed.currentRewards = some cur)
    (hemp : cur.rewards = KVStore.empty) {delta : Int} (hdelta : 0 ≤ cur.totalScore + delta) :
    (((closed.updateTracker costaker tracker delta).within fun costaking =>
        { paid with costaking }) >>= fun costaking =>
      ((costaking.initializeCoStakerRwdTracker costaker).leaving { paid with costaking }) >>=
        fun costaking => .ok { paid with costaking })
      = .ok { paid with
          costaking := closed.restaked costaker cur tracker (cur.totalScore + delta) } := by
  have hread : (closed.setCostakerRewardsTracker costaker tracker).currentRewards = some cur := hcur
  have hval : CurrentRewards.validate { cur with totalScore := cur.totalScore + delta }
      = .ok () := by
    unfold CurrentRewards.validate
    rw [hemp, ensure_of _ (by rfl), ok_bind, ensure_of _ hdelta]
  have hup : closed.updateTracker costaker tracker delta
      = .ok ((closed.setCostakerRewardsTracker costaker tracker).setCurrentRewards
          { cur with totalScore := cur.totalScore + delta }) := by
    unfold updateTracker getCurrentRewards
    simp only [hread, orThrow_some, leaving_ok, ok_bind, hval]
    rfl
  rw [hup]
  simp only [Attempt.within, ok_bind, Costaking.State.initialize_restaked, leaving_ok]

/-- The end of `costakerModified`: without a change of the score the tracker is only
written, with one the costaker is settled first. -/
theorem rescore_cases (h : s.costaking.Sound) (hfund : s.CostakersFunded)
    (hcur : s.costaking.currentRewards = some cur) {updated : CostakerRewardsTracker}
    {delta : Int} (hsc : updated.Scored s.costaking.params.scoreRatioBtcByBaby)
    (hdelta : delta = updated.totalScore - s.costaking.scoreOf costaker)
    (hstart : ∀ old, s.costaking.costakerRewardsTracker.get costaker = some old →
      updated.startPeriodCumulativeReward = old.startPeriodCumulativeReward)
    {outcome : Attempt RewardStores RewardStores} (hout : outcome = if delta = 0 then
        .ok { s with costaking := s.costaking.setCostakerRewardsTracker costaker updated }
      else s.costakerModifiedScoreWithPreInitalization costaker fun costaking =>
        costaking.updateTracker costaker updated delta) :
    (∃ t, outcome = .ok t ∧ Modified costaker updated.activeSatoshis updated.activeBaby s t) ∨
      ∃ fault t, outcome = .error (fault, t) ∧ Booked costaker s t ∧ Untouched s t ∧
        Mixed (s.claims costaker) := by
  subst hout
  split
  case isTrue hsame =>
    obtain ⟨hsound, hvalue⟩ := sound_setTracker h hcur hsc (by omega) hstart
    exact .inl ⟨_, rfl, .of_costaking hsound rfl rfl fun denom => (hvalue denom).le, updated, rfl,
      rfl, rfl⟩
  case isFalse =>
    obtain ⟨closed, ended, hcl, hcases⟩ := settle_cases h hfund costaker
    obtain ⟨cur', hcur', hemp, -⟩ := hcl.current
    rw [← hcl.params] at hsc
    have hscore : closed.scoreOf costaker = s.costaking.scoreOf costaker := by
      unfold scoreOf
      rw [hcl.trackers]
    have hle := hcl.sound.scoreOf_le costaker
    have htot := hcl.sound.total cur' hcur'
    have hnn := hsc.nonneg hcl.sound.ratio
    rcases hcases with ⟨-, paid, -, hpaid, hcall⟩ | ⟨hmix, hcall⟩
    · rw [hcall, updateTracker_initialize hcur' hemp (by omega)]
      refine .inl ⟨_, rfl, booked_restaked hcl hpaid hcur' hsc (by omega),
        { updated with startPeriodCumulativeReward := cur'.period - 1 }, ?_, rfl, rfl⟩
      unfold Costaking.State.restaked
      rw [hcl.trackers]
    · rw [hcall]
      exact .inr ⟨_, _, rfl, booked_closed hcl costaker, ⟨hcl.trackers, rfl, rfl⟩, hmix⟩

/-- Opening the first period changes nothing that matters. -/
theorem Booked.of_opened {opened : Costaking.State} (hopen : Opened s.costaking opened cur)
    (h : Booked costaker { s with costaking := opened } t) : Booked costaker s t := by
  obtain ⟨claim, hvalue, hpaid⟩ := h.paid
  refine ⟨h.sound, h.params.trans hopen.params, h.validatorSet.trans hopen.validatorSet, claim,
    fun denom => ?_, hpaid.of_eq _ _⟩
  rw [← hopen.pool]
  exact hvalue denom

/-- What `costakerModified` does. -/
theorem costakerModified_cases (h : s.costaking.Sound) (hfund : s.CostakersFunded)
    {modify : CostakerRewardsTracker → CostakerRewardsTracker} (hmodify : Adjusts modify)
    (costaker : AccAddress) :
    (∃ t, s.costakerModified costaker modify = .ok t ∧
      0 ≤ (modify (s.costaking.trackerOf costaker)).activeSatoshis ∧
      Modified costaker (modify (s.costaking.trackerOf costaker)).activeSatoshis
        (max (modify (s.costaking.trackerOf costaker)).activeBaby 0) s t) ∨
    ∃ fault t, s.costakerModified costaker modify = .error (fault, t) ∧ Booked costaker s t ∧
      Untouched s t ∧ ((modify (s.costaking.trackerOf costaker)).activeSatoshis < 0 ∨
        Mixed (s.claims costaker)) := by
  obtain ⟨cur, opened, hopened, hopen⟩ := exists_trackerOf h costaker
  have hscore : (modify (s.costaking.trackerOf costaker)).sanitize.totalScore
      = opened.scoreOf costaker := by
    rw [sanitize_totalScore, hmodify.totalScore, trackerOf_totalScore]
    unfold scoreOf
    rw [hopen.trackers]
  have hstart : ∀ old, opened.costakerRewardsTracker.get costaker = some old →
      (modify (s.costaking.trackerOf costaker)).sanitize.startPeriodCumulativeReward
        = old.startPeriodCumulativeReward := by
    intro old hget
    rw [hopen.trackers] at hget
    rw [sanitize_start, hmodify.start, trackerOf_of_get hget]
  unfold costakerModified
  rw [hopened]
  dsimp only
  generalize modify (s.costaking.trackerOf costaker) = modified at hscore hstart ⊢
  have hbaby : 0 ≤ modified.sanitize.activeBaby := by
    rw [sanitize_activeBaby]
    exact le_max_right _ _
  by_cases hsats : modified.activeSatoshis < 0
  · -- the amounts are refused
    obtain ⟨fault, hfault⟩ : ∃ fault, orWrap modified.sanitize.validate
        "failed to validate costaker: %s - %w" = .error fault := by
      refine exists_error_of_ne_ok fun hok => ?_
      have hval := validate_ok_iff.mp (orWrap_ok_iff.mp hok)
      rw [sanitize_activeSatoshis] at hval
      omega
    rw [hfault]
    exact .inr ⟨fault, { s with costaking := opened }, rfl,
      .of_opened hopen (.of_costaking hopen.sound rfl rfl fun _ => le_refl _),
      ⟨hopen.trackers, rfl, rfl⟩, .inl hsats⟩
  have hsats' : 0 ≤ modified.sanitize.activeSatoshis := by
    rw [sanitize_activeSatoshis]
    omega
  have hval : orWrap modified.sanitize.validate
      "failed to validate costaker: %s - %w" = .ok () := by
    refine orWrap_ok_iff.mpr (validate_ok_iff.mpr ⟨?_, hbaby, hsats'⟩)
    rw [hscore]
    exact hopen.sound.scoreOf_nonneg costaker
  rw [hval, leaving_ok, ok_bind]
  obtain ⟨updated, delta, hup⟩ : ∃ updated delta,
      modified.sanitize.updateScore opened.params.scoreRatioBtcByBaby = (updated, delta) :=
    ⟨_, _, rfl⟩
  obtain ⟨hsc, hdelta⟩ := scored_updateScore hup hbaby hsats'
  obtain ⟨hsame, hsame', hstart'⟩ := updateScore_same hup
  rw [hup]
  rw [hscore] at hdelta
  have hstill : CostakersFunded { s with costaking := opened } := fun denom => by
    rw [hopen.pool]
    exact hfund denom
  have hclaims : claims { s with costaking := opened } costaker = s.claims costaker := by
    funext denom
    unfold claims
    rw [hopen.pool]
  rcases rescore_cases (s := { s with costaking := opened }) hopen.sound hstill hopen.current
      hsc hdelta (fun old hget => hstart'.trans (hstart old hget)) rfl with
    ⟨t, ht, hmod⟩ | ⟨fault, t, ht, hbooked, huntouched, hmix⟩
  · obtain ⟨tracker, htrks, htracker⟩ := hmod.tracker
    rw [hsame, hsame', sanitize_activeSatoshis, sanitize_activeBaby] at htracker
    exact .inl ⟨t, ht, by omega, hmod.toBooked.of_opened hopen, tracker,
      by rw [htrks, ← hopen.trackers], htracker⟩
  · rw [hclaims] at hmix
    exact .inr ⟨fault, t, ht, hbooked.of_opened hopen,
      ⟨huntouched.trackers.trans hopen.trackers, huntouched.incentive, huntouched.bank⟩, .inr hmix⟩

end RewardStores

end Babylon
