/-
  What the incentive module owes.

  The account of the module backs the reward gauges, the gauges of heights whose
  rewards are not distributed, and the pools of the finality providers.  Pools are
  counted in units of 10^-20 coins, so that the roundings at the end of a period and at
  a settlement can only lower the sum.
-/
import Babylon.Incentive.Pools

set_option autoImplicit false

namespace Babylon.Incentive

open Lib KVStore Finality RewardGauge Option List

namespace State

variable {s t u : State} {fp del : AccAddress}

/-! ## Liabilities -/

/-- What the stakeholders of one type can still withdraw. -/
def outstandingOf (s : State) (sType : StakeholderType) (denom : Denom) : Nat :=
  (s.rewardGauges sType).sumBy fun _ rg => rg.outstanding denom

/-- What all stakeholders can still withdraw. -/
def outstanding (s : State) (denom : Denom) : Nat :=
  s.outstandingOf .finalityProvider denom + s.outstandingOf .btcStaker denom
    + s.outstandingOf .costaker denom

/-- The undistributed BTC staking gauges. -/
def undistributed (s : State) (denom : Denom) : Nat :=
  s.btcStakingGauges.sumBy fun _ gauge => gauge.amountOf denom

/-- The undistributed gauges of the direct rewards of providers. -/
def undistributedDirect (s : State) (denom : Denom) : Nat :=
  s.fpDirectGauges.sumBy fun _ gauge => gauge.amountOf denom

/-- The rewards of the open periods of all providers. -/
def currentRewards (s : State) (denom : Denom) : Nat :=
  s.finalityProviderCurrentRewards.sumBy fun _ cur => cur.currentRewards.amountOf denom

/-- What the pools of all providers have to pay. -/
def poolsValue (s : State) (denom : Denom) : Nat :=
  s.finalityProviderCurrentRewards.sumBy fun fp _ => (s.pool fp denom).value

/-- All that the module owes, in units of 10^-20. -/
def liabilities (s : State) (denom : Denom) : Nat :=
  (s.outstanding denom + s.undistributed denom + s.undistributedDirect denom) * decimalRewards
    + s.poolsValue denom

theorem liabilities_blank (params : Params) (denom : Denom) :
    (blank params).liabilities denom = 0 := by
  have hgs : (blank params).outstanding denom + (blank params).undistributed denom
      + (blank params).undistributedDirect denom = 0 := rfl
  unfold liabilities
  rw [hgs, Nat.zero_mul]
  rfl

/-- The rewards of open periods are a part of the pools. -/
theorem currentRewards_le (s : State) (denom : Denom) :
    s.currentRewards denom * decimalRewards ≤ s.poolsValue denom := by
  have hscale : s.currentRewards denom * decimalRewards
      = s.finalityProviderCurrentRewards.sumBy fun _ cur =>
          cur.currentRewards.amountOf denom * decimalRewards := by
    unfold currentRewards sumBy
    rw [sum_map_mul_right]
  rw [hscale]
  refine sumBy_le fun fp cur hcur => ?_
  rw [← pool_current hcur]
  exact Nat.le_add_right _ _

/-! ## Reward gauges -/

theorem outstandingOf_setRewardGauge (s : State) (sType other : StakeholderType) (addr : AccAddress)
    (rg : RewardGauge) (denom : Denom) :
    (s.setRewardGauge sType addr rg).outstandingOf other denom
      = if other = sType then
          ((s.rewardGauges sType).set addr rg).sumBy fun _ rg => rg.outstanding denom
        else s.outstandingOf other denom := by
  unfold outstandingOf setRewardGauge
  dsimp only
  split
  case isTrue heq => rw [heq, Function.update_self]
  case isFalse hne => rw [Function.update_of_ne hne]

/-- A written gauge takes the place of the old one. -/
theorem outstanding_setRewardGauge (s : State) (sType : StakeholderType) (addr : AccAddress)
    (rg : RewardGauge) (denom : Denom) :
    (s.setRewardGauge sType addr rg).outstanding denom
        + ((s.rewardGauges sType).get addr).elim 0 (fun old => old.outstanding denom)
      = s.outstanding denom + rg.outstanding denom := by
  have hset := sumBy_set (s.rewardGauges sType) addr rg fun _ rg => rg.outstanding denom
  have hof : s.outstandingOf sType denom
      = (s.rewardGauges sType).sumBy fun _ rg => rg.outstanding denom := rfl
  unfold outstanding
  rw [outstandingOf_setRewardGauge, outstandingOf_setRewardGauge, outstandingOf_setRewardGauge]
  cases sType
  case finalityProvider =>
    rw [if_pos rfl, if_neg (by decide), if_neg (by decide)]
    omega
  case btcStaker =>
    rw [if_neg (by decide), if_pos rfl, if_neg (by decide)]
    omega
  case costaker =>
    rw [if_neg (by decide), if_neg (by decide), if_pos rfl]
    omega

/-- Coins that are booked in a gauge can be withdrawn. -/
theorem outstanding_accumulate (s : State) (sType : StakeholderType) (addr : AccAddress)
    (reward : Coins) (denom : Denom) :
    (s.accumulateRewardGauge sType addr reward).outstanding denom
      = s.outstanding denom + if reward.isAllPositive then reward.amountOf denom else 0 := by
  unfold accumulateRewardGauge
  split
  case isTrue =>
    have hset := outstanding_setRewardGauge s sType addr
      ((((s.rewardGauges sType).get addr).getD new).add reward) denom
    have hnew : new.outstanding denom = 0 := rfl
    rw [outstanding_add] at hset
    unfold setRewardGauge at hset
    dsimp only
    cases hget : (s.rewardGauges sType).get addr with
    | none =>
      rw [hget, elim_none, getD_none, hnew] at hset
      rw [getD_none]
      omega
    | some rg =>
      rw [hget, elim_some, getD_some] at hset
      rw [getD_some]
      omega
  case isFalse => rfl

theorem outstanding_accumulate_le (s : State) (sType : StakeholderType) (addr : AccAddress)
    (reward : Coins) (denom : Denom) :
    (s.accumulateRewardGauge sType addr reward).outstanding denom
      ≤ s.outstanding denom + reward.amountOf denom := by
  rw [outstanding_accumulate]
  split <;> omega

theorem outstanding_congr (h : t.rewardGauges = s.rewardGauges) (denom : Denom) :
    t.outstanding denom = s.outstanding denom := by
  unfold outstanding outstandingOf
  rw [h]

variable {sType : StakeholderType}

theorem get_accumulate_of_ne {other : StakeholderType} {addr addr' : AccAddress}
    {reward : Coins} (h : other ≠ sType ∨ addr' ≠ addr) :
    ((s.accumulateRewardGauge sType addr reward).rewardGauges other).get addr'
      = (s.rewardGauges other).get addr' := by
  unfold accumulateRewardGauge
  split
  case isTrue =>
    dsimp only
    by_cases heq : other = sType
    · subst heq
      rw [Function.update_self, get_set_of_ne _ _ (h.resolve_left fun hne => hne rfl)]
    · rw [Function.update_of_ne heq]
  case isFalse => rfl

/-! ## Pools -/

theorem pool_value_of_none (h : s.finalityProviderCurrentRewards.get fp = none) (denom : Denom) :
    (s.pool fp denom).value = 0 := by
  have hopen : (s.periods fp denom).openPeriod = none := by
    unfold periods
    rw [h, map_none]
  have hcur : (s.pool fp denom).current = 0 := by
    unfold pool Periods.pool
    rw [hopen, elim_none]
  have hcum : (s.pool fp denom).cumulative = 0 := by
    unfold pool Periods.pool
    dsimp only
    rw [hopen, elim_none]
  unfold Pool.value Pool.owed
  rw [hcur, hcum, Nat.zero_add]
  exact sumBy_eq_zero fun _ _ _ => by rw [Nat.zero_sub, Nat.mul_zero]

theorem elim_pool_value (s : State) (fp : AccAddress) (denom : Denom) :
    ((s.finalityProviderCurrentRewards.get fp).elim 0 fun _ => (s.pool fp denom).value)
      = (s.pool fp denom).value := by
  cases hget : s.finalityProviderCurrentRewards.get fp with
  | none => rw [elim_none, pool_value_of_none hget]
  | some cur => rw [elim_some]

/-- A change of the records of one provider. -/
theorem Frame.poolsValue (h : Frame fp s t) (denom : Denom) :
    t.poolsValue denom + (s.pool fp denom).value
      = s.poolsValue denom + (t.pool fp denom).value := by
  obtain ⟨others, ht, hs⟩ := exists_sumBy_of_agree_off
    (f := fun fp _ => (t.pool fp denom).value) (g := fun fp _ => (s.pool fp denom).value) h.current
    fun other _ hne _ => by rw [pool, pool, h.periods hne]
  rw [elim_pool_value] at ht hs
  unfold State.poolsValue
  omega

/-! ## Changes of the liabilities -/

/-- The liabilities grow by at most the given amounts, and the gauges of heights are as they
were. -/
structure Grows (amount : Denom → Nat) (s t : State) : Prop where
  btcStakingGauges : t.btcStakingGauges = s.btcStakingGauges
  fpDirectGauges : t.fpDirectGauges = s.fpDirectGauges
  tracked : ∀ fp, t.Tracked fp
  liabilities : ∀ denom, t.liabilities denom ≤ s.liabilities denom + amount denom * decimalRewards

namespace Grows

variable {amount amount' : Denom → Nat}

theorem refl (inv : ∀ fp, s.Tracked fp) : Grows (fun _ => 0) s s :=
  ⟨rfl, rfl, inv, fun _ => Nat.le_add_right _ _⟩

theorem trans (h : Grows amount s t) (h' : Grows amount' t u) :
    Grows (fun denom => amount denom + amount' denom) s u where
  btcStakingGauges := h'.btcStakingGauges.trans h.btcStakingGauges
  fpDirectGauges := h'.fpDirectGauges.trans h.fpDirectGauges
  tracked := h'.tracked
  liabilities := fun denom => by
    have hfirst := h.liabilities denom
    have hsecond := h'.liabilities denom
    rw [Nat.add_mul]
    omega

theorem mono (h : Grows amount s t) (hle : ∀ denom, amount denom ≤ amount' denom) :
    Grows amount' s t where
  btcStakingGauges := h.btcStakingGauges
  fpDirectGauges := h.fpDirectGauges
  tracked := h.tracked
  liabilities := fun denom => (h.liabilities denom).trans
    (Nat.add_le_add_left (Nat.mul_le_mul_right _ (hle denom)) _)

/-- The liabilities as a sum of their parts. -/
theorem of_parts (hgs : t.btcStakingGauges = s.btcStakingGauges)
    (hdirect : t.fpDirectGauges = s.fpDirectGauges) (htrk : ∀ fp, t.Tracked fp)
    (hparts : ∀ denom, t.outstanding denom * decimalRewards + t.poolsValue denom
      ≤ s.outstanding denom * decimalRewards + s.poolsValue denom
        + amount denom * decimalRewards) : Grows amount s t where
  btcStakingGauges := hgs
  fpDirectGauges := hdirect
  tracked := htrk
  liabilities := fun denom => by
    have hle := hparts denom
    unfold State.liabilities undistributed undistributedDirect
    rw [hgs, hdirect]
    simp only [Nat.add_mul]
    omega

end Grows

/-- Booking coins in a gauge. -/
theorem grows_accumulate (inv : ∀ fp, s.Tracked fp) (sType : StakeholderType) (addr : AccAddress)
    (reward : Coins) : Grows reward.amountOf s (s.accumulateRewardGauge sType addr reward) := by
  have hle := outstanding_accumulate_le s sType addr reward
  obtain ⟨gauges, hgs⟩ := exists_accumulate s sType addr reward
  rw [hgs] at hle ⊢
  refine .of_parts rfl rfl inv fun denom => ?_
  have hpools : poolsValue { s with rewardGauges := gauges } denom = s.poolsValue denom := rfl
  have hscaled := Nat.mul_le_mul_right decimalRewards (hle denom)
  rw [Nat.add_mul] at hscaled
  omega

/-- A settlement moves the claim of the delegator from the pool to its gauge. -/
theorem Settles.grows {sat : Nat} (h : Settles fp del sat s t) (inv : ∀ other, s.Tracked other) :
    Grows (fun _ => 0) s t := by
  refine .of_parts h.frame.btcStakingGauges h.frame.fpDirectGauges (h.frame.tracked h.tracked inv)
    fun denom => ?_
  obtain ⟨rewards, htr, hgs⟩ := h.credited
  have hcred := outstanding_accumulate_le s .btcStaker del rewards denom
  rw [← outstanding_congr hgs, htr.amountOf] at hcred
  have hscaled := Nat.mul_le_mul_right decimalRewards hcred
  have hrounded := Nat.div_mul_le_self ((s.pool fp denom).close.claim del) decimalRewards
  have hpools := h.frame.poolsValue denom
  have hpaid := (s.pool fp denom).close.value_restake del sat
  have hcl := (s.pool fp denom).value_close_le
  rw [← h.pool] at hpaid
  rw [Nat.add_mul] at hscaled
  omega

/-- Rewards for the delegators of a provider. -/
theorem Rewarded.grows {rwd : Coins} (h : Rewarded fp rwd s t) (inv : ∀ other, s.Tracked other) :
    Grows rwd.amountOf s t := by
  refine .of_parts h.frame.btcStakingGauges h.frame.fpDirectGauges (h.frame.tracked h.tracked inv)
    fun denom => ?_
  have hpools := h.frame.poolsValue denom
  rw [outstanding_congr h.rewardGauges]
  rw [h.pool, Pool.value_add] at hpools
  omega

/-! ## Events -/

/-- A loop of settlements. -/
theorem grows_fold {A : Type} {f : State → A → Outcome State} {items : List A}
    (hf : ∀ s a t, (∀ fp, s.Tracked fp) → f s a = .ok t → Grows (fun _ => 0) s t)
    (inv : ∀ fp, s.Tracked fp) (h : foldOutcome f s items = .ok t) : Grows (fun _ => 0) s t :=
  foldOutcome_preserves (fun t => Grows (fun _ => 0) s t)
    (fun _ a next _ hgr hnext => hgr.trans (hf _ a next hgr.tracked hnext)) (.refl inv) h

theorem grows_eventsAtHeight (inv : ∀ fp, s.Tracked fp) {height : Nat}
    (h : s.processRewardTrackerEventsAtHeight height = .ok t) : Grows (fun _ => 0) s t := by
  simp only [processRewardTrackerEventsAtHeight, ok_iff] at h
  obtain ⟨processed, hproc, rfl⟩ := h
  have hgr : Grows (fun _ => 0) s processed := by
    refine grows_fold (fun s ev t inv hok => ?_) inv hproc
    cases ev with
    | btcActivated fp del sat => exact (settles_of_activated (inv fp) hok).grows inv
    | btcUnbonded fp del sat => exact (settles_of_unbonded (inv fp) hok).grows inv
  exact ⟨hgr.btcStakingGauges, hgr.fpDirectGauges, hgr.tracked, hgr.liabilities⟩

theorem grows_events (inv : ∀ fp, s.Tracked fp) {height : Nat}
    (h : s.processRewardTrackerEvents height = .ok t) : Grows (fun _ => 0) s t := by
  simp only [processRewardTrackerEvents, ok_iff] at h
  obtain ⟨processed, hproc, rfl⟩ := h
  have hgr := grows_fold (fun _ _ _ inv hok => grows_eventsAtHeight inv hok) inv hproc
  exact ⟨hgr.btcStakingGauges, hgr.fpDirectGauges, hgr.tracked, hgr.liabilities⟩

/-- `sendAllBtcDelegationTypeToRewardsGauge` settles the delegator with all its providers. -/
theorem grows_sendAll (inv : ∀ fp, s.Tracked fp)
    (h : s.sendAllBtcDelegationTypeToRewardsGauge sType del = .ok t) : Grows (fun _ => 0) s t := by
  unfold sendAllBtcDelegationTypeToRewardsGauge sendAllBtcRewardsToGauge at h
  split at h
  case isTrue =>
    refine grows_fold (fun s fp t inv hok => ?_) inv h
    exact (settles_of_modified (inv fp) hok).grows inv
  case isFalse =>
    cases h
    exact .refl inv

/-! ## Distribution -/

/-- What a portion of the two gauges of a height gives. -/
def portionAmount (gauge fpDirectGauge : Coins) (total : Nat) (fp : FinalityProviderDistInfo)
    (denom : Denom) : Nat :=
  (gauge.portion (portionOf fp.totalBondedSat total)).amountOf denom
    + (fpDirectGauge.portion (portionOf fp.totalBondedSat total)).amountOf denom

variable {gauge fpDirectGauge : Coins} {total : Nat}

theorem grows_rewardFp (inv : ∀ fp, s.Tracked fp) {fp : FinalityProviderDistInfo}
    (h : rewardFp gauge fpDirectGauge total s fp = .ok t) :
    total ≠ 0 ∧ Grows (portionAmount gauge fpDirectGauge total fp) s t := by
  simp only [rewardFp, ok_iff, Outcome.orPanic_ok_iff] at h
  obtain ⟨_, htot, coinsForBTCDels, hsub, hadd⟩ := h
  have hbooked := grows_accumulate inv .finalityProvider fp.addr
    (((gauge.portion (portionOf fp.totalBondedSat total)).portion fp.commission).add
      (fpDirectGauge.portion (portionOf fp.totalBondedSat total)))
  have hrwdd := (rewarded_of_add (hbooked.tracked fp.addr) hadd).grows hbooked.tracked
  refine ⟨htot, (hbooked.trans hrwdd).mono fun denom => ?_⟩
  have hsplit := Coins.amountOf_sub hsub denom
  unfold portionAmount
  rw [Coins.amountOf_add]
  omega

/-- A provider gets at most its part of a gauge. -/
theorem amountOf_portionOf_mul_le (gauge : Coins) (sat total : Nat) (denom : Denom) :
    (gauge.portion (portionOf sat total)).amountOf denom * total ≤ gauge.amountOf denom * sat := by
  have hportion : (portionOf sat total).toNat = sat * 10 ^ 18 / total := Int.toNat_natCast _
  rw [Coins.amountOf_portion, hportion]
  generalize gauge.amountOf denom = amount
  have hfirst := Nat.div_mul_le_self (amount * (sat * 10 ^ 18 / total)) (10 ^ 18)
  have hsecond := Nat.div_mul_le_self (sat * 10 ^ 18) total
  refine Nat.le_of_mul_le_mul_right (c := 10 ^ 18) ?_ (by norm_num)
  calc amount * (sat * 10 ^ 18 / total) / 10 ^ 18 * total * 10 ^ 18
      = amount * (sat * 10 ^ 18 / total) / 10 ^ 18 * 10 ^ 18 * total := by ring
    _ ≤ amount * (sat * 10 ^ 18 / total) * total := Nat.mul_le_mul_right _ hfirst
    _ = amount * (sat * 10 ^ 18 / total * total) := by ring
    _ ≤ amount * (sat * 10 ^ 18) := Nat.mul_le_mul_left _ hsecond
    _ = amount * sat * 10 ^ 18 := by ring

variable {fps : List FinalityProviderDistInfo}

/-- All providers together get at most the gauge. -/
theorem sum_portions_le (gauge : Coins) (hpos : 0 < total)
    (hsum : (fps.map (·.totalBondedSat)).sum = total) (denom : Denom) :
    (fps.map fun fp => (gauge.portion (portionOf fp.totalBondedSat total)).amountOf denom).sum
      ≤ gauge.amountOf denom := by
  refine Nat.le_of_mul_le_mul_right (c := total) ?_ hpos
  calc (fps.map fun fp =>
        (gauge.portion (portionOf fp.totalBondedSat total)).amountOf denom).sum * total
      = (fps.map fun fp =>
          (gauge.portion (portionOf fp.totalBondedSat total)).amountOf denom * total).sum := by
        rw [sum_map_mul_right]
    _ ≤ (fps.map fun fp => gauge.amountOf denom * fp.totalBondedSat).sum :=
        sum_le_sum fun fp _ => amountOf_portionOf_mul_le gauge fp.totalBondedSat total denom
    _ = gauge.amountOf denom * total := by rw [sum_map_mul_left, hsum]

/-- The portions of all providers together are at most the gauges of the height. -/
theorem sum_portionAmount_le (gauge fpDirectGauge : Coins)
    (htot : (fps.map (·.totalBondedSat)).sum = total) (hne : fps ≠ [] → total ≠ 0)
    (denom : Denom) : (fps.map fun fp => portionAmount gauge fpDirectGauge total fp denom).sum
      ≤ gauge.amountOf denom + fpDirectGauge.amountOf denom := by
  by_cases hnil : fps = []
  · rw [hnil, map_nil, sum_nil]
    exact Nat.zero_le _
  · have hpos := Nat.pos_of_ne_zero (hne hnil)
    unfold portionAmount
    rw [sum_map_add]
    exact Nat.add_le_add (sum_portions_le gauge hpos htot denom)
      (sum_portions_le fpDirectGauge hpos htot denom)

/-- What each provider adds is bounded by the gauges over the whole loop.  `R` says what a
distribution of given amounts does. -/
theorem rewardFps_rel {R : (Denom → Nat) → State → State → Prop}
    (htot : (fps.map (·.totalBondedSat)).sum = total)
    (htrans : ∀ {amount amount' : Denom → Nat} {s t u}, R amount s t → R amount' t u →
      R (fun denom => amount denom + amount' denom) s u)
    (hmono : ∀ {amount amount' : Denom → Nat} {s t}, R amount s t →
      (∀ denom, amount denom ≤ amount' denom) → R amount' s t)
    (hstep : ∀ {amount : Denom → Nat} {s t u} {fp}, fp ∈ fps → R amount s t →
      rewardFp gauge fpDirectGauge total t fp = .ok u →
        total ≠ 0 ∧ R (portionAmount gauge fpDirectGauge total fp) t u)
    (hrefl : R (fun _ => 0) s s)
    (h : foldOutcome (rewardFp gauge fpDirectGauge total) s fps = .ok t) :
    R (fun denom => gauge.amountOf denom + fpDirectGauge.amountOf denom) s t := by
  have hloop : ∀ rest ⊆ fps, ∀ {amount s₁}, R amount s s₁ →
      foldOutcome (rewardFp gauge fpDirectGauge total) s₁ rest = .ok t →
      (rest ≠ [] → total ≠ 0) ∧ R (fun denom => amount denom
        + (rest.map fun fp => portionAmount gauge fpDirectGauge total fp denom).sum) s t := by
    intro rest hsub
    induction rest with
    | nil =>
      rintro amount _ hrel ⟨⟩
      exact ⟨fun hne => absurd rfl hne, hrel⟩
    | cons fp rest ih =>
      intro amount s₁ hrel hfold
      simp only [foldOutcome, bind_ok_iff] at hfold
      obtain ⟨next, hnext, hrest⟩ := hfold
      obtain ⟨hne, hone⟩ := hstep (hsub mem_cons_self) hrel hnext
      refine ⟨fun _ => hne, hmono (ih (fun _ hfp => hsub (mem_cons_of_mem _ hfp))
        (htrans hrel hone) hrest).2 fun denom => ?_⟩
      rw [map_cons, sum_cons]
      omega
  obtain ⟨hne, hrel⟩ := hloop fps (fun _ hfp => hfp) hrefl h
  exact hmono hrel fun denom => (Nat.zero_add _).trans_le
    (sum_portionAmount_le gauge fpDirectGauge htot hne denom)

/-- The gauge of a height, as `RewardBTCStaking` reads it. -/
theorem amountOf_gauge (gauges : KVStore Nat Coins) (height : Nat) (denom : Denom) :
    ((gauges.delete height).sumBy fun _ gauge => gauge.amountOf denom)
        + ((gauges.get height).getD empty).amountOf denom
      = gauges.sumBy fun _ gauge => gauge.amountOf denom := by
  rw [← sumBy_delete gauges height]
  cases gauges.get height <;> rfl

/-- `RewardBTCStaking` distributes what the gauges of the height held. -/
theorem liabilities_rewardBTCStaking (inv : ∀ fp, s.Tracked fp) {height : Nat}
    {dc : VotingPowerDistCache} {voters : List BIP340PubKey}
    (h : s.rewardBTCStaking height dc voters = .ok t) :
    (∀ fp, t.Tracked fp) ∧ ∀ denom, t.liabilities denom ≤ s.liabilities denom := by
  simp only [rewardBTCStaking, ok_iff, Outcome.orPanic_ok_iff] at h
  obtain ⟨processed, hproc, rewarded, hrwdd, rfl⟩ := h
  have hevs := grows_events inv hproc
  have hgr := hevs.trans (rewardFps_rel rfl .trans .mono
    (fun _ hgr hok => grows_rewardFp hgr.tracked hok) (.refl hevs.tracked) hrwdd)
  refine ⟨hgr.tracked, fun denom => ?_⟩
  have hle := hgr.liabilities denom
  have hgs := amountOf_gauge s.btcStakingGauges height denom
  have hdirect := amountOf_gauge s.fpDirectGauges height denom
  have hstk := hgr.btcStakingGauges
  have hfpd := hgr.fpDirectGauges
  unfold liabilities undistributed undistributedDirect at hle ⊢
  rw [hstk, hfpd] at hle ⊢
  have hpools : poolsValue { rewarded with
      btcStakingGauges := s.btcStakingGauges.delete height
      fpDirectGauges := s.fpDirectGauges.delete height } denom = rewarded.poolsValue denom := rfl
  have houts : outstanding { rewarded with
      btcStakingGauges := s.btcStakingGauges.delete height
      fpDirectGauges := s.fpDirectGauges.delete height } denom = rewarded.outstanding denom := rfl
  rw [hpools, houts]
  rw [← hgs, ← hdirect] at hle ⊢
  simp only [Nat.add_mul] at hle ⊢
  omega

/-- The gauges and open periods of the given providers receive at most the given amounts, and
nothing else is paid. -/
structure Distributes (amount : Denom → Nat) (addrs : List AccAddress) (s t : State) : Prop where
  received : ∀ denom, t.outstanding denom + t.currentRewards denom
    ≤ s.outstanding denom + s.currentRewards denom + amount denom
  gauges : ∀ sType addr, sType ≠ .finalityProvider ∨ addr ∉ addrs →
    (t.rewardGauges sType).get addr = (s.rewardGauges sType).get addr
  periods : ∀ addr ∉ addrs, t.finalityProviderCurrentRewards.get addr
    = s.finalityProviderCurrentRewards.get addr

section

variable {amount amount' : Denom → Nat} {addrs : List AccAddress} (h : Distributes amount addrs s t)

include h

theorem Distributes.trans (h' : Distributes amount' addrs t u) :
    Distributes (fun denom => amount denom + amount' denom) addrs s u where
  received := fun denom => by
    have hfirst := h.received denom
    have hsecond := h'.received denom
    omega
  gauges := fun sType addr hnot => (h'.gauges sType addr hnot).trans (h.gauges sType addr hnot)
  periods := fun addr hnot => (h'.periods addr hnot).trans (h.periods addr hnot)

theorem Distributes.mono (hle : ∀ denom, amount denom ≤ amount' denom) :
    Distributes amount' addrs s t :=
  ⟨fun denom => (h.received denom).trans (Nat.add_le_add_left (hle denom) _), h.gauges, h.periods⟩

end

theorem distributes_rewardFp
    {fp : FinalityProviderDistInfo} {addrs : List AccAddress} (hmem : fp.addr ∈ addrs)
    (h : rewardFp gauge fpDirectGauge total s fp = .ok t) :
    total ≠ 0 ∧ Distributes (portionAmount gauge fpDirectGauge total fp) addrs s t := by
  simp only [rewardFp, ok_iff, Outcome.orPanic_ok_iff, addFinalityProviderRewardsForBtcDelegations,
    getFinalityProviderCurrentRewards] at h
  obtain ⟨_, htot, coinsForBTCDels, hsub, cur, hcur, rfl⟩ := h
  generalize hrwd : ((gauge.portion (portionOf fp.totalBondedSat total)).portion fp.commission).add
    (fpDirectGauge.portion (portionOf fp.totalBondedSat total)) = reward at hcur ⊢
  obtain ⟨gauges, hgs⟩ := exists_accumulate s .finalityProvider fp.addr reward
  refine ⟨htot, fun denom => ?_, fun sType addr hnot => ?_, fun addr hnot => ?_⟩
  · have hset := sumBy_set s.finalityProviderCurrentRewards fp.addr
      { cur with currentRewards := cur.currentRewards.add coinsForBTCDels }
      fun _ cur => cur.currentRewards.amountOf denom
    have hsplit := Coins.amountOf_sub hsub denom
    have hbooked := outstanding_accumulate_le s .finalityProvider fp.addr reward denom
    rw [← hrwd, Coins.amountOf_add, hrwd] at hbooked
    rw [hgs] at hcur hbooked ⊢
    rw [show s.finalityProviderCurrentRewards.get fp.addr = some cur from hcur, elim_some,
      Coins.amountOf_add] at hset
    unfold portionAmount
    unfold setFinalityProviderCurrentRewards currentRewards outstanding outstandingOf at *
    dsimp only at *
    omega
  · refine get_accumulate_of_ne (hnot.imp_right fun hnot heq => hnot (heq ▸ hmem))
  · have hne : addr ≠ fp.addr := fun heq => hnot (heq ▸ hmem)
    rw [hgs]
    exact get_set_of_ne _ _ hne

/-- `RewardBTCStaking` first processes the events up to its height.  What it then pays to gauges
of providers and adds to their open periods is at most what the two gauges of the height hold, and
goes to active providers that voted.  Portions are those of the code, which converts the sum of
the sats to `int64`, if that is below 2^63. -/
theorem rewardBTCStaking_conserves {height : Nat} {dc : VotingPowerDistCache}
    {voters : List BIP340PubKey} (h : s.rewardBTCStaking height dc voters = .ok t) :
    ∃ processed, s.processRewardTrackerEvents height = .ok processed ∧
      Distributes (fun denom => ((s.btcStakingGauges.get height).getD empty).amountOf denom
          + ((s.fpDirectGauges.get height).getD empty).amountOf denom)
        ((dc.getActiveFinalityProviderSet.filter fun fp => fp.btcPk ∈ voters).map (·.addr))
        processed t ∧
      (((rewardedFps dc voters).map (·.totalBondedSat)).sum < 2 ^ 63 →
        (satsUint64 (rewardedFps dc voters)).toInt64.toInt
          = ((rewardedFps dc voters).map (·.totalBondedSat)).sum) := by
  simp only [rewardBTCStaking, ok_iff, Outcome.orPanic_ok_iff] at h
  obtain ⟨processed, hproc, rewarded, hrwdd, rfl⟩ := h
  have hdist := rewardFps_rel
    (R := fun amount s t => Distributes amount ((rewardedFps dc voters).map fun fp => fp.addr) s t)
    rfl .trans .mono (fun hfp _ hok => distributes_rewardFp (mem_map_of_mem hfp) hok)
    ⟨fun _ => le_rfl, fun _ _ _ => rfl, fun _ _ => rfl⟩ hrwdd
  refine ⟨processed, hproc, ⟨hdist.received, hdist.gauges, hdist.periods⟩, fun hsats => ?_⟩
  rw [satsUint64_eq]
  show BitVec.toInt (BitVec.ofNat 64 _) = _
  rw [BitVec.toInt_eq_toNat_of_lt, BitVec.toNat_ofNat, Nat.mod_eq_of_lt (by omega)]
  rw [BitVec.toNat_ofNat]
  omega

/-- A delegation of 100 satoshis with one provider that voted, and the fees of a height. -/
theorem rewardBTCStaking_conserves_single : ∃ (s t processed : State) (dc : VotingPowerDistCache),
    s.rewardBTCStaking 1 dc [9] = .ok t ∧ 0 < t.currentRewards 0 ∧
    Distributes (fun denom => ((s.btcStakingGauges.get 1).getD empty).amountOf denom
        + ((s.fpDirectGauges.get 1).getD empty).amountOf denom)
      ((dc.getActiveFinalityProviderSet.filter fun fp => fp.btcPk ∈ [9]).map (·.addr))
      processed t := by
  obtain ⟨t, ht, hpos⟩ : ∃ t, (((blank ⟨0, none⟩).setGauges 1 (empty.set 0 50)
      (empty.set 0 7)).addRewardTrackerEvent 1 (.btcActivated 5 6 100)).rewardBTCStaking 1
        ⟨100, [⟨9, 5, 10 ^ 17, 100, true, false, false⟩], 1, le_refl 1⟩ [9] = .ok t ∧
      0 < t.currentRewards 0 := by decide +kernel
  obtain ⟨processed, -, hdist, -⟩ := rewardBTCStaking_conserves ht
  exact ⟨_, t, processed, _, ht, hpos, hdist⟩

/-- The fees of a height enter its gauges. -/
theorem liabilities_setGauges (s : State) (height : Nat) (btcStakingReward fpDirectRewards : Coins)
    (denom : Denom) :
    (s.setGauges height btcStakingReward fpDirectRewards).liabilities denom
      ≤ s.liabilities denom
        + (btcStakingReward.amountOf denom + fpDirectRewards.amountOf denom) * decimalRewards := by
  have hgs := sumBy_set s.btcStakingGauges height btcStakingReward
    fun _ gauge => gauge.amountOf denom
  have hdirect := sumBy_set s.fpDirectGauges height fpDirectRewards
    fun _ gauge => gauge.amountOf denom
  have hstk : (s.setGauges height btcStakingReward fpDirectRewards).undistributed denom
      ≤ s.undistributed denom + btcStakingReward.amountOf denom := by
    unfold undistributed setGauges
    dsimp only
    omega
  have hfpd : (s.setGauges height btcStakingReward fpDirectRewards).undistributedDirect denom
      ≤ s.undistributedDirect denom + fpDirectRewards.amountOf denom := by
    unfold undistributedDirect setGauges
    dsimp only
    split <;> omega
  have hpools : (s.setGauges height btcStakingReward fpDirectRewards).poolsValue denom
      = s.poolsValue denom := rfl
  have houts : (s.setGauges height btcStakingReward fpDirectRewards).outstanding denom
      = s.outstanding denom := rfl
  unfold liabilities
  rw [hpools, houts]
  have hscaled := Nat.mul_le_mul_right decimalRewards (Nat.add_le_add hstk hfpd)
  simp only [Nat.add_mul] at hscaled ⊢
  omega

/-! ## Withdrawals -/

/-- A gauge that is emptied no longer counts. -/
theorem liabilities_withdraw {addr : AccAddress} {rg : RewardGauge}
    (hget : (s.rewardGauges sType).get addr = some rg) (denom : Denom) :
    (s.setRewardGauge sType addr rg.setFullyWithdrawn).liabilities denom
        + rg.outstanding denom * decimalRewards = s.liabilities denom := by
  have hset := outstanding_setRewardGauge s sType addr rg.setFullyWithdrawn denom
  rw [hget, elim_some, outstanding_setFullyWithdrawn] at hset
  have hpools : (s.setRewardGauge sType addr rg.setFullyWithdrawn).poolsValue denom
      = s.poolsValue denom := rfl
  have hstk : (s.setRewardGauge sType addr rg.setFullyWithdrawn).undistributed denom
      = s.undistributed denom := rfl
  have hfpd : (s.setRewardGauge sType addr rg.setFullyWithdrawn).undistributedDirect denom
      = s.undistributedDirect denom := rfl
  unfold liabilities
  rw [hpools, hstk, hfpd, ← Nat.add_zero (s.outstanding denom), ← hset]
  simp only [Nat.add_mul]
  omega

end State

end Babylon.Incentive
