/-
  The delegation trackers of `incentive` and the events that change them.

  Changes of delegations are queued as events and applied when the rewards of their
  height are distributed.  Until then `IterateBTCDelegationSatsUpdated` reads the
  trackers together with the queue, which gives what the trackers will hold.
-/
import Babylon.Incentive.Pools

set_option autoImplicit false

namespace Babylon.Incentive

open Lib KVStore Option List

namespace State

variable {s t : State} {fp del : AccAddress} {sat amt : Nat}

/-! ## Changes of a tracker

These facts do not ask whether the records fit together. -/

/-- One tracker is written. -/
structure Restakes (fp del : AccAddress) (sat : Nat) (s t : State) : Prop where
  events : t.rewardTrackerEvents = s.rewardTrackerEvents
  tracker : ∃ start, t.btcDelegationRewardsTracker
    = s.btcDelegationRewardsTracker.setUnder fp del ⟨start, sat⟩

theorem increment_ok {ended : Nat} (h : s.incrementFinalityProviderPeriod fp = .ok (ended, t)) :
    ∃ period rwd cur, t = (s.setFinalityProviderHistoricalRewards fp period
      rwd).setFinalityProviderCurrentRewards fp cur := by
  unfold incrementFinalityProviderPeriod at h
  split at h
  case h_1 =>
    cases h
    exact ⟨_, _, _, rfl⟩
  case h_2 =>
    simp only [ok_iff] at h
    obtain ⟨_, -, heq⟩ := h
    cases heq
    exact ⟨_, _, _, rfl⟩

/-- A change of a delegation closes the period, pays the delegator and writes its tracker. -/
theorem exists_closed {preInit : State → Outcome State}
    (h : s.btcDelegationModifiedWithPreInitDel fp del preInit = .ok t) :
    ∃ paid cur, (preInit paid >>= fun changed => changed.initializeBTCDelegation fp del) = .ok t ∧
      paid.satsOf fp del = s.satsOf fp del ∧
      paid.finalityProviderCurrentRewards.get fp = some cur ∧
      ∀ sat total, Restakes fp del sat s (paid.restaked fp del cur sat total) := by
  simp only [btcDelegationModifiedWithPreInitDel, bind_ok_iff] at h
  obtain ⟨⟨ended, closed⟩, hcl, paid, hpaid, changed, hch, hinit⟩ := h
  obtain ⟨period, rwd, cur, rfl⟩ := increment_ok hcl
  obtain ⟨gauges, hgs⟩ : ∃ gauges, paid = { (s.setFinalityProviderHistoricalRewards fp period
      rwd).setFinalityProviderCurrentRewards fp cur with rewardGauges := gauges } := by
    unfold calculateBTCDelegationRewardsAndSendToGauge at hpaid
    split at hpaid
    case h_1 =>
      cases hpaid
      exact ⟨_, rfl⟩
    case h_2 =>
      simp only [ok_iff] at hpaid
      obtain ⟨rewards, -, rfl⟩ := hpaid
      split
      case isTrue => exact ⟨_, rfl⟩
      case isFalse => exact exists_accumulate _ .btcStaker del rewards
  refine ⟨paid, cur, bind_ok_iff.mpr ⟨changed, hch, hinit⟩, ?_⟩
  rw [hgs]
  exact ⟨rfl, get_set_self _ _ _, fun _ _ => ⟨rfl, _, rfl⟩⟩

theorem restakes_of_activated (h : s.btcDelegationActivated fp del amt = .ok t) :
    Restakes fp del (s.satsOf fp del + amt) s t := by
  obtain ⟨paid, cur, hok, hsats, hcur, hre⟩ := exists_closed h
  rw [ok_bind, initialize_addDelegationSat hcur, hsats] at hok
  cases hok
  exact hre _ _

theorem restakes_of_unbonded (h : s.btcDelegationUnbonded fp del amt = .ok t) :
    amt ≤ s.satsOf fp del ∧ Restakes fp del (s.satsOf fp del - amt) s t := by
  obtain ⟨paid, cur, hok, hsats, hcur, hre⟩ := exists_closed h
  have hsub := hok
  simp only [subDelegationSat, subFinalityProviderStaked, getBTCDelegationRewardsTracker,
    getFinalityProviderCurrentRewards, ok_iff] at hsub
  obtain ⟨_, ⟨tracker, hget, _, hamt, cur', hcur', _, hle, -⟩, -⟩ := hsub
  cases hcur.symm.trans hcur'
  rw [initialize_subDelegationSat hcur hget hamt hle, hsats] at hok
  cases hok
  exact ⟨by rwa [← hsats, satsOf_of_get hget], hre _ _⟩

theorem Restakes.satsOf (h : Restakes fp del sat s t) (other delegator : AccAddress) :
    t.satsOf other delegator
      = if other = fp ∧ delegator = del then sat else s.satsOf other delegator := by
  obtain ⟨_, htrk⟩ := h.tracker
  unfold State.satsOf
  rw [htrk, get_under_setUnder]
  split <;> rfl

/-! ## Pending events -/

/-- What an event changes in the satoshis of a delegator with a provider. -/
def satsDelta (fp del : AccAddress) : EventPowerUpdate → Int
  | .btcActivated fpAddr delAddr sat => if fpAddr = fp ∧ delAddr = del then sat else 0
  | .btcUnbonded fpAddr delAddr sat => if fpAddr = fp ∧ delAddr = del then -sat else 0

theorem satsOf_event {ev : EventPowerUpdate} (h : s.processRewardTrackerEvent ev = .ok t) :
    t.rewardTrackerEvents = s.rewardTrackerEvents ∧
      ∀ fp del, (t.satsOf fp del : Int) = s.satsOf fp del + satsDelta fp del ev := by
  cases ev with
  | btcActivated fpAddr delAddr sat =>
    have hre := restakes_of_activated h
    refine ⟨hre.events, fun fp del => ?_⟩
    rw [hre.satsOf, satsDelta]
    grind
  | btcUnbonded fpAddr delAddr sat =>
    obtain ⟨hle, hre⟩ := restakes_of_unbonded h
    refine ⟨hre.events, fun fp del => ?_⟩
    rw [hre.satsOf, satsDelta]
    grind

theorem satsOf_events {events : List EventPowerUpdate}
    (h : foldOutcome processRewardTrackerEvent s events = .ok t) :
    t.rewardTrackerEvents = s.rewardTrackerEvents ∧ ∀ fp del,
      (t.satsOf fp del : Int) = s.satsOf fp del + (events.map (satsDelta fp del)).sum := by
  refine foldOutcome_visited (fun visited t => t.rewardTrackerEvents = s.rewardTrackerEvents ∧
    ∀ fp del, (t.satsOf fp del : Int)
      = s.satsOf fp del + (visited.map (satsDelta fp del)).sum) ?_ ⟨rfl, by simp⟩ h
  rintro visited ev rest t u - ⟨hevs, hsats⟩ hev
  obtain ⟨hsame, hnext⟩ := satsOf_event hev
  refine ⟨hsame.trans hevs, fun fp del => ?_⟩
  rw [hnext, hsats, map_append, sum_append, map_singleton, sum_singleton, add_assoc]

/-- Processing adds up the events of the queue. -/
theorem satsOf_processed {height : Nat} (h : s.processRewardTrackerEvents height = .ok t)
    (fp del : AccAddress) : (t.satsOf fp del : Int)
      = s.satsOf fp del + ((s.pendingEvents height).map (satsDelta fp del)).sum := by
  simp only [processRewardTrackerEvents, ok_iff] at h
  obtain ⟨processed, hproc, rfl⟩ := h
  refine (foldOutcome_visited (fun visited t => (∀ k ∉ visited, t.eventsAt k = s.eventsAt k) ∧
    (t.satsOf fp del : Int) = s.satsOf fp del
      + ((visited.flatMap s.eventsAt).map (satsDelta fp del)).sum) ?_ ⟨fun _ _ => rfl, by simp⟩
    hproc).2
  rintro visited k rest t u hsplit ⟨hqueue, hsats⟩ hok
  have hk : k ∉ visited := by
    have hnd : (visited ++ k :: rest).Nodup := hsplit ▸ nodup_range'
    exact fun hmem => (nodup_append.mp hnd).2.2 k hmem k mem_cons_self rfl
  simp only [processRewardTrackerEventsAtHeight, ok_iff] at hok
  obtain ⟨next, hnext, rfl⟩ := hok
  obtain ⟨hevs, hnew⟩ := satsOf_events hnext
  refine ⟨fun k' hk' => ?_, ?_⟩
  · rw [mem_append, mem_singleton, not_or] at hk'
    rw [← hqueue k' hk'.1, eventsAt, eventsAt]
    dsimp only
    rw [get_delete, if_neg hk'.2, hevs]
  · rw [flatMap_append, flatMap_singleton, map_append, sum_append, ← add_assoc, ← hsats,
      ← hqueue k hk]
    exact hnew fp del

theorem getD_compiled (fp del : AccAddress) (events : List EventPowerUpdate)
    (sats : KVStore AccAddress Int) :
    ((events.foldl (compileEvent fp) sats).get del).getD 0
      = (sats.get del).getD 0 + (events.map (satsDelta fp del)).sum := by
  induction events generalizing sats with
  | nil => simp
  | cons ev rest ih =>
    rw [foldl_cons, ih, map_cons, sum_cons, ← add_assoc]
    congr 1
    cases ev with
    | btcActivated fpAddr delAddr sat | btcUnbonded fpAddr delAddr sat =>
      rw [compileEvent, satsDelta]
      grind [get_set]

/-- The pending view of the delegations of a provider is the processed one: the same satoshis, each
delegator once. -/
theorem pending_view_iff_processed {height : Nat}
    (h : s.processRewardTrackerEvents height = .ok t) (fp : AccAddress) :
    ((s.btcDelegationSatsUpdated height fp).map Prod.fst).Nodup ∧
    ∀ del sats, sats ≠ 0 → ((del, sats) ∈ s.btcDelegationSatsUpdated height fp ↔
      ∃ tracker, (t.btcDelegationRewardsTracker.under fp).get del = some tracker ∧
        sats = tracker.totalActiveSat) := by
  have hsum : ∀ del, (t.satsOf fp del : Int) = s.satsOf fp del
      + ((s.getRewardTrackerEventsCompiledByBtcDel height fp).get del).getD 0 := fun del => by
    rw [satsOf_processed h, getRewardTrackerEventsCompiledByBtcDel, getD_compiled, get_empty,
      getD_none, zero_add]
  unfold btcDelegationSatsUpdated satsOf at *
  generalize s.getRewardTrackerEventsCompiledByBtcDel height fp = compiled at hsum ⊢
  generalize s.btcDelegationRewardsTracker.under fp = trackers at hsum ⊢
  refine ⟨?_, fun del sats hne => ?_⟩
  · rw [map_append, List.map_map, nodup_append]
    refine ⟨nodup_keys trackers, (nodup_keys compiled).sublist (filter_sublist.map _), ?_⟩
    rintro del hdel _ hpending rfl
    obtain ⟨⟨_, tracker⟩, hentry, rfl⟩ := mem_map.mp hdel
    obtain ⟨entry, hentry', heq⟩ := mem_map.mp hpending
    have hnone := (mem_filter.mp hentry').2
    rw [heq, Function.comp_apply, mem_entries.mp hentry] at hnone
    cases hnone
  · have hdel := hsum del
    simp only [mem_append, List.mem_map, mem_filter, Prod.exists, Prod.mk.injEq, mem_entries]
    cases hget : trackers.get del <;> cases hp : compiled.get del
      <;> cases hres : (t.btcDelegationRewardsTracker.under fp).get del
      <;> rw [hget, hp, hres] at hdel <;> grind

/-- A delegation that is pending, and one whose events cancel. -/
def pendingSample : State :=
  [.btcActivated 5 6 100, .btcActivated 5 7 10, .btcUnbonded 5 7 10].foldl
    (addRewardTrackerEvent · 1) (blank ⟨0, none⟩)

theorem pending_view_iff_processed_sample : ∃ t,
    pendingSample.processRewardTrackerEvents 1 = .ok t ∧
    (6, 100) ∈ pendingSample.btcDelegationSatsUpdated 1 5 ∧
    ((pendingSample.btcDelegationSatsUpdated 1 5).map Prod.fst).Nodup ∧
    ∀ del sats, sats ≠ 0 → ((del, sats) ∈ pendingSample.btcDelegationSatsUpdated 1 5 ↔
      ∃ tracker, (t.btcDelegationRewardsTracker.under 5).get del = some tracker ∧
        sats = tracker.totalActiveSat) := by
  obtain ⟨t, ht⟩ : ∃ t, pendingSample.processRewardTrackerEvents 1 = .ok t := by decide +kernel
  exact ⟨t, ht, by decide +kernel, pending_view_iff_processed ht 5⟩

end State

end Babylon.Incentive
