/-
  What processing the pending events computes.

  The code walks over the events and keeps several accounts at once.  In a
  well-formed store the walk cannot fail, and each account is a function of the
  list of events: the delegations that become active, those that leave, the
  changes of sats they add up to, and the last state of every provider.
-/
import Babylon.BTCStaking.Ledger
import Babylon.Finality.Distribution

set_option autoImplicit false

namespace Babylon.BTCStaking

/-- The sats that a delegation brings to a provider. -/
def BTCDelegation.satsTo (d : BTCDelegation) (pk : BIP340PubKey) : Nat :=
  d.fpBtcPkList.count pk * d.totalSat

end Babylon.BTCStaking

namespace Babylon.Finality

open Lib BTCStaking KVStore BTCStaking.State List

/-! ## Sats of delegations -/

/-- What is reported about a delegation, once for each of its providers. -/
def delegationInfos (d : BTCDelegation) : List DelegationInfo :=
  d.fpBtcPkList.map fun pk => ⟨d.stakerAddr, pk, d.totalSat⟩

/-- The sats of a provider in a list of reports. -/
def satsFor (pk : BIP340PubKey) (infos : List DelegationInfo) : Nat :=
  (infos.map fun info => if info.fpBtcPk = pk then info.totalSat else 0).sum

@[simp] theorem satsFor_nil (pk : BIP340PubKey) : satsFor pk [] = 0 := rfl

@[simp] theorem satsFor_append (pk : BIP340PubKey) (xs ys : List DelegationInfo) :
    satsFor pk (xs ++ ys) = satsFor pk xs + satsFor pk ys := by
  simp [satsFor]

theorem satsFor_delegationInfos (pk : BIP340PubKey) (d : BTCDelegation) :
    satsFor pk (delegationInfos d) = d.satsTo pk := by
  unfold satsFor delegationInfos BTCDelegation.satsTo
  rw [map_map]
  induction d.fpBtcPkList with
  | nil => simp
  | cons first rest ih =>
    rw [map_cons, sum_cons, ih, count_cons]
    by_cases heq : first = pk
    · simp only [Function.comp_apply, heq, if_true, beq_self_eq_true]
      ring
    · simp [heq]

/-! ## The running accounts -/

namespace ProcessingState

variable {ps : ProcessingState}

/-- The change of sats of a provider so far. -/
def delta (ps : ProcessingState) (pk : BIP340PubKey) : Int :=
  (ps.deltaSatsByFpBtcPk.get pk).getD 0

/-- The changes of sats are what the reported delegations add up to. -/
structure Balanced (ps : ProcessingState) : Prop where
  delta : ∀ pk, ps.delta pk = satsFor pk ps.activeDelegations - satsFor pk ps.unbondingDelegations
  touched : ∀ pk sats, ps.deltaSatsByFpBtcPk.get pk = some sats →
    ∃ info ∈ ps.activeDelegations ++ ps.unbondingDelegations, info.fpBtcPk = pk

theorem delta_addDeltaSats (ps : ProcessingState) (pk other : BIP340PubKey) (sats : Int) :
    (ps.addDeltaSats other sats).delta pk = ps.delta pk + if other = pk then sats else 0 := by
  unfold addDeltaSats delta
  rw [get_set]
  by_cases heq : pk = other
  · simp [heq]
  · simp [heq, Ne.symm heq]

theorem get_setFpState (ps : ProcessingState) (pk other : BIP340PubKey)
    (state : FinalityProviderState) :
    (ps.setFpState pk state).fpStatesByBtcPk.get other
      = if pk = other then some state else ps.fpStatesByBtcPk.get other := by
  unfold setFpState
  rw [get_set]
  by_cases heq : other = pk
  · simp [heq]
  · simp [heq, Ne.symm heq]

/-- One delegation is reported and the sats of its provider change accordingly. -/
theorem Balanced.report (hps : ps.Balanced) (info : DelegationInfo)
    {active unbonding : List DelegationInfo} {sats : Int}
    (hcase : active = [info] ∧ unbonding = [] ∧ sats = info.totalSat ∨
      active = [] ∧ unbonding = [info] ∧ sats = -info.totalSat) :
    Balanced { ps.addDeltaSats info.fpBtcPk sats with
      activeDelegations := ps.activeDelegations ++ active
      unbondingDelegations := ps.unbondingDelegations ++ unbonding } where
  delta := by
    intro pk
    refine (delta_addDeltaSats ps pk info.fpBtcPk sats).trans ?_
    rw [hps.delta pk, satsFor_append, satsFor_append]
    rcases hcase with ⟨rfl, rfl, rfl⟩ | ⟨rfl, rfl, rfl⟩ <;>
      by_cases heq : info.fpBtcPk = pk <;> simp [satsFor, heq] <;> omega
  touched := by
    intro pk total hget
    have hrpt : ∀ other, other ∈ ps.activeDelegations ++ ps.unbondingDelegations ∨ other = info →
        other ∈ ps.activeDelegations ++ active ++ (ps.unbondingDelegations ++ unbonding) := by
      rcases hcase with ⟨rfl, rfl, -⟩ | ⟨rfl, rfl, -⟩ <;> simp <;> tauto
    replace hget : (ps.deltaSatsByFpBtcPk.set info.fpBtcPk
      (ps.delta info.fpBtcPk + sats)).get pk = some total := hget
    rw [get_set] at hget
    split at hget
    case isTrue heq => exact ⟨info, hrpt info (.inr rfl), heq.symm⟩
    case isFalse =>
      obtain ⟨other, hmem, hpk⟩ := hps.touched pk total hget
      exact ⟨other, hrpt other (.inl hmem), hpk⟩

/-- A delegation becomes active. -/
theorem Balanced.active (hps : ps.Balanced) (d : BTCDelegation) :
    (ps.processPowerDistUpdateEventActive d).Balanced ∧
      ∃ deltas, ps.processPowerDistUpdateEventActive d = { ps with
        deltaSatsByFpBtcPk := deltas
        activeDelegations := ps.activeDelegations ++ delegationInfos d } := by
  unfold processPowerDistUpdateEventActive delegationInfos
  induction d.fpBtcPkList generalizing ps with
  | nil => exact ⟨hps, ps.deltaSatsByFpBtcPk, by simp⟩
  | cons first rest ih =>
    have hnext := hps.report ⟨d.stakerAddr, first, d.totalSat⟩ (.inl ⟨rfl, rfl, rfl⟩)
    rw [append_nil] at hnext
    obtain ⟨hbal, deltas, heq⟩ := ih hnext
    refine ⟨hbal, deltas, heq.trans ?_⟩
    simp only [addDeltaSats, map_cons, append_assoc, singleton_append]

/-- A delegation leaves. -/
theorem Balanced.unbond (hps : ps.Balanced) (d : BTCDelegation) :
    (ps.processPowerDistUpdateEventUnbond d).Balanced ∧
      ∃ deltas, ps.processPowerDistUpdateEventUnbond d = { ps with
        deltaSatsByFpBtcPk := deltas
        unbondingDelegations := ps.unbondingDelegations ++ delegationInfos d } := by
  unfold processPowerDistUpdateEventUnbond delegationInfos
  induction d.fpBtcPkList generalizing ps with
  | nil => exact ⟨hps, ps.deltaSatsByFpBtcPk, by simp⟩
  | cons first rest ih =>
    have hnext := hps.report ⟨d.stakerAddr, first, d.totalSat⟩ (.inr ⟨rfl, rfl, rfl⟩)
    rw [append_nil] at hnext
    obtain ⟨hbal, deltas, heq⟩ := ih hnext
    refine ⟨hbal, deltas, heq.trans ?_⟩
    simp only [addDeltaSats, map_cons, append_assoc, singleton_append]

end ProcessingState

/-! ## Events -/

section Events

variable {bs : BTCStaking.State} {prim : BtcPrimitives}

/-- The delegation that an event of this kind is about, if it meets a condition. -/
def eventDelegation (bs : BTCStaking.State) (newState : BTCDelegationStatus)
    (condition : BTCDelegation → Bool) : EventPowerDistUpdate → Option BTCDelegation
  | .btcDelStateUpdate hash state =>
    if state = newState then (bs.btcDelegations.get hash).filter condition else none
  | _ => none

/-- An expired delegation leaves if it has its quorum and has not left before. -/
def leavesExpired (bs : BTCStaking.State) (d : BTCDelegation) : Bool :=
  bs.hasQuorum d && !d.isUnbondedEarly

/-- The delegations that become active, in the order of the events. -/
def activations (bs : BTCStaking.State) (events : List EventPowerDistUpdate) : List BTCDelegation :=
  events.filterMap (eventDelegation bs .active fun _ => true)

/-- The delegations that leave, the unbonded ones before the expired ones. -/
def departures (bs : BTCStaking.State) (events : List EventPowerDistUpdate) : List BTCDelegation :=
  events.filterMap (eventDelegation bs .unbonded bs.hasQuorum) ++
    events.filterMap (eventDelegation bs .expired (leavesExpired bs))

/-- The delegation of an EXPIRED event. -/
def expiredHash : EventPowerDistUpdate → Option ChainHash
  | .btcDelStateUpdate hash .expired => some hash
  | _ => none

/-- The provider of a SLASHED event. -/
def slashedKey : EventPowerDistUpdate → Option BIP340PubKey
  | .slashedFp pk => some pk
  | _ => none

/-- What an event says about whether a provider is jailed. -/
def jailStep (pk : BIP340PubKey) (state : Option FinalityProviderState) :
    EventPowerDistUpdate → Option FinalityProviderState
  | .jailedFp other => if other = pk then some .jailed else state
  | .unjailedFp other => if other = pk then some .unjailed else state
  | _ => state

/-- The state of a provider after all its JAILED and UNJAILED events. -/
def jailState (pk : BIP340PubKey) (initial : Option FinalityProviderState)
    (events : List EventPowerDistUpdate) : Option FinalityProviderState :=
  events.foldl (jailStep pk) initial

/-- The states of providers that the previous cache knows. -/
def cachedStates (dc : VotingPowerDistCache) : KVStore BIP340PubKey FinalityProviderState :=
  (ProcessingState.new.fillByPrevVpDstCache dc).fpStatesByBtcPk

/-- An event about a delegation that is stored. -/
def Stored (bs : BTCStaking.State) : EventPowerDistUpdate → Prop
  | .btcDelStateUpdate hash _ => ∃ d, bs.btcDelegations.get hash = some d
  | _ => True

/-- What is known after some events; the EXPIRED and SLASHED ones are only collected. -/
structure Collected (bs : BTCStaking.State) (dc : VotingPowerDistCache)
    (events : List EventPowerDistUpdate) (ps : ProcessingState) : Prop where
  active : ps.activeDelegations = (activations bs events).flatMap delegationInfos
  unbonding : ps.unbondingDelegations
    = (events.filterMap (eventDelegation bs .unbonded bs.hasQuorum)).flatMap delegationInfos
  balanced : ps.Balanced
  expired : ps.expiredEvents = events.filterMap expiredHash
  slashed : ps.slashedEvents = events.filterMap slashedKey
  states : ∀ pk, ps.fpStatesByBtcPk.get pk = jailState pk ((cachedStates dc).get pk) events

theorem unbondIfQuorum_eq (hbs : bs.WellFormed prim) {hash : ChainHash} {d : BTCDelegation}
    (hd : bs.btcDelegations.get hash = some d) (ps : ProcessingState) :
    unbondIfQuorum bs ps d
      = .ok (if bs.hasQuorum d then ps.processPowerDistUpdateEventUnbond d else ps) := by
  obtain ⟨p, hp, -⟩ := hbs.exists_params hd
  simp [unbondIfQuorum, hp, hbs.btcDelHasCovenantQuorums_eq hd hp, Outcome.orPanic]

variable {ps ps' : ProcessingState}

theorem unbondIfQuorum_ok {d : BTCDelegation} (h : unbondIfQuorum bs ps d = .ok ps') :
    ps' = if bs.hasQuorum d then ps.processPowerDistUpdateEventUnbond d else ps := by
  simp only [unbondIfQuorum, ok_iff, Outcome.orPanic_ok_iff] at h
  obtain ⟨p, hp, quorum, hq, rfl⟩ := h
  rw [hasQuorum_of_params hp, prevQuorum]
  unfold btcDelHasCovenantQuorums at hq
  split at hq
  case h_1 hexp =>
    cases hq
    rw [hexp]
    rfl
  case h_2 stkExp hexp =>
    simp only [ok_iff] at hq
    obtain ⟨info, hinfo, rfl⟩ := hq
    obtain ⟨hprev, hpar, -⟩ := getBTCDelWithParams_resolves hinfo
    simp only [hexp, Option.bind_some, hprev, hpar]

/-- Filling in the previous cache touches only the states of providers. -/
theorem fillByPrevVpDstCache_eq (dc : VotingPowerDistCache) :
    ProcessingState.new.fillByPrevVpDstCache dc = { ProcessingState.new with
      prevActiveFpByBtcPk := dc.activeFpsByBtcPk
      fpStatesByBtcPk := cachedStates dc } := by
  obtain ⟨states, hfill⟩ : ∃ states, ProcessingState.new.fillByPrevVpDstCache dc =
      { ProcessingState.new with
        prevActiveFpByBtcPk := dc.activeFpsByBtcPk
        fpStatesByBtcPk := states } := by
    refine foldlRecOn (motive := fun ps : ProcessingState => ∃ states, ps =
      { ProcessingState.new with
        prevActiveFpByBtcPk := dc.activeFpsByBtcPk
        fpStatesByBtcPk := states }) _ _ ⟨KVStore.empty, rfl⟩ ?_
    rintro _ ⟨states, rfl⟩ fp _
    unfold ProcessingState.addStateForFp ProcessingState.setFpState
    split <;> split <;> exact ⟨_, rfl⟩
  rw [cachedStates, hfill]

theorem collected_nil (bs : BTCStaking.State) (dc : VotingPowerDistCache) :
    Collected bs dc [] (ProcessingState.new.fillByPrevVpDstCache dc) := by
  rw [fillByPrevVpDstCache_eq]
  refine ⟨rfl, rfl, ⟨fun pk => ?_, fun pk sats hget => ?_⟩, rfl, rfl, fun pk => rfl⟩
  · simp [ProcessingState.delta, ProcessingState.new]
  · cases hget

variable {events : List EventPowerDistUpdate}

section Step

attribute [local simp] activations eventDelegation expiredHash slashedKey jailState jailStep

/-- One more event is collected. -/
theorem Collected.step {dc : VotingPowerDistCache}
    (h : Collected bs dc events ps) {event : EventPowerDistUpdate}
    (hstep : processEvent bs ps event = .ok ps') : Collected bs dc (events ++ [event]) ps' := by
  obtain ⟨hactive, hunbonding, hps, hexpired, hslashed, hstates⟩ := h
  cases event with
  | btcDelStateUpdate hash newState =>
    cases newState with
    | active =>
      simp only [processEvent, processBtcDelUpdate, getBTCDelegation, ok_iff,
        Outcome.orPanic_ok_iff] at hstep
      obtain ⟨d, hd, rfl⟩ := hstep
      obtain ⟨hbal, deltas, heq⟩ := hps.active d
      rw [heq] at hbal ⊢
      refine ⟨?_, ?_, hbal, ?_, ?_, ?_⟩ <;> simp [Option.filter, *]
    | unbonded =>
      simp only [processEvent, processBtcDelUpdate, getBTCDelegation, ok_iff,
        Outcome.orPanic_ok_iff] at hstep
      obtain ⟨d, hd, hstep⟩ := hstep
      rw [unbondIfQuorum_ok hstep]
      split
      case isTrue hq =>
        obtain ⟨hbal, deltas, heq⟩ := hps.unbond d
        rw [heq] at hbal ⊢
        refine ⟨?_, ?_, hbal, ?_, ?_, ?_⟩ <;> simp [Option.filter, *]
      case isFalse hq =>
        refine ⟨?_, ?_, hps, ?_, ?_, ?_⟩ <;> simp [Option.filter, *]
    | expired =>
      cases hstep
      refine ⟨?_, ?_, ⟨hps.delta, hps.touched⟩, ?_, ?_, ?_⟩ <;> simp [*]
    | pending | verified =>
      simp only [processEvent, processBtcDelUpdate, ok_iff] at hstep
      obtain ⟨_, -, rfl⟩ := hstep
      refine ⟨?_, ?_, hps, ?_, ?_, ?_⟩ <;> simp [*]
  | slashedFp other =>
    cases hstep
    refine ⟨?_, ?_, ⟨hps.delta, hps.touched⟩, ?_, ?_, ?_⟩ <;> simp [*]
  | jailedFp other | unjailedFp other =>
    cases hstep
    refine ⟨?_, ?_, ⟨hps.delta, hps.touched⟩, ?_, ?_, fun pk => ?_⟩
    · simp [ProcessingState.setFpState, hactive]
    · simp [ProcessingState.setFpState, hunbonding]
    · simp [ProcessingState.setFpState, hexpired]
    · simp [ProcessingState.setFpState, hslashed]
    · rw [ProcessingState.get_setFpState, hstates, jailState, jailState, foldl_append]
      rfl

end Step

/-! ## All events -/

/-- What is known after all events. -/
structure Processed (bs : BTCStaking.State) (dc : VotingPowerDistCache)
    (events : List EventPowerDistUpdate) (ps : ProcessingState) : Prop where
  active : ps.activeDelegations = (activations bs events).flatMap delegationInfos
  unbonding : ps.unbondingDelegations = (departures bs events).flatMap delegationInfos
  balanced : ps.Balanced
  states : ∀ pk, ps.fpStatesByBtcPk.get pk = if .slashedFp pk ∈ events then some .slashed
    else jailState pk ((cachedStates dc).get pk) events

/-- The delegations of EXPIRED events leave. -/
theorem foldOutcome_processExpiredEvent (hps : ps.Balanced) {hashes : List ChainHash}
    (h : foldOutcome (processExpiredEvent bs) ps hashes = .ok ps') :
    ps'.Balanced ∧ ∃ deltas, ps' = { ps with
      deltaSatsByFpBtcPk := deltas
      unbondingDelegations := ps.unbondingDelegations ++
        (hashes.filterMap fun hash =>
          (bs.btcDelegations.get hash).filter (leavesExpired bs)).flatMap delegationInfos } := by
  refine foldOutcome_visited (fun visited ps' => ps'.Balanced ∧ ∃ deltas, ps' = { ps with
    deltaSatsByFpBtcPk := deltas
    unbondingDelegations := ps.unbondingDelegations ++
      (visited.filterMap fun hash =>
        (bs.btcDelegations.get hash).filter (leavesExpired bs)).flatMap delegationInfos })
    ?_ ⟨hps, ps.deltaSatsByFpBtcPk, by simp⟩ h
  rintro visited hash rest before after - ⟨hbal, deltas, hbef⟩ hcall
  simp only [processExpiredEvent, getBTCDelegation, ok_iff, Outcome.orPanic_ok_iff] at hcall
  obtain ⟨d, hd, hcall⟩ := hcall
  have haft : after = if leavesExpired bs d then before.processPowerDistUpdateEventUnbond d
      else before := by
    unfold leavesExpired
    split at hcall
    case isTrue hearly =>
      cases hcall
      simp [hearly]
    case isFalse hearly =>
      rw [unbondIfQuorum_ok hcall]
      simp [hearly]
  rw [haft]
  split
  case isTrue hleaves =>
    obtain ⟨haft, deltas', heq⟩ := hbal.unbond d
    refine ⟨haft, deltas', ?_⟩
    rw [heq, hbef]
    simp [hd, hleaves, Option.filter]
  case isFalse hstays =>
    refine ⟨hbal, deltas, ?_⟩
    rw [hbef]
    simp [hd, hstays, Option.filter]

/-- Marking providers as slashed. -/
theorem foldl_setFpState_slashed (pks : List BIP340PubKey) (ps : ProcessingState) :
    ∃ states, pks.foldl (fun ps pk => ps.setFpState pk .slashed) ps
        = { ps with fpStatesByBtcPk := states } ∧
      ∀ pk, states.get pk = if pk ∈ pks then some .slashed else ps.fpStatesByBtcPk.get pk := by
  induction pks generalizing ps with
  | nil => exact ⟨ps.fpStatesByBtcPk, rfl, by simp⟩
  | cons first rest ih =>
    obtain ⟨states, heq, hget⟩ := ih (ps.setFpState first .slashed)
    refine ⟨states, heq, fun pk => ?_⟩
    rw [hget pk, ProcessingState.get_setFpState]
    by_cases hrest : pk ∈ rest
    · simp [hrest]
    · by_cases hfirst : pk = first
      · simp [hfirst]
      · simp [hrest, hfirst, Ne.symm hfirst]

theorem mem_filterMap_slashedKey {pk : BIP340PubKey} :
    pk ∈ events.filterMap slashedKey ↔ .slashedFp pk ∈ events := by
  rw [mem_filterMap]
  constructor
  · rintro ⟨event, hmem, hkey⟩
    cases event <;> simp_all [slashedKey]
  · exact fun hmem => ⟨_, hmem, rfl⟩

theorem filterMap_expiredHash (events : List EventPowerDistUpdate) :
    ((events.filterMap expiredHash).filterMap fun hash =>
        (bs.btcDelegations.get hash).filter (leavesExpired bs))
      = events.filterMap (eventDelegation bs .expired (leavesExpired bs)) := by
  rw [filterMap_filterMap]
  refine filterMap_congr fun event _ => ?_
  cases event with
  | btcDelStateUpdate hash newState => cases newState <;> rfl
  | slashedFp pk => rfl
  | jailedFp pk => rfl
  | unjailedFp pk => rfl

section

variable {dc : VotingPowerDistCache} {lastBTCTip curBTCTip : Nat}

/-- The events are collected, then the delegations of EXPIRED events leave. -/
theorem collected_of_processAllEvents (h : foldOutcome (processEventsAtHeight bs)
    (ProcessingState.new.fillByPrevVpDstCache dc) (btcHeightRange lastBTCTip curBTCTip) = .ok ps) :
    Collected bs dc (bs.eventsIn (btcHeightRange lastBTCTip curBTCTip)) ps := by
  unfold processEventsAtHeight at h
  rw [foldOutcome_flatMap] at h
  refine foldOutcome_visited (Collected bs dc) ?_ (collected_nil bs dc) h
  intro visited event _ before after _ hcoll hstep
  exact hcoll.step hstep

theorem processed_of_processAllEvents (h : processAllEvents bs dc lastBTCTip curBTCTip = .ok ps) :
    Processed bs dc (bs.eventsIn (btcHeightRange lastBTCTip curBTCTip)) ps := by
  simp only [processAllEvents, ok_iff] at h
  obtain ⟨collected, hcollected, expired, hexpd, rfl⟩ := h
  have hcoll := collected_of_processAllEvents hcollected
  obtain ⟨hbal, deltas, heq⟩ := foldOutcome_processExpiredEvent hcoll.balanced hexpd
  obtain ⟨states, hsl, hsts⟩ := foldl_setFpState_slashed expired.slashedEvents expired
  rw [processSlashedEvents, hsl]
  refine ⟨?_, ?_, ⟨hbal.delta, hbal.touched⟩, ?_⟩
  · rw [heq]
    exact hcoll.active
  · rw [heq]
    rw [hcoll.unbonding, hcoll.expired, filterMap_expiredHash, departures, flatMap_append]
  · intro pk
    rw [hsts pk, heq]
    rw [hcoll.slashed, hcoll.states pk]
    simp only [mem_filterMap_slashedKey]

/-- Processing the events of a well-formed store succeeds. -/
theorem exists_processAllEvents (hbs : bs.WellFormed prim)
    (hsto : ∀ event ∈ bs.eventsIn (btcHeightRange lastBTCTip curBTCTip), Stored bs event) :
    ∃ ps, processAllEvents bs dc lastBTCTip curBTCTip = .ok ps := by
  have hload : ∀ {hash d}, bs.btcDelegations.get hash = some d →
      (bs.getBTCDelegation hash).orPanic "the BTC delegation is not found" = .ok d := by
    intro hash d hd
    simp [getBTCDelegation, hd, Outcome.orPanic]
  obtain ⟨collected, hcollected, -⟩ : ∃ ps, foldOutcome (processEventsAtHeight bs)
      (ProcessingState.new.fillByPrevVpDstCache dc) (btcHeightRange lastBTCTip curBTCTip) = .ok ps ∧
      True := by
    unfold processEventsAtHeight
    rw [foldOutcome_flatMap]
    refine foldOutcome_succeeds (fun _ => True) (fun ps event hmem _ => ?_) trivial
    have hthere := hsto event hmem
    simp only [and_true]
    cases event with
    | btcDelStateUpdate hash newState =>
      obtain ⟨d, hd⟩ := hthere
      cases newState <;> simp [processEvent, processBtcDelUpdate, hload hd,
        unbondIfQuorum_eq hbs hd]
    | slashedFp pk | jailedFp pk | unjailedFp pk => exact ⟨_, rfl⟩
  obtain ⟨expired, hexpd, -⟩ : ∃ ps, foldOutcome (processExpiredEvent bs) collected
      collected.expiredEvents = .ok ps ∧ True := by
    refine foldOutcome_succeeds (fun _ => True) (fun ps hash hmem _ => ?_) trivial
    rw [(collected_of_processAllEvents hcollected).expired] at hmem
    obtain ⟨event, hev, hhash⟩ := mem_filterMap.mp hmem
    have hthere := hsto event hev
    obtain ⟨d, hd⟩ : ∃ d, bs.btcDelegations.get hash = some d := by
      cases event with
      | btcDelStateUpdate other newState => cases newState <;> simp_all [expiredHash, Stored]
      | slashedFp pk | jailedFp pk | unjailedFp pk => cases hhash
    simp only [processExpiredEvent, hload hd, ok_bind, unbondIfQuorum_eq hbs hd, and_true]
    split <;> exact ⟨_, rfl⟩
  exact ⟨processSlashedEvents expired, by simp [processAllEvents, hcollected, hexpd]⟩

/-- What a cache without slashed providers says about a provider. -/
theorem get_cachedStates (hunslashed : ∀ info ∈ dc.finalityProviders, info.isSlashed = false)
    (hnd : (dc.finalityProviders.map (·.btcPk)).Nodup) :
    (∀ info ∈ dc.finalityProviders,
      (cachedStates dc).get info.btcPk = if info.isJailed then some .jailed else none) ∧
      ∀ pk, pk ∉ dc.finalityProviders.map (·.btcPk) → (cachedStates dc).get pk = none := by
  have hfold : ∀ (fps : List FinalityProviderDistInfo) (ps : ProcessingState) (pk : BIP340PubKey),
      (∀ info ∈ fps, info.isSlashed = false) →
      (fps.foldl ProcessingState.addStateForFp ps).fpStatesByBtcPk.get pk =
        if ∃ info ∈ fps, info.isJailed = true ∧ info.btcPk = pk then some .jailed
        else ps.fpStatesByBtcPk.get pk := by
    intro fps
    induction fps with
    | nil => simp
    | cons first rest ih =>
      intro ps pk hall
      rw [foldl_cons, ih _ pk fun info hmem => hall info (mem_cons_of_mem _ hmem)]
      simp only [ProcessingState.addStateForFp, hall first mem_cons_self, Bool.false_eq_true,
        if_false]
      by_cases hj : first.isJailed = true
      · rw [if_pos hj, ProcessingState.get_setFpState]
        by_cases hkey : first.btcPk = pk <;> simp [hj, hkey]
      · simp [hj]
  have hget := fun pk => hfold dc.finalityProviders
    { ProcessingState.new with prevActiveFpByBtcPk := dc.activeFpsByBtcPk } pk hunslashed
  refine ⟨fun info hinfo => (hget _).trans (if_congr ?_ rfl rfl), fun pk hnot => ?_⟩
  · constructor
    · rintro ⟨other, hother, hjailed, hkey⟩
      rwa [inj_on_of_nodup_map hnd hother hinfo hkey] at hjailed
    · exact fun hjailed => ⟨info, hinfo, hjailed, rfl⟩
  · refine (hget pk).trans (if_neg ?_)
    rintro ⟨info, hinfo, -, hkey⟩
    exact hnot (mem_map.mpr ⟨info, hinfo, hkey⟩)

end

/-! ## Sums over delegations -/

/-- The sats reported by events of one kind, summed over delegations. -/
theorem satsFor_eventDelegation (bs : BTCStaking.State) (newState : BTCDelegationStatus)
    (condition : BTCDelegation → Bool) (pk : BIP340PubKey) (events : List EventPowerDistUpdate) :
    satsFor pk ((events.filterMap (eventDelegation bs newState condition)).flatMap delegationInfos)
      = bs.btcDelegations.sumBy fun hash d =>
          if condition d then events.count (.btcDelStateUpdate hash newState) * d.satsTo pk
          else 0 := by
  induction events with
  | nil =>
    symm
    exact sumBy_eq_zero fun hash d _ => by simp
  | cons event rest ih =>
    -- the first event counts for one delegation at most
    have hsplit : (bs.btcDelegations.sumBy fun hash d =>
        if condition d then (event :: rest).count (.btcDelStateUpdate hash newState) * d.satsTo pk
        else 0) = (bs.btcDelegations.sumBy fun hash d =>
          if event = .btcDelStateUpdate hash newState ∧ condition d = true then d.satsTo pk
          else 0) + bs.btcDelegations.sumBy fun hash d =>
            if condition d then rest.count (.btcDelStateUpdate hash newState) * d.satsTo pk
            else 0 := by
      rw [← sumBy_add]
      refine sumBy_congr fun hash d _ => ?_
      rw [count_cons]
      by_cases hcond : condition d = true
      · by_cases heq : event = .btcDelStateUpdate hash newState
        · simp only [hcond, heq, if_true, and_self, beq_self_eq_true]
          ring
        · simp [hcond, heq]
      · simp [hcond]
    rw [filterMap_cons_eq, flatMap_append, satsFor_append, ih, hsplit]
    congr 1
    cases event with
    | btcDelStateUpdate hash state =>
      by_cases hstate : state = newState
      · have hsingle : (bs.btcDelegations.sumBy fun other d =>
            if EventPowerDistUpdate.btcDelStateUpdate hash state
                = .btcDelStateUpdate other newState ∧ condition d = true then d.satsTo pk
            else 0) = bs.btcDelegations.sumBy fun other d =>
              if other = hash then (if condition d then d.satsTo pk else 0) else 0 := by
          refine sumBy_congr fun other d _ => ?_
          by_cases heq : other = hash
          · simp [heq, hstate]
          · simp [heq, Ne.symm heq]
        rw [hsingle, sumBy_single, eventDelegation, if_pos hstate]
        cases bs.btcDelegations.get hash with
        | none => rfl
        | some d =>
          by_cases hcond : condition d = true
          · simp [hcond, Option.filter, satsFor_delegationInfos]
          · simp [hcond, Option.filter]
      · rw [eventDelegation, if_neg hstate]
        symm
        exact sumBy_eq_zero fun other d _ => by simp [hstate]
    | slashedFp other | jailedFp other | unjailedFp other =>
      symm
      exact sumBy_eq_zero fun hash d _ => by simp

/-- The sats that processing adds to a provider. -/
theorem satsFor_activations (bs : BTCStaking.State) (pk : BIP340PubKey)
    (events : List EventPowerDistUpdate) :
    satsFor pk ((activations bs events).flatMap delegationInfos)
      = bs.btcDelegations.sumBy fun hash d =>
          events.count (.btcDelStateUpdate hash .active) * d.satsTo pk := by
  rw [activations, satsFor_eventDelegation]
  exact sumBy_congr fun hash d _ => if_pos rfl

/-- The sats that processing takes away from a provider. -/
theorem satsFor_departures (bs : BTCStaking.State) (pk : BIP340PubKey)
    (events : List EventPowerDistUpdate) :
    satsFor pk ((departures bs events).flatMap delegationInfos)
      = bs.btcDelegations.sumBy fun hash d => bs.removals events hash * d.satsTo pk := by
  rw [departures, flatMap_append, satsFor_append, satsFor_eventDelegation,
    satsFor_eventDelegation, ← sumBy_add]
  refine sumBy_congr fun hash d hd => ?_
  simp only [removals, hd, leavesExpired]
  by_cases hq : bs.hasQuorum d = true
  · by_cases hearly : d.isUnbondedEarly = true
    · simp [hq, hearly]
    · simp only [hq, hearly, Bool.and_true, if_true, Bool.not_false, Bool.false_eq_true, if_false]
      ring
  · simp [hq]

end Events

end Babylon.Finality
