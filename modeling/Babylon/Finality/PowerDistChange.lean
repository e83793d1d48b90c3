/-
  `x/finality/keeper/power_dist_change.go`: in `BeginBlock`, the distribution
  cache of the previous height and the events recorded by `btcstaking` since
  then are reconciled into the cache and the voting power table of the height.

  The map `FpByBtcPk` only saves repeated reads of the store of finality
  providers, which does not change meanwhile, and has no counterpart here.
  Emitted events and metrics are left out.
-/
import Babylon.Finality.Keeper

set_option autoImplicit false

namespace Babylon.Finality

open Lib BTCStaking VotingPowerDistCache

/-- `FinalityProviderState`; the unknown state is that of a missing key. -/
inductive FinalityProviderState where
  | unjailed
  | jailed
  | slashed
deriving DecidableEq

/-- `DelegationInfo`. -/
structure DelegationInfo where
  delegator : AccAddress
  fpBtcPk : BIP340PubKey
  totalSat : Nat

/-- `ProcessingState`. -/
structure ProcessingState where
  prevActiveFpByBtcPk : List BIP340PubKey
  fpStatesByBtcPk : KVStore BIP340PubKey FinalityProviderState
  deltaSatsByFpBtcPk : KVStore BIP340PubKey Int
  expiredEvents : List ChainHash
  slashedEvents : List BIP340PubKey
  activeDelegations : List DelegationInfo
  unbondingDelegations : List DelegationInfo

namespace ProcessingState

/-- `NewProcessingState`. -/
def new : ProcessingState where
  prevActiveFpByBtcPk := []
  fpStatesByBtcPk := KVStore.empty
  deltaSatsByFpBtcPk := KVStore.empty
  expiredEvents := []
  slashedEvents := []
  activeDelegations := []
  unbondingDelegations := []

variable (ps : ProcessingState)

def setFpState (fpBtcPk : BIP340PubKey) (state : FinalityProviderState) : ProcessingState :=
  { ps with fpStatesByBtcPk := ps.fpStatesByBtcPk.set fpBtcPk state }

/-- `AddStateForFp`: of a provider that is both, being jailed is remembered. -/
def addStateForFp (fp : FinalityProviderDistInfo) : ProcessingState :=
  let ps := if fp.isSlashed then ps.setFpState fp.btcPk .slashed else ps
  if fp.isJailed then ps.setFpState fp.btcPk .jailed else ps

/-- `FillByPrevVpDstCache`. -/
def fillByPrevVpDstCache (dc : VotingPowerDistCache) : ProcessingState :=
  dc.finalityProviders.foldl addStateForFp
    { ps with prevActiveFpByBtcPk := ps.prevActiveFpByBtcPk ++ dc.activeFpsByBtcPk }

/-- `IsFpInPrevActiveSet`. -/
def isFpInPrevActiveSet (fpBtcPk : BIP340PubKey) : Bool :=
  decide (fpBtcPk ∈ ps.prevActiveFpByBtcPk)

/-- `DeltaSatsByFpBtcPk[fp] += sats`. -/
def addDeltaSats (fpBtcPk : BIP340PubKey) (sats : Int) : ProcessingState :=
  { ps with deltaSatsByFpBtcPk :=
      ps.deltaSatsByFpBtcPk.set fpBtcPk ((ps.deltaSatsByFpBtcPk.get fpBtcPk).getD 0 + sats) }

/-- `processPowerDistUpdateEventActive`. -/
def processPowerDistUpdateEventActive (btcDel : BTCDelegation) : ProcessingState :=
  btcDel.fpBtcPkList.foldl (fun ps fpBTCPK =>
    { ps.addDeltaSats fpBTCPK btcDel.totalSat with
      activeDelegations :=
        ps.activeDelegations ++ [⟨btcDel.stakerAddr, fpBTCPK, btcDel.totalSat⟩] }) ps

/-- `processPowerDistUpdateEventUnbond`. -/
def processPowerDistUpdateEventUnbond (btcDel : BTCDelegation) : ProcessingState :=
  btcDel.fpBtcPkList.foldl (fun ps fpBTCPK =>
    { ps.addDeltaSats fpBTCPK (-btcDel.totalSat) with
      unbondingDelegations :=
        ps.unbondingDelegations ++ [⟨btcDel.stakerAddr, fpBTCPK, btcDel.totalSat⟩] }) ps

end ProcessingState

/-! ## Events -/

section Events

variable (bs : BTCStaking.State) (ps : ProcessingState)

/-- The sats of a delegation leave the distribution if it has its covenant quorum. -/
def unbondIfQuorum (btcDel : BTCDelegation) : Outcome ProcessingState := do
  let delParams ← orThrow (bs.params.get btcDel.paramsVersion) (.panic "nil params")
  let hasQuorum ← (bs.btcDelHasCovenantQuorums btcDel delParams.covenantQuorum).orPanic
    "failed to check the covenant quorum"
  return if hasQuorum then ps.processPowerDistUpdateEventUnbond btcDel else ps

/-- `processBtcDelUpdate`. -/
def processBtcDelUpdate (delStkTxHash : ChainHash)
    (newState : BTCDelegationStatus) : Outcome ProcessingState := do
  let btcDel ← (bs.getBTCDelegation delStkTxHash).orPanic "the BTC delegation is not found"
  match newState with
  | .active => return ps.processPowerDistUpdateEventActive btcDel
  | .unbonded => unbondIfQuorum bs ps btcDel
  | _ => return ps

/-- `processEventsAtHeight` for one event: EXPIRED and SLASHED ones are deferred. -/
def processEvent : EventPowerDistUpdate → Outcome ProcessingState
  | .btcDelStateUpdate hash .expired =>
    .ok { ps with expiredEvents := ps.expiredEvents ++ [hash] }
  | .btcDelStateUpdate hash newState => processBtcDelUpdate bs ps hash newState
  | .slashedFp pk => .ok { ps with slashedEvents := ps.slashedEvents ++ [pk] }
  | .jailedFp pk => .ok (ps.setFpState pk .jailed)
  | .unjailedFp pk => .ok (ps.setFpState pk .unjailed)

/-- `processEventsAtHeight`. -/
def processEventsAtHeight (btcHeight : Nat) : Outcome ProcessingState :=
  foldOutcome (processEvent bs) ps (bs.eventsAt btcHeight)

/-- `processExpiredEvents` for one event. -/
def processExpiredEvent (delStkTxHash : ChainHash) : Outcome ProcessingState := do
  let btcDel ← (bs.getBTCDelegation delStkTxHash).orPanic "the BTC delegation is not found"
  if btcDel.isUnbondedEarly then return ps else unbondIfQuorum bs ps btcDel

end Events

/-- `processSlashedEvents`. -/
def processSlashedEvents (ps : ProcessingState) : ProcessingState :=
  ps.slashedEvents.foldl (fun ps pk => ps.setFpState pk .slashed) ps

/-- The BTC heights `last, last + 1, ..., current`. -/
def btcHeightRange (last current : Nat) : List Nat := List.range' last (current + 1 - last)

/-- All events since the last height, in the order they take effect. -/
def processAllEvents (bs : BTCStaking.State) (dc : VotingPowerDistCache)
    (lastBTCTip curBTCTip : Nat) : Outcome ProcessingState := do
  let state := ProcessingState.new.fillByPrevVpDstCache dc
  let state ← foldOutcome (processEventsAtHeight bs) state (btcHeightRange lastBTCTip curBTCTip)
  let state ← foldOutcome (processExpiredEvent bs) state state.expiredEvents
  return processSlashedEvents state

/-! ## The new distribution -/

/-- Label a provider with the state that events gave it. -/
def FinalityProviderDistInfo.withState (fp : FinalityProviderDistInfo) :
    Option FinalityProviderState → FinalityProviderDistInfo
  | some .jailed => { fp with isJailed := true }
  | some .unjailed => { fp with isJailed := false }
  | _ => fp

/-- Change the bonded sats of a provider, and keep it if it has any. -/
def addIfBonded (fps : List FinalityProviderDistInfo) (fp : FinalityProviderDistInfo)
    (fpDeltaSats : Int) : Outcome (List FinalityProviderDistInfo) := do
  let fp ← (fp.changeDeltaSats fpDeltaSats).orPanic "unable to update delta sats %d fp %s - %s"
  return if 0 < fp.totalBondedSat then fps ++ [fp] else fps

/-- The loop over the providers of the previous cache, which consumes the deltas of
the providers it visits. -/
def updateCachedFp (states : KVStore BIP340PubKey FinalityProviderState)
    (acc : List FinalityProviderDistInfo × KVStore BIP340PubKey Int)
    (fp : FinalityProviderDistInfo) :
    Outcome (List FinalityProviderDistInfo × KVStore BIP340PubKey Int) :=
  if states.get fp.btcPk = some .slashed then .ok acc
  else do
    let fps ← addIfBonded acc.1 (fp.withState (states.get fp.btcPk))
      ((acc.2.get fp.btcPk).getD 0)
    return (fps, acc.2.delete fp.btcPk)

/-- The loop over the providers that were not in the previous cache. -/
def addNewFp (bs : BTCStaking.State) (states : KVStore BIP340PubKey FinalityProviderState)
    (deltas : KVStore BIP340PubKey Int) (fps : List FinalityProviderDistInfo)
    (fpBTCPK : BIP340PubKey) : Outcome (List FinalityProviderDistInfo) := do
  let newFP ← (bs.getFinalityProvider fpBTCPK).orPanic "unable to load fp %s - %s"
  -- a delegation created before its provider was slashed may become active later
  if newFP.isSlashed then return fps
  else
    addIfBonded fps ((FinalityProviderDistInfo.new newFP).withState (states.get fpBTCPK))
      ((deltas.get fpBTCPK).getD 0)

/-- `ProcessAllPowerDistUpdateEvents`. -/
def processAllPowerDistUpdateEvents (bs : BTCStaking.State) (dc : VotingPowerDistCache)
    (lastBTCTip curBTCTip : Nat) : Outcome (VotingPowerDistCache × ProcessingState) := do
  let state ← processAllEvents bs dc lastBTCTip curBTCTip
  let states := state.fpStatesByBtcPk
  let (fps, deltas) ← foldOutcome (updateCachedFp states) ([], state.deltaSatsByFpBtcPk)
    dc.finalityProviders
  let fpActiveBtcPkList := deltas.keys.filter fun pk => states.get pk ≠ some .slashed
  let fps ← foldOutcome (addNewFp bs states deltas) fps fpActiveBtcPkList
  return (withFinalityProviders fps, { state with deltaSatsByFpBtcPk := deltas })

/-! ## Recording and reporting -/

/-- `RecordVotingPowerAndCache`; returns the cache with its active providers. -/
def State.recordVotingPowerAndCache (s : State) (env : Env) (newDc : VotingPowerDistCache) :
    State × VotingPowerDistCache :=
  let babylonTipHeight := env.header.height
  let labelled := newDc.finalityProviders.map fun fp =>
    { fp with isTimestamped := s.hasTimestampedPubRand env fp.btcPk babylonTipHeight }
  let newDc := (withFinalityProviders labelled).applyActiveFinalityProviders
    s.params.maxActiveFinalityProviders
  let s := newDc.getActiveFinalityProviderSet.foldl
    (fun s fp => s.setVotingPower fp.btcPk babylonTipHeight fp.totalBondedSat) s
  (s.setVotingPowerDistCache babylonTipHeight newDc, newDc)

/-- `HandleActivatedFinalityProvider`: reset or create the signing info. -/
def State.handleActivatedFinalityProvider (s : State) (env : Env) (fpPk : BIP340PubKey) : State :=
  match s.finalityProviderSigningTracker.get fpPk with
  | some info =>
    s.setSigningInfo fpPk { info with startHeight := env.header.height, jailedUntil := 0 }
  | none => s.setSigningInfo fpPk ⟨env.header.height, 0, 0⟩

section Hooks

variable {I : Type} (ext : External I) (env : Env)

/-- `processBtcDelHook` for one delegation. -/
def processBtcDelHook (hook : I → AccAddress → AccAddress → Bool → Bool → Nat → Option I)
    (bs : BTCStaking.State) (state : ProcessingState) (activeFps : List BIP340PubKey)
    (external : I) (del : DelegationInfo) : Outcome I := do
  let fp ← (bs.getFinalityProvider del.fpBtcPk).orPanic "failed to load fp %s: %w"
  orThrow
    (hook external fp.addr del.delegator (state.isFpInPrevActiveSet fp.btcPk)
      (decide (fp.btcPk ∈ activeFps)) del.totalSat)
    (.hookFailed "failed to call hook for fp %s: %w")

/-- `processHooksBTCDelegation`: activations before unbondings. -/
def processHooksBTCDelegation (w : Stores I) (state : ProcessingState)
    (newDc : VotingPowerDistCache) : Outcome (Stores I) := do
  let activeFps := newDc.activeFpsByBtcPk
  let external ← foldOutcome
    (processBtcDelHook (ext.afterBtcDelegationActivated env.header) w.btcStaking state activeFps)
    w.external state.activeDelegations
  let external ← foldOutcome
    (processBtcDelHook (ext.afterBtcDelegationUnbonded env.header) w.btcStaking state activeFps)
    external state.unbondingDelegations
  return { w with external }

/-- `processActiveFp`. -/
def processActiveFp (shouldCallHooks : Bool) (w : Stores I) (fp : FinalityProviderDistInfo) :
    Outcome (Stores I) := do
  let w := { w with finality := w.finality.handleActivatedFinalityProvider env fp.btcPk }
  if shouldCallHooks then do
    let external ← orThrow (ext.afterBbnFpEntersActiveSet env.header w.external fp.addr)
      (.hookFailed "failed to call hook fp enters active set %s - %s: %w")
    return { w with external }
  else
    return w

/-- `isFpSlashedOrJailed`, which reads the processing state only for providers that
are neither in the cache. -/
def isFpSlashedOrJailed (state : Option ProcessingState) (fp : FinalityProviderDistInfo) :
    Outcome Bool :=
  if fp.isJailed || fp.isSlashed then .ok true
  else do
    let state ← orThrow state (.panic "invalid memory address or nil pointer dereference")
    return decide (state.fpStatesByBtcPk.get fp.btcPk = some .jailed ∨
      state.fpStatesByBtcPk.get fp.btcPk = some .slashed)

/-- The hook of `processInactiveFp`, for providers of the previous active set. -/
def callRemovedHook (state : Option ProcessingState) (shouldCallHooks : Bool) (w : Stores I)
    (fp : FinalityProviderDistInfo) : Outcome (Stores I) :=
  if shouldCallHooks then do
    let state ← orThrow state (.panic "invalid memory address or nil pointer dereference")
    if state.isFpInPrevActiveSet fp.btcPk then do
      let external ← orThrow (ext.afterBbnFpRemovedFromActiveSet env.header w.external fp.addr)
        (.hookFailed "failed to call hook fp removed from active set %s - %s: %w")
      return { w with external }
    else
      return w
  else
    return w

/-- `processInactiveFp`. -/
def processInactiveFp (state : Option ProcessingState) (shouldCallHooks : Bool) (w : Stores I)
    (fp : FinalityProviderDistInfo) : Outcome (Stores I) := do
  let w ← callRemovedHook ext env state shouldCallHooks w fp
  -- only an emitted event depends on the answer
  let _ ← isFpSlashedOrJailed state fp
  return w

/-- `HandleFPStateUpdates`. -/
def handleFPStateUpdates (w : Stores I) (state : Option ProcessingState)
    (prevDc newDc : VotingPowerDistCache) (shouldCallHooks : Bool) : Outcome (Stores I) := do
  let w ← foldOutcome (processActiveFp ext env shouldCallHooks) w
    (newDc.findNewActiveFinalityProviders prevDc)
  foldOutcome (processInactiveFp ext env state shouldCallHooks) w
    (newDc.findNewInactiveFinalityProviders prevDc)

/-- `UpdatePowerDist`. -/
def updatePowerDist (w : Stores I) : Outcome (Stores I) := do
  let height := env.header.height
  let btcTipHeight := env.lc.tipHeight
  let dc := (w.finality.getVotingPowerDistCache (height - 1)).getD new
  let lastBTCTipHeight := w.btcStaking.getBTCHeightAtBabylonHeight env.lc (height - 1)
  let (newDc, state) ← processAllPowerDistUpdateEvents w.btcStaking dc lastBTCTipHeight btcTipHeight
  let (finality, newDc) := w.finality.recordVotingPowerAndCache env newDc
  let w ← processHooksBTCDelegation ext env { w with finality } state newDc
  let w ← handleFPStateUpdates ext env w (some state) dc newDc true
  let btcStaking := (btcHeightRange lastBTCTipHeight btcTipHeight).foldl
    BTCStaking.State.clearPowerDistUpdateEvents w.btcStaking
  return { w with btcStaking }

end Hooks

end Babylon.Finality
