/-
  `x/costaking/keeper`: the hooks of `staking` and `epoching`.

  The active BABY of a costaker follows its delegations to the validators of the current
  epoch: `BeforeDelegationSharesModified` caches the tokens of a delegation,
  `AfterDelegationModified` adds the difference, and the end of an epoch adds the tokens
  of the validators that enter the set and removes those of the validators that leave it.
  The cache lives in memory: it is not reverted with a failed message, and it is cleared
  at the end of each block.  The hooks at genesis are left out.

  `x/staking` is not part of the repository.  It answers as it likes, and calls the hooks
  with any arguments.
-/
import Babylon.Costaking.Keeper

set_option autoImplicit false

namespace Babylon

open Lib Costaking

/-- What `x/staking` answers to the module at some moment: its interface `StakingKeeper`. -/
structure Costaking.StakingKeeper where
  /-- `GetDelegation`, of which the shares are read -/
  getDelegation : AccAddress → ValAddress → Outcome Dec
  /-- `GetValidator`, of which `TokensFromShares` is called -/
  getValidator : ValAddress → Outcome (Dec → Dec)
  /-- `GetValidatorDelegations`: the delegators and their shares -/
  getValidatorDelegations : ValAddress → Outcome (List (AccAddress × Dec))
  /-- the validators that `IterateLastValidatorPowers` visits -/
  lastValidatorPowers : List ValAddress

/-- What `x/staking` does while it executes a message or slashes a validator: it changes its own
state, or calls a hook, whose error it passes on or logs. -/
inductive Costaking.StakingCall where
  | update (staking : StakingKeeper)
  | beforeDelegationSharesModified (delAddr : AccAddress) (valAddr : ValAddress)
  | afterDelegationModified (delAddr : AccAddress) (valAddr : ValAddress)
  | beforeDelegationRemoved (delAddr : AccAddress) (valAddr : ValAddress)
  | beforeValidatorSlashed (valAddr : ValAddress) (fraction : Dec)
  | logged (hook : StakingCall)
  | fail (fault : Fault)

/-- `StakingCache`: the tokens of delegations that are being modified, and the validator set
of the epoch.  The cached shares are never read. -/
structure StakingCache where
  stkInfoByValByDel : KVStore AccAddress (KVStore ValAddress Dec)
  activeValSet : Option (List ValAddress)

namespace StakingCache

/-- `NewStakingCache` and `Clear`. -/
def new : StakingCache := ⟨KVStore.empty, none⟩

def setStakedInfo (sc : StakingCache) (delAddr : AccAddress) (valAddr : ValAddress)
    (amtStaked : Dec) : StakingCache :=
  { sc with stkInfoByValByDel := sc.stkInfoByValByDel.setUnder delAddr valAddr amtStaked }

def getStakedInfo (sc : StakingCache) (delAddr : AccAddress) (valAddr : ValAddress) : Dec :=
  ((sc.stkInfoByValByDel.under delAddr).get valAddr).getD 0

def delete (sc : StakingCache) (delAddr : AccAddress) (valAddr : ValAddress) : StakingCache :=
  { sc with
    stkInfoByValByDel :=
      sc.stkInfoByValByDel.set delAddr ((sc.stkInfoByValByDel.under delAddr).delete valAddr) }

end StakingCache

/-- The stores of the rewards, the answers of `staking` and the cache of `costaking`. -/
structure StakingStores where
  rewards : RewardStores
  staking : StakingKeeper
  stkCache : StakingCache

namespace StakingStores

/-! ## Reading the validator set -/

variable (c : StakingStores)

/-- `GetActiveValidatorSet` with `buildCurrEpochValSetMap`, which reads the stored set. -/
def getActiveValidatorSet : Outcome (List ValAddress × StakingStores) :=
  match c.stkCache.activeValSet with
  | some valSet => .ok (valSet, c)
  | none => do
      let valSet ← orThrow c.rewards.costaking.validatorSet (.errorf "collections: not found")
      return (valSet, { c with stkCache := { c.stkCache with activeValSet := some valSet } })

/-- Add to the active BABY of a costaker. -/
def addActiveBaby (delAddr : AccAddress) (amount : Int) : Attempt StakingStores StakingStores := do
  let rewards ← (c.rewards.costakerModified delAddr fun rwdTracker =>
    { rwdTracker with activeBaby := rwdTracker.activeBaby + amount }).within
      fun rewards => { c with rewards }
  return { c with rewards }

/-! ## Hooks of `staking` -/

/-- Delete the cached tokens of a delegation when a hook returns, also with an error. -/
def deferDelete (delAddr : AccAddress) (valAddr : ValAddress)
    (call : Attempt StakingStores StakingStores) : Attempt StakingStores StakingStores :=
  match call with
  | .ok c => .ok { c with stkCache := c.stkCache.delete delAddr valAddr }
  | .error (fault, c) => .error (fault, { c with stkCache := c.stkCache.delete delAddr valAddr })

/-- `TokensFromShares`. -/
def tokensFromShares (valAddr : ValAddress) (delShares : Dec) : Outcome Dec := do
  let tokensOf ← c.staking.getValidator valAddr
  return tokensOf delShares

/-- `BeforeDelegationSharesModified`: the error of a missing delegation is logged. -/
def beforeDelegationSharesModified (delAddr : AccAddress)
    (valAddr : ValAddress) : Attempt StakingStores StakingStores := do
  let (valSet, c) ← c.getActiveValidatorSet.leaving c
  if valAddr ∉ valSet then return c
  else
    match c.staking.getDelegation delAddr valAddr with
    | .error _ => return c
    | .ok shares =>
      let delTokens ← (c.tokensFromShares valAddr shares).leaving c
      return { c with stkCache := c.stkCache.setStakedInfo delAddr valAddr delTokens }

/-- `AfterDelegationModified`. -/
def afterDelegationModified (delAddr : AccAddress) (valAddr : ValAddress) :
    Attempt StakingStores StakingStores :=
  deferDelete delAddr valAddr do
    let (valSet, c) ← c.getActiveValidatorSet.leaving c
    if valAddr ∉ valSet then return c
    else
      let shares ← (c.staking.getDelegation delAddr valAddr).leaving c
      let delTokens ← (c.tokensFromShares valAddr shares).leaving c
      let infoBefore := c.stkCache.getStakedInfo delAddr valAddr
      c.addActiveBaby delAddr (delTokens - infoBefore).truncateInt

/-- `BeforeDelegationRemoved`. -/
def beforeDelegationRemoved (delAddr : AccAddress) (valAddr : ValAddress) :
    Attempt StakingStores StakingStores :=
  deferDelete delAddr valAddr do
    let (valSet, c) ← c.getActiveValidatorSet.leaving c
    if valAddr ∉ valSet then return c
    else
      let shares ← (c.staking.getDelegation delAddr valAddr).leaving c
      let delTokens ← (c.tokensFromShares valAddr shares).leaving c
      let delTokenChange := delTokens.truncateInt
      if delTokenChange = 0 then return c
      else c.addActiveBaby delAddr (-delTokenChange)

/-- `BeforeValidatorSlashed`. -/
def beforeValidatorSlashed (valAddr : ValAddress) (fraction : Dec) :
    Attempt StakingStores StakingStores := do
  let (valSet, c) ← c.getActiveValidatorSet.leaving c
  if valAddr ∉ valSet then return c
  else
    let delegations ← (c.staking.getValidatorDelegations valAddr).leaving c
    let tokensOf ← (c.staking.getValidator valAddr).leaving c
    foldOutcome (fun c del =>
      let delTokens := (tokensOf del.2).truncateInt
      c.addActiveBaby del.1 (-Dec.truncateInt (fraction * delTokens))) c delegations

/-! ## Hooks of `epoching` -/

/-- `updateValidatorSet`; of a validator only its address is read later. -/
def updateValidatorSet (newValAddrs : List ValAddress) : Outcome StakingStores := do
  foldOutcome (fun _ valAddr => (c.staking.getValidator valAddr).map fun _ => ()) () newValAddrs
  return { c with
    rewards := { c.rewards with
      costaking := { c.rewards.costaking with validatorSet := some newValAddrs } } }

/-- `AfterEpochBegins`: the first epoch stores the validator set. -/
def afterEpochBegins : StakingStores :=
  match c.rewards.costaking.validatorSet with
  | some _ => c
  | none => ((c.updateValidatorSet c.staking.lastValidatorPowers).leaving c).logged

/-- `BeforeEpochEnds`: fill the cache. -/
def beforeEpochEnds : StakingStores :=
  match c.getActiveValidatorSet with
  | .ok (_, c) => c
  | .error _ => c

/-- `updateCoStkTrackerForDelegators` with the sign of the update. -/
def updateCoStkTrackerForDelegators (valAddr : ValAddress)
    (update : Int → Int) : Attempt StakingStores StakingStores := do
  let tokensOf ←
    ((c.staking.getValidator valAddr).orWrap "failed to get validator %s: %w").leaving c
  let delegations ← (c.staking.getValidatorDelegations valAddr).leaving c
  foldOutcome (fun c del => c.addActiveBaby del.1
    (update (tokensOf del.2).truncateInt)) c delegations

/-- `addBabyForDelegators`. -/
def addBabyForDelegators (valAddr : ValAddress) : Attempt StakingStores StakingStores :=
  c.updateCoStkTrackerForDelegators valAddr fun amount => amount

/-- `removeBabyForDelegators`. -/
def removeBabyForDelegators (valAddr : ValAddress) : Attempt StakingStores StakingStores :=
  c.updateCoStkTrackerForDelegators valAddr fun amount => -amount

/-- The second half of `AfterEpochEnds`: errors are logged and the loop goes on.  The source visits
the validators in the order of their address texts, here it is the one of the stored set. -/
def removeInactive (prevValAddrs newValAddrs : List ValAddress) : StakingStores :=
  (prevValAddrs.filter (· ∉ newValAddrs)).foldl
    (fun c valAddr => (c.removeBabyForDelegators valAddr).logged) c

/-- `AfterEpochEnds`.  An error while the tokens of a new validator are added ends the hook. -/
def afterEpochEnds : StakingStores :=
  match c.getActiveValidatorSet with
  | .error _ => c
  | .ok (prevValAddrs, c) =>
    let newValAddrs := c.staking.lastValidatorPowers
    match foldOutcome addBabyForDelegators c (newValAddrs.filter (· ∉ prevValAddrs)) with
    | .error (_, c) => c
    | .ok c =>
      let c := c.removeInactive prevValAddrs newValAddrs
      ((c.updateValidatorSet newValAddrs).leaving c).logged

/-- `EndBlock`: clear the cache. -/
def endBlock : StakingStores := { c with stkCache := StakingCache.new }

/-! ## Calls of `staking` -/

/-- One call of `x/staking`. -/
def call (c : StakingStores) : StakingCall → Attempt StakingStores StakingStores
  | .update staking => .ok { c with staking }
  | .beforeDelegationSharesModified delAddr valAddr =>
    c.beforeDelegationSharesModified delAddr valAddr
  | .afterDelegationModified delAddr valAddr => c.afterDelegationModified delAddr valAddr
  | .beforeDelegationRemoved delAddr valAddr => c.beforeDelegationRemoved delAddr valAddr
  | .beforeValidatorSlashed valAddr fraction => c.beforeValidatorSlashed valAddr fraction
  | .logged hook => .ok (c.call hook).logged
  | .fail fault => .error (fault, c)

/-- A message of which a failure is reverted, up to the cache. -/
def deliver (message : Attempt StakingStores StakingStores) : StakingStores :=
  match message with
  | .ok c => c
  | .error (_, failed) => { c with stkCache := failed.stkCache }

end StakingStores

end Babylon
