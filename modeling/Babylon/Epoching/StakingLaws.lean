/-
  What is assumed of `x/staking`, and a small staking module that keeps to it.

  The theorems about queued messages hold for every staking module that leaves the
  delegation pool alone, those about unbonding for every one that gives an entry the
  unbonding time in force when it was made.  `LocalStaking` has validators, entries and
  parameters, and no shares.
-/
import Babylon.Epoching.Chain

set_option autoImplicit false

namespace Babylon.Epoching

open Lib

/-! ## Assumptions -/

/-- The delegation pool lost nothing, and the same accounts may not receive funds. -/
structure PoolKept (before after : Bank) : Prop where
  holds : after.Holds .delegatePool (before.modules .delegatePool)
  blockedAddrs : after.blockedAddrs = before.blockedAddrs

/-- `x/staking` never takes from the delegation pool. -/
structure StakingKeeper.Custodial {S : Type} (stk : StakingKeeper S) : Prop where
  execute : ∀ {header msg s bank s' bank'},
    stk.execute header msg s bank = .ok (s', bank') → PoolKept bank bank'
  applyValidatorSetUpdates : ∀ header s bank,
    PoolKept bank (stk.applyValidatorSetUpdates header s bank).2
  completeMature : ∀ time s bank, PoolKept bank (stk.completeMature time s bank).2

/-- An entry was made at a block with the unbonding time of then, or goes with one that was there:
a redelegation from a validator that is unbonding ends with that. -/
def Unbonding.Stems (entry : Unbonding) (header : HeaderInfo) (unbondingTime : Time)
    (present : List Unbonding) : Prop :=
  (entry.creationHeight = header.height ∧ entry.completionTime = header.time + unbondingTime) ∨
    ∃ other ∈ present, entry.creationHeight = other.creationHeight ∧
      entry.completionTime = other.completionTime

/-- The unbonding time in force after a message. -/
def StakingMsg.unbondingTime (msg : StakingMsg) (current : Time) : Time :=
  match msg with
  | .updateParams msg => msg.params.unbondingTime
  | _ => current

/-- `x/staking` completes the entries whose time has come, and no others. -/
structure StakingKeeper.Timely {S : Type} (stk : StakingKeeper S) : Prop where
  execute : ∀ {header msg s bank s' bank'}, stk.execute header msg s bank = .ok (s', bank') →
    (stk.params s').unbondingTime = msg.unbondingTime (stk.params s).unbondingTime ∧
      ∀ entry ∈ stk.unbondings s',
        entry.Stems header (stk.params s).unbondingTime (stk.unbondings s)
  applyValidatorSetUpdates : ∀ header s bank,
    stk.params (stk.applyValidatorSetUpdates header s bank).1 = stk.params s ∧
      ∀ entry ∈ stk.unbondings (stk.applyValidatorSetUpdates header s bank).1,
        entry.Stems header (stk.params s).unbondingTime (stk.unbondings s)
  completeMature : ∀ time s bank,
    stk.params (stk.completeMature time s bank).1 = stk.params s ∧
      stk.unbondings (stk.completeMature time s bank).1 =
        (stk.unbondings s).filter fun entry => decide (time < entry.completionTime)

/-! ## A staking module -/

/-- The state of the staking module. -/
structure LocalStaking where
  params : StakingParams
  validators : List ValAddress
  unbondings : List Unbonding

namespace LocalStaking

/-- Take a coin from an account. -/
def debit (bank : Bank) (account : AccAddress) (coin : Coin) : Outcome Bank := do
  let balance ← (bank.balanceOf account).sub (Stores.newCoins coin)
  return { bank with accounts := bank.accounts.set account balance }

/-- Start an unbonding. -/
def unbond (s : LocalStaking) (header : HeaderInfo) (kind : UnbondingKind) : LocalStaking :=
  { s with
    unbondings := s.unbondings ++ [⟨kind, header.height, header.time + s.params.unbondingTime⟩] }

/-- The message server. -/
def execute (header : HeaderInfo) (msg : StakingMsg) (s : LocalStaking) (bank : Bank) :
    Outcome (LocalStaking × Bank) :=
  match msg with
  | .createValidator msg => do
      let valAddr ← valAddressFromBech32 msg.validatorAddress
      let bank ← debit bank valAddr msg.value
      return ({ s with validators := valAddr :: s.validators }, bank)
  | .delegate msg => do
      let (delAddr, valAddr) ← Stores.parseDelValAddr msg.delegatorAddress msg.validatorAddress
      ensure (valAddr ∈ s.validators) (.errorf "validator does not exist")
      let bank ← debit bank delAddr msg.amount
      return (s, bank)
  | .undelegate msg => do
      let (delAddr, valAddr) ← Stores.parseDelValAddr msg.delegatorAddress msg.validatorAddress
      return (s.unbond header (.delegation delAddr valAddr), bank)
  | .beginRedelegate msg => do
      let (delAddr, srcAddr) ← Stores.parseDelValAddr msg.delegatorAddress msg.validatorSrcAddress
      let dstAddr ← valAddressFromBech32 msg.validatorDstAddress
      return (s.unbond header (.redelegation delAddr srcAddr dstAddr), bank)
  | .cancelUnbondingDelegation _ => throw (.errorf "unbonding delegation entry is not found")
  | .editValidator _ => return (s, bank)
  | .updateParams msg => return ({ s with params := msg.params }, bank)

/-- Complete the entries that are mature. -/
def completeMature (time : Time) (s : LocalStaking) (bank : Bank) : LocalStaking × Bank :=
  ({ s with unbondings := s.unbondings.filter fun entry => decide (time < entry.completionTime) },
    bank)

/-- The delegations among them. -/
def completedUnbondings (time : Time) (s : LocalStaking) : List (AccAddress × ValAddress) :=
  s.unbondings.filterMap fun entry =>
    match entry.kind with
    | .delegation delegator validator =>
      if entry.completionTime ≤ time then some (delegator, validator) else none
    | _ => none

end LocalStaking

/-- The staking module. -/
def localStaking : StakingKeeper LocalStaking where
  params := LocalStaking.params
  hasValidator := fun s valAddr => decide (valAddr ∈ s.validators)
  validateUnbondAmount := fun _ _ _ _ => .ok ()
  hasMaxUnbondingDelegationEntries := fun _ _ _ => false
  hasReceivingRedelegation := fun _ _ _ => false
  hasMaxRedelegationEntries := fun _ _ _ _ => false
  checkNewValidator := fun _ _ => .ok ()
  validateParams := fun _ => .ok ()
  execute := LocalStaking.execute
  applyValidatorSetUpdates := fun _ s bank => (s, bank)
  lastValidatorPowers := fun s => s.validators.map (·, 1)
  unbondings := LocalStaking.unbondings
  completeMature := LocalStaking.completeMature
  completedUnbondings := LocalStaking.completedUnbondings

namespace LocalStaking

variable {header : HeaderInfo} {s : LocalStaking} {bank bank' : Bank}

theorem poolKept_self (bank : Bank) : PoolKept bank bank := ⟨fun _ _ => Nat.le_refl _, rfl⟩

theorem poolKept_debit {account : AccAddress} {coin : Coin}
    (h : debit bank account coin = .ok bank') : PoolKept bank bank' := by
  simp only [debit, ok_iff] at h
  obtain ⟨_, -, rfl⟩ := h
  exact ⟨fun _ _ => Nat.le_refl _, rfl⟩

theorem stems_self {entry : Unbonding} (h : entry ∈ s.unbondings) :
    entry.Stems header s.params.unbondingTime s.unbondings :=
  .inr ⟨entry, h, rfl, rfl⟩

theorem stems_unbond {kind : UnbondingKind} {entry : Unbonding}
    (h : entry ∈ (s.unbond header kind).unbondings) :
    entry.Stems header s.params.unbondingTime s.unbondings := by
  rcases List.mem_append.mp h with h | h
  · exact stems_self h
  · obtain rfl := List.mem_singleton.mp h
    exact .inl ⟨rfl, rfl⟩

/-- What a message changes: nothing in the pool, and the entries it starts. -/
theorem execute_ok {msg : StakingMsg} {s' : LocalStaking}
    (h : execute header msg s bank = .ok (s', bank')) :
    PoolKept bank bank' ∧
      s'.params.unbondingTime = msg.unbondingTime s.params.unbondingTime ∧
      ∀ entry ∈ s'.unbondings, entry.Stems header s.params.unbondingTime s.unbondings := by
  unfold execute at h
  cases msg with
  | createValidator =>
    simp only [ok_iff, Prod.mk.injEq] at h
    obtain ⟨_, -, _, hdebit, rfl, rfl⟩ := h
    exact ⟨poolKept_debit hdebit, rfl, fun _ => stems_self⟩
  | delegate =>
    simp only [ok_iff, Prod.mk.injEq] at h
    obtain ⟨_, -, _, -, _, hdebit, rfl, rfl⟩ := h
    exact ⟨poolKept_debit hdebit, rfl, fun _ => stems_self⟩
  | undelegate =>
    simp only [ok_iff, Prod.mk.injEq] at h
    obtain ⟨_, -, rfl, rfl⟩ := h
    exact ⟨poolKept_self bank, rfl, fun _ => stems_unbond⟩
  | beginRedelegate =>
    simp only [ok_iff, Prod.mk.injEq] at h
    obtain ⟨_, -, _, -, rfl, rfl⟩ := h
    exact ⟨poolKept_self bank, rfl, fun _ => stems_unbond⟩
  | cancelUnbondingDelegation => cases h
  | editValidator | updateParams =>
    cases h
    exact ⟨poolKept_self bank, rfl, fun _ hmem => stems_self hmem⟩

end LocalStaking

theorem localStaking_custodial : localStaking.Custodial where
  execute := fun h => (LocalStaking.execute_ok h).1
  applyValidatorSetUpdates := fun _ _ bank => LocalStaking.poolKept_self bank
  completeMature := fun _ _ bank => LocalStaking.poolKept_self bank

theorem localStaking_timely : localStaking.Timely where
  execute := fun h => (LocalStaking.execute_ok h).2
  applyValidatorSetUpdates := fun _ _ _ => ⟨rfl, fun _ => LocalStaking.stems_self⟩
  completeMature := fun _ _ _ => ⟨rfl, rfl⟩

/-! ## A chain with this module -/

/-- A new chain with one validator, epochs of two blocks and the given balances. -/
def localChain (accounts : KVStore AccAddress Coins) : Chain LocalStaking where
  header := ⟨0, 0, []⟩
  phase := .ended
  epoching :=
    { params := { Params.default with epochInterval := 2 }
      epochInfo := KVStore.empty.set 0 ⟨0, 1, 0, some 0⟩
      msgQueue := KVStore.empty
      queueLength := KVStore.empty.set 0 0
      valSets := KVStore.empty
      votingPower := KVStore.empty
      delegationLifecycle := KVStore.empty
      validatorLifecycle := KVStore.empty
      sealerAppHash := KVStore.empty
      sealerBlockHash := KVStore.empty }
  staking := ⟨⟨1000, 0, 0, []⟩, [1], []⟩
  bank := ⟨fun _ => KVStore.empty, accounts, []⟩
  registration := .blank
  lastFinalizedEpoch := 0
  executions := []

theorem localChain_genesis (accounts : KVStore AccAddress Coins) :
    Chain.Genesis localStaking (localChain accounts) where
  height := rfl
  phase := rfl
  params_valid := rfl
  epochInfo := rfl
  msgQueue := rfl
  queueLength := rfl
  sealerAppHash := rfl
  sealerBlockHash := rfl
  unbondings := rfl
  registration := Checkpointing.Registration.inverse_blank
  lastFinalizedEpoch := rfl
  executions := rfl

/-- The account of governance. -/
def localAuthority : Bech32 := .acc 100 .lower

/-- The steps of this chain. -/
abbrev localSystem : System (Chain LocalStaking) (Label LocalStaking) :=
  epochingSystem localStaking localAuthority

theorem reachingLocal {P : Chain LocalStaking → Prop} (accounts : KVStore AccAddress Coins)
    (labels : List (Label LocalStaking))
    (h : ∃ c, localSystem.execute (fun _ _ => true) (localChain accounts) labels = some c ∧ P c) :
    ∃ history c, Run localSystem history c ∧ P c :=
  Run.reaching _ (localChain_genesis accounts) labels h

/-- The steps of a block. -/
def blockAt {S : Type} (time : Time) (msgs : List Msg) : List (Label S) :=
  .beginBlock time [] [] :: msgs.map .deliver ++ [.endBlock]

end Babylon.Epoching
