/-
  `x/epoching`: parameters, epochs and the messages that wait for the end of an epoch.

  An epoch keeps the interval that was in force when it began.  A proposal chooses the
  interval freely, so that the sums with it are taken modulo 2^64; heights of blocks are
  `int64`.  Left out are the identifiers of a queued message, which only go into events,
  and gas: a message that runs out of gas leaves no trace.
-/
import Babylon.Types.Coins

set_option autoImplicit false

namespace Babylon

open Lib

/-! ## Spelled addresses -/

/-- The letters of a bech32 string are all of one case. -/
inductive LetterCase where
  | lower
  | upper
deriving DecidableEq

/-- Bech32 strings, by their human-readable part: `bbn` for accounts and `bbnvaloper` for
validators. -/
inductive Bech32 where
  | acc (addr : AccAddress) (letters : LetterCase)
  | val (addr : ValAddress) (letters : LetterCase)
  | other (text : String)
deriving DecidableEq

/-- `AccAddressFromBech32`. -/
def accAddressFromBech32 : Bech32 → Outcome AccAddress
  | .acc addr _ => .ok addr
  | .val _ _ => .error (.errorf "invalid Bech32 prefix; expected %s, got %s")
  | .other _ => .error (.errorf "decoding bech32 failed: %w")

/-- `ValAddressFromBech32`. -/
def valAddressFromBech32 : Bech32 → Outcome ValAddress
  | .val addr _ => .ok addr
  | .acc _ _ => .error (.errorf "invalid Bech32 prefix; expected %s, got %s")
  | .other _ => .error (.errorf "decoding bech32 failed: %w")

/-- `ValAddress.String`. -/
def valAddressString (addr : ValAddress) : Bech32 := .val addr .lower

namespace Epoching

def errUnknownEpochNumber : RegisteredError :=
  ⟨"epoching", 3, "the epoch number is not known in DB"⟩
def errZeroEpochMsg : RegisteredError := ⟨"epoching", 11, "the 0-th epoch does not handle messages"⟩
def errInvalidHeight : RegisteredError := ⟨"epoching", 13, "the height is invalid"⟩
def errInsufficientBalance : RegisteredError :=
  ⟨"epoching", 14, "the delegator has insufficient balance to perform delegate"⟩
def errInvalidRequest : RegisteredError := ⟨"sdk", 18, "invalid request"⟩
def errInvalidSigner : RegisteredError :=
  ⟨"gov", 13, "expected gov account as only signer for proposal message"⟩
def errMaxUnbondingDelegationEntries : RegisteredError :=
  ⟨"staking", 27, "too many unbonding delegation entries for (delegator, validator) tuple"⟩
def errTransitiveRedelegation : RegisteredError :=
  ⟨"staking", 32, "redelegation to this validator already in progress; first redelegation to this validator must complete before next redelegation"⟩
def errMaxRedelegationEntries : RegisteredError :=
  ⟨"staking", 33, "too many redelegation entries for (delegator, src-validator, dst-validator) tuple"⟩

/-! ## Parameters -/

/-- `ExecuteGas`. -/
structure ExecuteGas where
  delegate : Nat
  undelegate : Nat
  beginRedelegate : Nat
  cancelUnbondingDelegation : Nat
  editValidator : Nat
  createValidator : Nat

/-- `Params`. -/
structure Params where
  epochInterval : UInt64
  executeGas : ExecuteGas
  minAmount : Nat

namespace Params

/-- `validateEpochInterval`. -/
def validateEpochInterval (v : UInt64) : Outcome Unit :=
  ensure (2 ≤ v) (.errorf "epoch interval must be at least 2: %d")

/-- `validateExecuteGas`. -/
def validateExecuteGas (gas : ExecuteGas) : Outcome Unit := do
  ensure (gas.delegate ≠ 0) (.errorf "delegate gas fee must be positive")
  ensure (gas.undelegate ≠ 0) (.errorf "undelegate gas fee must be positive")
  ensure (gas.beginRedelegate ≠ 0) (.errorf "begin redelegate gas fee must be positive")
  ensure (gas.cancelUnbondingDelegation ≠ 0)
    (.errorf "cancel unbonding delegation gas fee must be positive")
  ensure (gas.editValidator ≠ 0) (.errorf "edit validator gas fee must be positive")
  ensure (gas.createValidator ≠ 0) (.errorf "create validator gas fee must be positive")

/-- `validateMinAmount`. -/
def validateMinAmount (v : Nat) : Outcome Unit :=
  ensure (1 ≤ v) (.errorf "min amount must be at least 1: %d")

/-- `Validate`. -/
def validate (p : Params) : Outcome Unit := do
  validateEpochInterval p.epochInterval
  validateExecuteGas p.executeGas
  validateMinAmount p.minAmount

/-- `DefaultParams`. -/
def default : Params := ⟨10, ⟨130000, 88000, 220000, 20500, 61000, 60000⟩, 1⟩

example : default.validate = .ok () := rfl

theorem validate_ok {p : Params} (h : p.validate = .ok ()) :
    2 ≤ p.epochInterval.toNat ∧ 1 ≤ p.minAmount := by
  simp only [validate, validateEpochInterval, validateMinAmount, ok_iff] at h
  obtain ⟨_, hivl, _, -, hamount⟩ := h
  exact ⟨UInt64.le_iff_toNat_le.mp hivl, hamount⟩

end Params

/-! ## Epochs -/

/-- `Epoch`, without the two hashes of its sealer: no function reads them, and the store keeps
them by the number of the epoch. -/
structure Epoch where
  epochNumber : Nat
  currentEpochInterval : UInt64
  firstBlockHeight : Nat
  lastBlockTime : Option Time

namespace Epoch

/-- `GetLastBlockHeight`. -/
def getLastBlockHeight (e : Epoch) : Nat :=
  if e.epochNumber = 0 then 0
  else (e.firstBlockHeight + e.currentEpochInterval.toNat - 1) % 2 ^ 64

/-- `IsFirstBlock`. -/
def isFirstBlock (e : Epoch) (height : Nat) : Bool := decide (e.firstBlockHeight = height)

/-- `IsLastBlock` and `IsLastBlockByHeight`. -/
def isLastBlock (e : Epoch) (height : Nat) : Bool := decide (e.getLastBlockHeight = height)

/-- `IsFirstBlockOfNextEpoch`. -/
def isFirstBlockOfNextEpoch (e : Epoch) (height : Nat) : Bool :=
  if e.epochNumber = 0 then decide (height = 1)
  else decide ((e.firstBlockHeight + e.currentEpochInterval.toNat) % 2 ^ 64 = height)

/-- The sums of the epoch do not wrap. -/
def Fits (e : Epoch) : Prop := e.firstBlockHeight + e.currentEpochInterval.toNat ≤ 2 ^ 64

instance (e : Epoch) : Decidable e.Fits := inferInstanceAs (Decidable (_ ≤ _))

/-- `WithinBoundary`. -/
def withinBoundary (e : Epoch) (height : Nat) : Bool :=
  if height < e.firstBlockHeight ∨ e.getLastBlockHeight < height then false else true

theorem withinBoundary_iff {e : Epoch} {height : Nat} : e.withinBoundary height = true ↔
    e.firstBlockHeight ≤ height ∧ height ≤ e.getLastBlockHeight := by
  unfold withinBoundary
  split
  case isTrue h => simp; omega
  case isFalse h => simp; omega

end Epoch

/-! ## Messages of `x/staking` -/

/-- `sdk.Coin`; an amount that is not positive is refused as below the minimum. -/
structure Coin where
  denom : Denom
  amount : Nat
deriving DecidableEq

/-- `MsgCreateValidator`, with the part that only `x/staking` reads. -/
structure MsgCreateValidator where
  validatorAddress : Bech32
  value : Coin
  details : Bytes
deriving DecidableEq

/-- `MsgEditValidator`, with the part that only `x/staking` reads. -/
structure MsgEditValidator where
  validatorAddress : Bech32
  hasDescription : Bool
  minSelfDelegation : Option Int
  commissionRate : Option Dec
  details : Bytes
deriving DecidableEq

/-- `MsgDelegate` and `MsgUndelegate`. -/
structure MsgDelegate where
  delegatorAddress : Bech32
  validatorAddress : Bech32
  amount : Coin
deriving DecidableEq

/-- `MsgBeginRedelegate`. -/
structure MsgBeginRedelegate where
  delegatorAddress : Bech32
  validatorSrcAddress : Bech32
  validatorDstAddress : Bech32
  amount : Coin
deriving DecidableEq

/-- `MsgCancelUnbondingDelegation`. -/
structure MsgCancelUnbondingDelegation where
  delegatorAddress : Bech32
  validatorAddress : Bech32
  amount : Coin
  creationHeight : Int
deriving DecidableEq

/-- `Params` of `x/staking`. -/
structure StakingParams where
  unbondingTime : Time
  bondDenom : Denom
  minCommissionRate : Dec
  details : Bytes
deriving DecidableEq

/-- `MsgUpdateParams` of `x/staking`. -/
structure StakingMsgUpdateParams where
  authority : Bech32
  params : StakingParams
deriving DecidableEq

/-- The message inside a `QueuedMessage`. -/
inductive StakingMsg where
  | createValidator (msg : MsgCreateValidator)
  | delegate (msg : MsgDelegate)
  | undelegate (msg : MsgDelegate)
  | beginRedelegate (msg : MsgBeginRedelegate)
  | cancelUnbondingDelegation (msg : MsgCancelUnbondingDelegation)
  | editValidator (msg : MsgEditValidator)
  | updateParams (msg : StakingMsgUpdateParams)
deriving DecidableEq

/-- `QueuedMessage`. -/
structure QueuedMessage where
  blockHeight : Nat
  blockTime : Time
  msg : StakingMsg
deriving DecidableEq

/-- `BondState`. -/
inductive BondState where
  | created
  | bonded
  | unbonding
  | unbonded
  | removed
deriving DecidableEq

/-- `ValStateUpdate`. -/
structure ValStateUpdate where
  state : BondState
  blockHeight : Nat
  blockTime : Time
deriving DecidableEq

/-- `DelegationStateUpdate`. -/
structure DelegationStateUpdate where
  state : BondState
  valAddr : ValAddress
  amount : Option Coin
  blockHeight : Nat
  blockTime : Time
deriving DecidableEq

end Epoching

end Babylon
