/-
  `x/btcstaking/types/params.go`: the versioned parameters of the BTC staking
  module and the map from Bitcoin heights to their versions.
-/
import Babylon.Types.Bitcoin

set_option autoImplicit false

namespace Babylon.BTCStaking

open Lib

/-- The registered errors of the module, `x/btcstaking/types/errors.go`. -/
def registerError (code : Nat) (description : String) : RegisteredError :=
  ⟨"btcstaking", code, description⟩

def errFpNotFound := registerError 1100 "the finality provider is not found"
def errBTCDelegationNotFound := registerError 1102 "the BTC delegation is not found"
def errFpRegistered := registerError 1103 "the finality provider has already been registered"
def errFpAlreadySlashed := registerError 1104 "the finality provider has already been slashed"
def errReusedStakingTx := registerError 1106 "the BTC staking tx is already used"
def errInvalidCovenantPK := registerError 1107 "the BTC staking tx specifies a wrong covenant PK"
def errInvalidStakingTx := registerError 1108 "the BTC staking tx is not valid"
def errInvalidSlashingTx := registerError 1109 "the BTC slashing tx is not valid"
def errInvalidCovenantSig := registerError 1110 "the covenant signature is not valid"
def errCommissionLTMinRate := registerError 1111 "commission cannot be less than min rate"
def errCommissionGTMaxRate := registerError 1112 "commission cannot be more than one"
def errInvalidUnbondingTx := registerError 1114 "the BTC unbonding tx is not valid"
def errTooManyFpKeys := registerError 1116
  "the finality provider list contains too many public keys, it must contain exactly one"
def errInvalidProofOfPossession := registerError 1117 "the proof of possession is not valid"
def errDuplicatedFp := registerError 1118
  "the staking request contains duplicated finality provider public key"
def errInvalidBTCUndelegateReq := registerError 1119 "invalid undelegation request"
def errFpAlreadyJailed := registerError 1121 "the finality provider has already been jailed"
def errFpNotJailed := registerError 1122 "the finality provider is not jailed"
def errDuplicatedCovenantSig := registerError 1123 "the covenant signature is already submitted"
def errStakingTxIncludedTooEarly := registerError 1124
  "the staking transaction is included too early in BTC chain"
def errFinalityProviderIsDeleted := registerError 1130 "the finality provider has been deleted"

/-- `types.Params`. -/
structure Params where
  covenantPks : List BIP340PubKey
  covenantQuorum : Nat
  minStakingValueSat : Int
  maxStakingValueSat : Int
  minStakingTimeBlocks : Nat
  maxStakingTimeBlocks : Nat
  slashingPkScript : Bytes
  minSlashingTxFeeSat : Int
  slashingRate : Dec
  unbondingTimeBlocks : Nat
  unbondingFeeSat : Int
  minCommissionRate : Dec
  allowListExpirationHeight : Nat
  btcActivationHeight : Nat

/-- `math.MaxUint16`. -/
def maxUint16 : Nat := 65535

/-- `ExistsDup`: an error if a key does not parse, else whether a key occurs twice. -/
def existsDup (prim : BtcPrimitives) (pks : List BIP340PubKey) : Outcome Bool := do
  ensure (pks.all prim.validPubKey = true) (.errorf "invalid public key")
  return !decide pks.Nodup

/-- `IsSlashingRateValid`: strictly between 0 and 1, with at most 4 decimal places. -/
def isSlashingRateValid (rate : Dec) : Bool :=
  decide (0 < rate ∧ rate < Dec.one) && decide (rate * 10000 % Dec.one = 0)

namespace Params

def validateStakingAmount (p : Params) : Outcome Unit := do
  ensure (0 < p.minStakingValueSat) (.errorf "minimum staking amount has to be positive")
  ensure (0 < p.maxStakingValueSat) (.errorf "maximum staking amount has to be positive")
  ensure (p.minStakingValueSat ≤ p.maxStakingValueSat)
    (.errorf "minimum staking amount cannot be greater than maximum staking amount")

def validateStakingTime (p : Params) : Outcome Unit := do
  ensure (p.minStakingTimeBlocks ≠ 0) (.errorf "minimum staking time has to be positive")
  ensure (p.minStakingTimeBlocks ≤ maxUint16)
    (.errorf "minimum staking time cannot be greater than %d")
  ensure (p.maxStakingTimeBlocks ≠ 0) (.errorf "maximum staking time has to be positive")
  ensure (p.maxStakingTimeBlocks ≤ maxUint16)
    (.errorf "maximum staking time cannot be greater than %d")
  ensure (p.minStakingTimeBlocks ≤ p.maxStakingTimeBlocks)
    (.errorf "minimum staking time cannot be greater than maximum staking time")

def validateMinCommissionRate (p : Params) : Outcome Unit := do
  ensure (0 ≤ p.minCommissionRate) (.errorf "minimum commission rate cannot be negative")
  ensure (p.minCommissionRate ≤ Dec.one)
    (.errorf "minimum commission rate cannot be greater than 100%%")

def validateCovenantPks (prim : BtcPrimitives) (p : Params) : Outcome Unit := do
  let duplicate ← existsDup prim p.covenantPks
  ensure (duplicate = false) (.errorf "duplicate covenant key")

/-- `OP_RETURN` scripts are allowed to be dust. -/
def validateNoDustSlashingOutput (prim : BtcPrimitives) (p : Params) : Outcome Unit :=
  if p.slashingPkScript.head? = some 0x6a then
    .ok ()
  else
    ensure (prim.isDustSlashingOutput p.slashingPkScript p.slashingRate
        (p.minStakingValueSat - p.unbondingFeeSat) = false)
      (.errorf "invalid parameters configuration. Minimum slashing output is dust")

/-- `Params.Validate`. -/
def validate (prim : BtcPrimitives) (p : Params) : Outcome Unit := do
  ensure (p.covenantQuorum ≠ 0) (.errorf "covenant quorum size has to be positive")
  ensure (p.covenantPks.length < p.covenantQuorum * 2)
    (.errorf "covenant quorum size has to be more than 1/2 of the covenant committee size")
  validateStakingAmount p
  validateStakingTime p
  validateCovenantPks prim p
  ensure (0 < p.minSlashingTxFeeSat) (.errorf "minimum slashing tx fee has to be positive")
  validateMinCommissionRate p
  ensure (isSlashingRateValid p.slashingRate = true) (.errorf "invalid slashing rate")
  ensure (0 < p.unbondingFeeSat ∧ p.unbondingFeeSat < p.minStakingValueSat)
    (.errorf "(%d) is not a valid unbonding fee value")
  validateNoDustSlashingOutput prim p
  ensure (p.unbondingTimeBlocks ≤ maxUint16)
    (.errorf "minimum unbonding time blocks cannot be greater than %d")

def hasCovenantPK (p : Params) (pk : BIP340PubKey) : Bool :=
  decide (pk ∈ p.covenantPks)

end Params

/-! ## Versions by Bitcoin height -/

/-- `HeightVersionPair`. -/
structure HeightVersionPair where
  startHeight : Nat
  version : Nat

/-- `HeightToVersionMap`. -/
abbrev HeightToVersionMap := List HeightVersionPair

namespace HeightToVersionMap

/-- `AddPair`: start heights ascend, versions are consecutive from 0. -/
def addPair (m : HeightToVersionMap) (newPair : HeightVersionPair) : Outcome HeightToVersionMap :=
  match m.getLast? with
  | none => do
      ensure (newPair.version = 0) (.errorf "version must be 0 for the first pair")
      return [newPair]
  | some lastPair => do
      ensure (lastPair.startHeight < newPair.startHeight)
        (.errorf "pairs must be sorted by start height in ascending order, got %d <= %d")
      ensure (newPair.version = lastPair.version + 1)
        (.errorf "versions must be strictly increasing, got %d != %d + 1")
      return m ++ [newPair]

/-- `GetVersionForHeight`: the last pair that starts at or below the height.  The
pairs are sorted, so this is what the binary search of the code finds. -/
def getVersionForHeight (m : HeightToVersionMap) (height : Nat) : Outcome Nat :=
  match (m.takeWhile fun pair => pair.startHeight ≤ height).getLast? with
  | some pair => .ok pair.version
  | none => .error (.errorf "no parameters found for block height %d")

end HeightToVersionMap

end Babylon.BTCStaking
