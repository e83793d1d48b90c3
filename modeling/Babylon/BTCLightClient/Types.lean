/-
  `x/btclightclient/types`: Bitcoin block headers, their work, and the header
  infos the light client stores.

  The consensus rules of Bitcoin are those of `btcd`.  Proof of work and the work
  of a header are written out, since the most-work rule rests on them; the rules
  that look at ancestors (difficulty adjustment, median time, versions) are a
  parameter.  Heights are natural numbers; cumulative work is a 256-bit number and
  adding beyond that panics.
-/
import Babylon.Types.Bitcoin

set_option autoImplicit false

namespace Babylon.LightClient

open Lib

def errHeaderParentDoesNotExist : RegisteredError :=
  ⟨"btclightclient", 1101, "parent for provided hash is not maintained"⟩
def errEmptyMessage : RegisteredError := ⟨"btclightclient", 1102, "empty message provided"⟩
def errInvalidHeader : RegisteredError :=
  ⟨"btclightclient", 1104, "provided header does not satisfy header validation rules"⟩
def errChainWithNotEnoughWork : RegisteredError :=
  ⟨"btclightclient", 1105, "provided chain has not enough work"⟩
def errForkStartWithKnownHeader : RegisteredError :=
  ⟨"btclightclient", 1108, "fork start with known header"⟩

/-- `wire.BlockHeader`. -/
structure BlockHeader where
  version : Int := 2
  prevBlock : ChainHash
  merkleRoot : ChainHash
  timestamp : Nat := 0
  bits : UInt32
  nonce : Nat := 0
deriving DecidableEq

/-- `BTCHeaderInfo`: a header as it is stored, with its hash, its height and the
work of the chain that ends in it. -/
structure BTCHeaderInfo where
  header : BlockHeader
  hash : ChainHash
  height : Nat
  work : Nat
deriving DecidableEq

/-- `localHeaderInfo`: a header while a batch is being checked. -/
structure LocalHeaderInfo where
  header : BlockHeader
  height : Nat
  totalWork : Nat
deriving DecidableEq

/-- `toLocalInfo`. -/
def BTCHeaderInfo.toLocalInfo (i : BTCHeaderInfo) : LocalHeaderInfo :=
  ⟨i.header, i.height, i.work⟩

/-! ## Work -/

/-- `blockchain.CompactToBig`: the target a header encodes as a mantissa of 23 bits,
a sign bit and an exponent of 8 bits. -/
def compactToBig (compact : UInt32) : Int :=
  let mantissa := compact.toNat % 2 ^ 23
  let isNegative := compact.toNat / 2 ^ 23 % 2 = 1
  let exponent := compact.toNat / 2 ^ 24
  let bn : Nat := if exponent ≤ 3 then mantissa / 2 ^ (8 * (3 - exponent))
    else mantissa * 2 ^ (8 * (exponent - 3))
  if isNegative then -(bn : Int) else bn

/-- `blockchain.CalcWork`. -/
def calcWork (bits : UInt32) : Nat :=
  let difficultyNum := compactToBig bits
  if difficultyNum ≤ 0 then 0 else 2 ^ 256 / (difficultyNum.toNat + 1)

/-- `CalcHeaderWork`. -/
def calcHeaderWork (header : BlockHeader) : Nat := calcWork header.bits

/-- `CumulativeWork`. -/
def cumulativeWork (childWork parentWork : Nat) : Outcome Nat := do
  ensure (childWork + parentWork < 2 ^ 256) (.panic "Uint is out of bounds")
  return childWork + parentWork

/-! ## Rules of Bitcoin -/

/-- The parameters of the Bitcoin network and the functions of `btcd`. -/
structure BtcChainParams where
  /-- `header.BlockHash()` -/
  blockHash : BlockHeader → ChainHash
  /-- `blockchain.HashToBig` -/
  hashToBig : ChainHash → Nat
  /-- the highest target a header may encode -/
  powLimit : Nat
  /-- `blockchain.CheckBlockHeaderContext(header, parent)` returns no error; the
  ancestors of the parent are found by their height -/
  checkBlockHeaderContext : (Nat → Option LocalHeaderInfo) → LocalHeaderInfo → BlockHeader → Bool

namespace BtcChainParams

/-- What is assumed of the network and of double SHA-256: a target fits in 256 bits;
no header has the all-zero hash; and hashes do not run in cycles, the hash of a
header being known only after the hash of its predecessor. -/
structure Sound (p : BtcChainParams) : Prop where
  powLimit_lt : p.powLimit < 2 ^ 256
  blockHash_ne_zero : ∀ header, p.blockHash header ≠ 0
  acyclic : ∃ rank : ChainHash → Nat, ∀ header, rank header.prevBlock < rank (p.blockHash header)

/-- `blockchain.CheckProofOfWork` with no flags. -/
def checkProofOfWork (p : BtcChainParams) (header : BlockHeader) : Bool :=
  let target := compactToBig header.bits
  decide (0 < target) && decide (target ≤ p.powLimit) &&
    decide ((p.hashToBig (p.blockHash header) : Int) ≤ target)

/-- An instance to evaluate the model on concrete inputs: the hash of a header is
above that of its predecessor, every hash meets its target and every context check
passes. -/
def simple : BtcChainParams where
  blockHash header := Nat.pair header.prevBlock header.nonce + 1
  hashToBig _ := 0
  powLimit := 2 ^ 224
  checkBlockHeaderContext _ _ _ := true

theorem simple_sound : simple.Sound where
  powLimit_lt := by decide
  blockHash_ne_zero := fun header => Nat.succ_ne_zero _
  acyclic := ⟨id, fun header => Nat.lt_succ_of_le (Nat.left_le_pair _ _)⟩

/-- A header with a valid proof of work adds work. -/
theorem calcHeaderWork_pos {p : BtcChainParams} (hp : p.Sound) {header : BlockHeader}
    (h : p.checkProofOfWork header = true) : 0 < calcHeaderWork header := by
  simp only [checkProofOfWork, Bool.and_eq_true, decide_eq_true_eq] at h
  obtain ⟨⟨hpos, hle⟩, -⟩ := h
  have hlt := hp.powLimit_lt
  unfold calcHeaderWork calcWork
  rw [if_neg (not_le.mpr hpos)]
  refine Nat.div_pos ?_ (Nat.succ_pos _)
  have hnat : (compactToBig header.bits).toNat ≤ p.powLimit := Int.toNat_le.mpr hle
  exact Nat.succ_le_of_lt (lt_of_le_of_lt hnat hlt)

/-- `toBTCHeaderInfo`. -/
def toBTCHeaderInfo (p : BtcChainParams) (i : LocalHeaderInfo) : BTCHeaderInfo :=
  ⟨i.header, p.blockHash i.header, i.height, i.totalWork⟩

/-- `headersFormChain`.  The first hash is remembered as the one different from the
all-zero hash. -/
def headersFormChain (p : BtcChainParams) (headers : List BlockHeader) : Bool :=
  go 0 headers
where
  go (lastHeader : ChainHash) : List BlockHeader → Bool
    | [] => true
    | blockHeader :: rest =>
      if lastHeader = 0 then go (p.blockHash blockHeader) rest
      else if blockHeader.prevBlock ≠ lastHeader then false
      else go (p.blockHash blockHeader) rest

/-- Each header names the hash of the one before it. -/
def Linked (p : BtcChainParams) (headers : List BlockHeader) : Prop :=
  headers.IsChain fun parent child => child.prevBlock = p.blockHash parent

instance (p : BtcChainParams) (headers : List BlockHeader) : Decidable (p.Linked headers) :=
  inferInstanceAs (Decidable (headers.IsChain _))

theorem headersFormChain_iff {p : BtcChainParams} (hp : p.Sound) (headers : List BlockHeader) :
    p.headersFormChain headers = true ↔ p.Linked headers := by
  -- past the first header the remembered hash is the hash of the header before
  have hgo : ∀ (rest : List BlockHeader) (last : BlockHeader),
      headersFormChain.go p (p.blockHash last) rest = true ↔ p.Linked (last :: rest) := by
    intro rest
    induction rest with
    | nil => intro last; simp [headersFormChain.go, Linked]
    | cons header rest ih =>
      intro last
      have hlast := hp.blockHash_ne_zero last
      simp only [headersFormChain.go, if_neg hlast, Linked, List.isChain_cons_cons]
      split
      case isTrue hne => simp [hne]
      case isFalse heq =>
        rw [ih header, Linked]
        simp [not_not.mp heq]
  cases headers with
  | nil => simp [headersFormChain, headersFormChain.go, Linked]
  | cons first rest =>
    rw [← hgo rest first]
    simp [headersFormChain, headersFormChain.go]

end BtcChainParams

end Babylon.LightClient
