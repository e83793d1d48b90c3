/-
  Bitcoin data as the modules see it: transactions, block headers, the view of
  the light client, inclusion proofs, and the functions on them that live in
  `btcd` or in the taproot code under `btcstaking/`.
-/
import Mathlib.Algebra.Order.BigOperators.Group.List
import Mathlib.Data.Nat.Pairing
import Babylon.Types.Basic
import Babylon.Lib.MerkleTree

set_option autoImplicit false

namespace Babylon

/-- A double SHA-256 value.  Hash values are idealised as natural numbers, so
that a collision-free hash function exists. -/
abbrev ChainHash := Nat

/-- `wire.OutPoint`. -/
structure OutPoint where
  hash : ChainHash
  index : Nat
deriving DecidableEq

/-- `wire.TxIn`. -/
structure TxIn where
  previousOutPoint : OutPoint
  signatureScript : Bytes := []
  witness : List Bytes := []
  sequence : Nat := 0
deriving DecidableEq

/-- `wire.TxOut`. -/
structure TxOut where
  value : Int
  pkScript : Bytes
deriving DecidableEq

/-- `wire.MsgTx`. -/
structure MsgTx where
  version : Int := 2
  txIn : List TxIn
  txOut : List TxOut
  lockTime : Nat := 0
deriving DecidableEq

/-- Size of a variable length integer, `wire.VarIntSerializeSize`. -/
def varIntSerializeSize (n : Nat) : Nat :=
  if n < 0xfd then 1 else if n ≤ 0xffff then 3 else if n ≤ 0xffffffff then 5 else 9

/-- `MsgTx.SerializeSizeStripped`: the size of what the transaction id hashes. -/
def MsgTx.serializeSizeStripped (tx : MsgTx) : Nat :=
  8 + varIntSerializeSize tx.txIn.length + varIntSerializeSize tx.txOut.length +
    (tx.txIn.map fun i =>
      40 + varIntSerializeSize i.signatureScript.length + i.signatureScript.length).sum +
    (tx.txOut.map fun o => 8 + varIntSerializeSize o.pkScript.length + o.pkScript.length).sum

/-- The two fields of `btclightclient.BTCHeaderInfo` that are read. -/
structure BTCHeaderInfo where
  height : Nat
  merkleRoot : ChainHash

/-- What `btcstaking` reads from the BTC light client: the tip, the base header
and the headers of the main chain by hash.  A header on the main chain is not
above the tip.  Block 0 of Bitcoin has no transaction besides its coinbase, so
the headers that can prove the inclusion of a transaction have positive height. -/
structure BTCLightClient where
  tipHeight : Nat
  baseHeight : Nat
  headerByHash : ChainHash → Option BTCHeaderInfo
  base_le_tip : baseHeight ≤ tipHeight
  header_le_tip : ∀ hash header, headerByHash hash = some header → header.height ≤ tipHeight
  header_pos : ∀ hash header, headerByHash hash = some header → 0 < header.height

instance neZero_hashSize : NeZero 32 := ⟨by decide⟩

/-- The `intermediate_nodes` bytes of a Merkle proof: complete 32-byte hashes and
the number of bytes left over. -/
structure MerkleNodes where
  hashes : List ChainHash
  leftover : Fin 32 := 0
deriving DecidableEq

/-- `InclusionProof` and its parsed form: the header, the position claimed in the
block, and the Merkle nodes. -/
structure InclusionProof where
  headerHash : ChainHash
  index : UInt32
  proof : MerkleNodes
deriving DecidableEq

/-- `btcstaking.StakingInfo`: the staking output and the scripts of its spending
paths. -/
structure StakingInfo where
  stakingOutput : TxOut
  slashingPathScript : Bytes
  unbondingPathScript : Bytes

/-- `btcstaking.UnbondingInfo`. -/
structure UnbondingInfo where
  unbondingOutput : TxOut
  slashingPathScript : Bytes

/-- Functions of `btcd` and of the taproot and signature code in `btcstaking/`
and `crypto/`.  They are parameters of the model; a result that relies on one of
them says so in a hypothesis. -/
structure BtcPrimitives where
  /-- `tx.TxHash()` -/
  txHash : MsgTx → ChainHash
  /-- `hashConcat`: double SHA-256 of two hashes -/
  hashConcat : ChainHash → ChainHash → ChainHash
  /-- `schnorr.ParsePubKey` accepts the key -/
  validPubKey : BIP340PubKey → Bool
  /-- `schnorr.ParseSignature` accepts the bytes -/
  validSignature : Bytes → Bool
  /-- `schnorrSig.Verify(hash(msg), pk)` -/
  schnorrVerify : BIP340PubKey → Bytes → Bytes → Bool
  /-- the x-only public key of a serialized private key -/
  pubKeyOfPrivKey : Bytes → BIP340PubKey
  /-- `ProofOfPossessionBTC.ValidateBasic` -/
  popValidateBasic : Bytes → Bool
  /-- `ProofOfPossessionBTC.Verify(addr, pk)` -/
  popVerify : Bytes → AccAddress → BIP340PubKey → Bool
  /-- `BuildStakingInfo(staker, fps, covenants, quorum, time, value)` -/
  buildStakingInfo : BIP340PubKey → List BIP340PubKey → List BIP340PubKey → Nat → Nat → Int →
    Option StakingInfo
  /-- `BuildUnbondingInfo(staker, fps, covenants, quorum, time, value)` -/
  buildUnbondingInfo : BIP340PubKey → List BIP340PubKey → List BIP340PubKey → Nat → Nat → Int →
    Option UnbondingInfo
  /-- `CheckSlashingTxMatchFundingTx(slashingTx, fundingTx, outputIdx, fee, rate, script, staker,
  time)` -/
  checkSlashingTxMatchFundingTx : MsgTx → MsgTx → Nat → Int → Dec → Bytes → BIP340PubKey → Nat →
    Bool
  /-- `CheckPreSignedUnbondingTxSanity` -/
  checkPreSignedUnbondingTxSanity : MsgTx → Bool
  /-- `blockchain.CheckTransactionSanity` -/
  checkTransactionSanity : MsgTx → Bool
  /-- `VerifyTransactionSigWithOutput(tx, fundingOutput, script, pk, sig)` -/
  verifyTransactionSigWithOutput : MsgTx → TxOut → Bytes → BIP340PubKey → Bytes → Bool
  /-- `BTCSlashingTx.ParseEncVerifyAdaptorSignatures(output, script, covenant, fps, sigs)` -/
  parseEncVerifyAdaptorSignatures : MsgTx → TxOut → Bytes → BIP340PubKey → List BIP340PubKey →
    List Bytes → Option (List Bytes)
  /-- `VerifyTransactionSigStkExp(tx, prevOutput, fundingOutput, script, pk, sig)` -/
  verifyTransactionSigStkExp : MsgTx → TxOut → TxOut → Bytes → BIP340PubKey → Bytes → Bool
  /-- `VerifySpendStakeTxStakerSig(staker, stakingOutput, inputIdx, fundingTxs, spendTx)` -/
  verifySpendStakeTxStakerSig : BIP340PubKey → TxOut → Nat → List MsgTx → MsgTx → Bool
  /-- the output of value `SlashingRate` times the argument is dust for this script -/
  isDustSlashingOutput : Bytes → Dec → Int → Bool

/-- Double SHA-256 has no collision: `hashConcat` is injective, and no id is the hash of two
hashes unless the transaction has the 64 bytes of two hashes. -/
structure BtcPrimitives.CollisionFree (prim : BtcPrimitives) : Prop where
  hashConcat_inj : ∀ a b c d, prim.hashConcat a b = prim.hashConcat c d → a = c ∧ b = d
  txHash_ne : ∀ tx a b, tx.serializeSizeStripped ≠ 64 → prim.txHash tx ≠ prim.hashConcat a b

/-- No transaction spends an output of itself: an id cannot be known before the
transaction it is the hash of. -/
def BtcPrimitives.Acyclic (prim : BtcPrimitives) : Prop :=
  ∀ tx : MsgTx, ∀ txIn ∈ tx.txIn, txIn.previousOutPoint.hash ≠ prim.txHash tx

/-- An instance to evaluate the model on concrete inputs: ids grow along spending,
every signature is valid, and a script is the empty one. -/
def BtcPrimitives.simple : BtcPrimitives where
  txHash tx := 2 * Nat.pair tx.serializeSizeStripped
    (tx.lockTime + (tx.txIn.map fun txIn => txIn.previousOutPoint.hash).sum + 1)
  hashConcat a b := 2 * Nat.pair a b + 1
  validPubKey _ := true
  validSignature _ := true
  schnorrVerify _ _ _ := true
  pubKeyOfPrivKey _ := 0
  popValidateBasic _ := true
  popVerify _ _ _ := true
  buildStakingInfo _ _ _ _ _ value := some ⟨⟨value, []⟩, [], []⟩
  buildUnbondingInfo _ _ _ _ _ value := some ⟨⟨value, []⟩, []⟩
  checkSlashingTxMatchFundingTx _ _ _ _ _ _ _ _ := true
  checkPreSignedUnbondingTxSanity _ := true
  checkTransactionSanity _ := true
  verifyTransactionSigWithOutput _ _ _ _ _ := true
  parseEncVerifyAdaptorSignatures _ _ _ _ _ sigs := some sigs
  verifyTransactionSigStkExp _ _ _ _ _ _ := true
  verifySpendStakeTxStakerSig _ _ _ _ _ := true
  isDustSlashingOutput _ _ _ := false

theorem BtcPrimitives.simple_collisionFree : BtcPrimitives.simple.CollisionFree where
  hashConcat_inj := by
    intro a b c d (h : 2 * Nat.pair a b + 1 = 2 * Nat.pair c d + 1)
    have hpair : Nat.pair a b = Nat.pair c d := by omega
    exact Nat.pair_eq_pair.mp hpair
  txHash_ne := by
    intro tx a b _ (h : 2 * Nat.pair _ _ = 2 * Nat.pair a b + 1)
    omega

theorem BtcPrimitives.simple_acyclic : BtcPrimitives.simple.Acyclic := by
  intro tx txIn hmem
  have hle : txIn.previousOutPoint.hash
      ≤ (tx.txIn.map fun txIn => txIn.previousOutPoint.hash).sum :=
    List.single_le_sum (fun _ _ => Nat.zero_le _) _ (List.mem_map_of_mem hmem)
  have hpair := Nat.right_le_pair tx.serializeSizeStripped
    (tx.lockTime + (tx.txIn.map fun txIn => txIn.previousOutPoint.hash).sum + 1)
  refine Nat.ne_of_lt (lt_of_le_of_lt hle ?_)
  show _ < 2 * Nat.pair tx.serializeSizeStripped
    (tx.lockTime + (tx.txIn.map fun txIn => txIn.previousOutPoint.hash).sum + 1)
  omega

end Babylon
