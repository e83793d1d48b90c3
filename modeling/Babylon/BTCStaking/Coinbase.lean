/-
  Coinbase transactions and inclusion proofs.

  The guard of `VerifyInclusionProofAndGetHeight` compares the claimed index with
  0, while the Merkle walk reads only as many low bits of the index as the proof
  has nodes.  The transaction at position 0 is therefore refused exactly when
  those bits are not all zero.
-/
import Babylon.BTCStaking.Keeper

set_option autoImplicit false

namespace Babylon.BTCStaking

open Lib BtcPrimitives

/-- The transactions of a Bitcoin block, as far as its Merkle root determines them:
their ids are different and none of them has the size of two hashes. -/
structure BlockTxs (prim : BtcPrimitives) where
  coinbase : MsgTx
  others : List MsgTx
  nodup : ((coinbase :: others).map prim.txHash).Nodup
  size : ∀ tx ∈ coinbase :: others, tx.serializeSizeStripped ≠ 64

/-- The Merkle root of the block. -/
def BlockTxs.merkleRoot {prim : BtcPrimitives} (block : BlockTxs prim) : Option ChainHash :=
  Merkle.root prim.hashConcat ((block.coinbase :: block.others).map prim.txHash)

/-- The ids of the transactions of the block. -/
def BlockTxs.ids {prim : BtcPrimitives} (block : BlockTxs prim) : List ChainHash :=
  (block.coinbase :: block.others).map prim.txHash

/-- The position of a transaction whose proof walks up to the root of a block.  It is the
claimed index, if that is the position of a transaction. -/
theorem BlockTxs.position_of_walk {prim : BtcPrimitives} (hfree : prim.CollisionFree)
    (block : BlockTxs prim) {tx : MsgTx} (hsize : tx.serializeSizeStripped ≠ 64)
    {path : List ChainHash} {index : Nat}
    (hwalk : block.merkleRoot = some (Merkle.walk prim.hashConcat (prim.txHash tx) path index)) :
    ∃ position, block.ids[position]? = some (prim.txHash tx) ∧
      (position = 0 ↔ index % 2 ^ path.length = 0) ∧
      (index < block.ids.length → position = index) := by
  refine Merkle.leaf_of_walk_eq_root hfree.hashConcat_inj ?_ ?_ hwalk
  · intro leaf hleaf left right
    obtain ⟨blockTx, hmem, rfl⟩ := List.mem_map.mp hleaf
    exact hfree.txHash_ne blockTx left right (block.size blockTx hmem)
  · exact fun left right => hfree.txHash_ne tx left right hsize

section

variable {prim : BtcPrimitives} {lc : BTCLightClient} {tx : MsgTx}
  {depth stakingTime unbondingTime : Nat} {proof : InclusionProof}
  {info : DelegationTimeRangeInfo}

/-- In a block with different ids and without transactions of 64 bytes, an accepted staking
transaction, itself not of 64 bytes, is not the coinbase transaction if and only if the bits of
the index that the walk reads are not all zero. -/
theorem accepted_ne_coinbase_iff (hfree : prim.CollisionFree) {coinbase : MsgTx}
    {others : List MsgTx} (hids : ((coinbase :: others).map prim.txHash).Nodup)
    (hsizes : ∀ blockTx ∈ coinbase :: others, blockTx.serializeSizeStripped ≠ 64)
    (hroot : ∀ header, lc.headerByHash proof.headerHash = some header →
      Merkle.root prim.hashConcat ((coinbase :: others).map prim.txHash) = some header.merkleRoot)
    (hsize : tx.serializeSizeStripped ≠ 64)
    (h : verifyInclusionProofAndGetHeight prim lc tx depth stakingTime unbondingTime proof =
      .ok info) :
    prim.txHash tx ≠ prim.txHash coinbase ↔
      proof.index.toNat % 2 ^ proof.proof.hashes.length ≠ 0 := by
  simp only [verifyInclusionProofAndGetHeight, ok_iff] at h
  obtain ⟨header, hheader, _, hverify, -⟩ := h
  have hwalk := hroot header hheader
  rw [← BTCCheckpoint.walk_eq_merkleRoot_of_verify hverify] at hwalk
  obtain ⟨position, hposition, hzero, -⟩ :=
    BlockTxs.position_of_walk hfree ⟨coinbase, others, hids, hsizes⟩ hsize hwalk
  refine not_congr (Iff.trans ⟨?_, ?_⟩ hzero)
  · intro heq
    -- ids are different, so the coinbase id stands at position 0 only
    have hfirst : ((coinbase :: others).map prim.txHash)[0]? = some (prim.txHash tx) := by
      simp [heq]
    have hlt := (List.getElem?_eq_some_iff.mp hposition).1
    exact (List.getElem?_inj hlt hids).mp (hposition.trans hfirst.symm)
  · rintro rfl
    simpa [BlockTxs.ids] using hposition.symm

end

/-! ## A block of two transactions -/

/-- A transaction with one input and one output, told apart by its lock time. -/
def plainTx (lockTime : Nat) : MsgTx where
  txIn := [{ previousOutPoint := ⟨0, 0⟩ }]
  txOut := [⟨50, []⟩]
  lockTime := lockTime

/-- A block of two such transactions. -/
def twoTxBlock : BlockTxs simple where
  coinbase := plainTx 0
  others := [plainTx 1]
  nodup := by decide
  size := by decide

/-- A light client with this block, 100 blocks below its tip. -/
def twoTxLightClient : BTCLightClient where
  tipHeight := 101
  baseHeight := 0
  headerByHash := fun _ => some ⟨1, (twoTxBlock.merkleRoot).getD 0⟩
  base_le_tip := by decide
  header_le_tip := by
    rintro _ header ⟨⟩
    decide
  header_pos := by
    rintro _ header ⟨⟩
    decide

/-- A proof that uses the other transaction of the block as the only Merkle node. -/
def siblingProof (sibling : MsgTx) (index : UInt32) : InclusionProof where
  headerHash := 0
  index := index
  proof := { hashes := [simple.txHash sibling] }

/-- The coinbase transaction is refused at index 0 and accepted at index 2, of which
the walk reads the lowest bit only. -/
theorem coinbase_accepted_at_index_two :
    simple.CollisionFree ∧
      (∀ header, twoTxLightClient.headerByHash 0 = some header →
        twoTxBlock.merkleRoot = some header.merkleRoot) ∧
      succeeds (verifyInclusionProofAndGetHeight simple twoTxLightClient
        twoTxBlock.coinbase 10 1000 100 (siblingProof (plainTx 1) 0)) = false ∧
      succeeds (verifyInclusionProofAndGetHeight simple twoTxLightClient
        twoTxBlock.coinbase 10 1000 100 (siblingProof (plainTx 1) 2)) = true := by
  refine ⟨simple_collisionFree, ?_, by decide, by decide⟩
  rintro header ⟨⟩
  decide

/-- The second transaction of the block is accepted at index 1 and is not the coinbase. -/
theorem accepted_ne_coinbase_at_index_one :
    simple.txHash (plainTx 1) ≠ simple.txHash twoTxBlock.coinbase := by
  have hroot : ∀ header, twoTxLightClient.headerByHash 0 = some header →
      twoTxBlock.merkleRoot = some header.merkleRoot := by
    rintro header ⟨⟩
    decide
  have haccepted : verifyInclusionProofAndGetHeight simple twoTxLightClient
      (plainTx 1) 10 1000 100 (siblingProof (plainTx 0) 1) = .ok ⟨1, 1001, 101⟩ := rfl
  exact (accepted_ne_coinbase_iff simple_collisionFree twoTxBlock.nodup twoTxBlock.size hroot
    (by decide) haccepted).mpr (by decide)

end Babylon.BTCStaking
