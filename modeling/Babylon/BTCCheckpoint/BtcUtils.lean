/-
  `x/btccheckpoint/types/btcutils.go`: proofs of the inclusion of a transaction
  in a Bitcoin block, and their verification.
-/
import Babylon.Types.Bitcoin

set_option autoImplicit false

namespace Babylon.BTCCheckpoint

open Lib Merkle

/-- `verify`.  The walk consumes one bit of the index per Merkle node; the bits
above are never looked at. -/
def verify (prim : BtcPrimitives) (tx : MsgTx) (merkleRoot : ChainHash)
    (intermediateNodes : MerkleNodes) (index : UInt32) : Bool :=
  -- shortcut the empty-block case
  if prim.txHash tx = merkleRoot ∧ index = 0 ∧
      intermediateNodes.hashes = [] ∧ intermediateNodes.leftover = 0 then
    true
  else if intermediateNodes.leftover ≠ 0 then
    -- `proofLength % 32 != 0`
    false
  else if intermediateNodes.hashes = [] then
    -- `proofLength == 64`
    false
  else
    Merkle.walk prim.hashConcat (prim.txHash tx) intermediateNodes.hashes index.toNat = merkleRoot

/-- `VerifyInclusionProof`. -/
def verifyInclusionProof (prim : BtcPrimitives) (tx : MsgTx) (merkleRoot : ChainHash)
    (intermediateNodes : MerkleNodes) (index : UInt32) : Bool :=
  verify prim tx merkleRoot intermediateNodes index

/-- `createBranch`: the siblings on the way up from an index, in a level of this size that
starts at `i`. -/
def createBranch (nodes : List ChainHash) (size index i : Nat) : Outcome (List ChainHash) :=
  if _h : 1 < size then do
    let j := min (index ^^^ 1) (size - 1)
    let node ← orThrow nodes[i + j]? (.panic "index out of range")
    let branch ← createBranch nodes ((size + 1) / 2) (index / 2) (i + size)
    pure (node :: branch)
  else
    pure []
termination_by size

/-- `blockchain.BuildMerkleTreeStore`: the levels of the tree, filled up with nil. -/
def buildMerkleTreeStore (prim : BtcPrimitives) (txs : List MsgTx) : List (Option ChainHash) :=
  flatten prim.hashConcat (Nat.clog 2 txs.length) (txs.map prim.txHash)

/-- `CreateProofForIdx`, of transactions that are parsed. -/
def createProofForIdx (prim : BtcPrimitives) (transactions : List MsgTx) (idx : Nat) :
    Outcome (List ChainHash) := do
  ensure (transactions ≠ []) (.errorf "can't calculate proof for empty transaction list")
  ensure (idx < transactions.length)
    (.errorf "provided index should be smaller that length of transaction list")
  -- to calculate indexes, the nil hashes of empty nodes are filtered out
  let storeNoNil := (buildMerkleTreeStore prim transactions).reduceOption
  createBranch storeNoNil transactions.length idx 0

/-- An accepted proof walks to the root; in the empty-block case it has no node. -/
theorem walk_eq_merkleRoot_of_verify {prim : BtcPrimitives} {tx : MsgTx} {merkleRoot : ChainHash}
    {nodes : MerkleNodes} {index : UInt32} (h : verify prim tx merkleRoot nodes index = true) :
    Merkle.walk prim.hashConcat (prim.txHash tx) nodes.hashes index.toNat = merkleRoot := by
  unfold verify at h
  split_ifs at h with hemp hleftover hnil
  · rw [hemp.2.2.1]
    exact hemp.1
  · simpa using h

variable {prim : BtcPrimitives}

/-- A branch is found at every level, and leads from its node to the root. -/
theorem createBranch_walk (depth fuel : Nat) (before : List ChainHash) {nodes : List ChainHash}
    {index : Nat} {node : ChainHash} (hdepth : nodes.length ≤ 2 ^ depth)
    (hfuel : nodes.length ≤ 2 ^ fuel) (h : nodes[index]? = some node) :
    ∃ branch, createBranch (before ++ (flatten prim.hashConcat depth nodes).reduceOption)
        nodes.length index before.length = .ok branch ∧
      (branch = [] ↔ nodes.length = 1) ∧
      rootWithin prim.hashConcat fuel nodes = some (walk prim.hashConcat node branch index) := by
  obtain ⟨hlt, -⟩ := List.getElem?_eq_some_iff.mp h
  rcases nodes with _ | ⟨first, _ | ⟨second, rest⟩⟩
  · cases hlt
  · obtain rfl : index = 0 := by simpa using hlt
    cases h
    exact ⟨[], by rw [createBranch, dif_neg (by simp)]; rfl, by simp, by cases fuel <;> rfl⟩
  · cases depth with
    | zero => simp at hdepth
    | succ depth =>
    cases fuel with
    | zero => simp at hfuel
    | succ fuel =>
      obtain ⟨sibling, hsib, hup⟩ := nextLevel_half prim.hashConcat h
      have hlen := length_nextLevel prim.hashConcat (first :: second :: rest)
      obtain ⟨branch, hbranch, -, hroot⟩ := createBranch_walk depth fuel
        (before ++ first :: second :: rest) (by omega) (by omega) hup
      refine ⟨sibling :: branch, ?_, by simp, hroot⟩
      rw [createBranch, dif_pos (by simp), reduceOption_flatten]
      rw [hlen, List.append_assoc, List.length_append] at hbranch
      dsimp only
      rw [List.getElem?_append_right (Nat.le_add_right _ _), Nat.add_sub_cancel_left,
        List.getElem?_append_left (by omega), hsib, orThrow_some, ok_bind, hbranch]
      rfl

/-- The proof that is created for a transaction of a block is accepted. -/
theorem merkle_proof_complete (prim : BtcPrimitives) (txs : List MsgTx) (index : UInt32)
    {tx : MsgTx} (htx : txs[index.toNat]? = some tx) :
    ∃ branch root, createProofForIdx prim txs index.toNat = .ok branch ∧
      Merkle.root prim.hashConcat (txs.map prim.txHash) = some root ∧
      verify prim tx root ⟨branch, 0⟩ index = true := by
  obtain ⟨hlt, -⟩ := List.getElem?_eq_some_iff.mp htx
  have hfits : txs.length ≤ 2 ^ Nat.clog 2 txs.length := Nat.le_pow_clog (by decide) _
  have hnode : (txs.map prim.txHash)[index.toNat]? = some (prim.txHash tx) := by
    rw [List.getElem?_map, htx]
    rfl
  obtain ⟨branch, hbranch, hnil, hroot⟩ := createBranch_walk (Nat.clog 2 txs.length) txs.length []
    (by simpa using hfits) (by simpa using Nat.lt_two_pow_self.le) hnode
  rw [List.length_map] at hbranch hnil
  refine ⟨branch, _, ?_, by rw [root, List.length_map, hroot], ?_⟩
  · rw [createProofForIdx, ensure_of _ (List.ne_nil_of_length_pos (by omega)), ensure_of _ hlt]
    exact hbranch
  · unfold verify
    split_ifs with hempty hleft hnone
    · rfl
    · exact hleft rfl
    · have hone := hnil.mp hnone
      refine hempty ⟨?_, UInt32.toNat_inj.mp (by simp; omega), hnone, rfl⟩
      rw [show branch = [] from hnone, walk]
    · simp

/-- The last of three transactions is paired with itself. -/
theorem merkle_proof_complete_of_three :
    ∃ txs tx branch root, txs.length = 3 ∧ createProofForIdx .simple txs 2 = .ok branch ∧
      Merkle.root BtcPrimitives.simple.hashConcat (txs.map BtcPrimitives.simple.txHash)
        = some root ∧ verify .simple tx root ⟨branch, 0⟩ 2 = true := by
  obtain ⟨branch, root, hall⟩ :=
    merkle_proof_complete .simple (List.replicate 3 ⟨2, [], [], 0⟩) 2 rfl
  exact ⟨_, _, branch, root, rfl, hall⟩

end Babylon.BTCCheckpoint
