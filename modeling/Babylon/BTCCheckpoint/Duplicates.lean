/-
  The same submission twice.

  A submission is known by the blocks of its two transactions and their claimed
  positions.  `verify` reads only as many bits of a position as the proof has nodes,
  so a transaction can be proved at several positions, and the same transactions in the
  same blocks recorded under several keys.  They are recorded once if every claimed
  position is one that the block has.
-/
import Babylon.BTCCheckpoint.Finalization
import Babylon.BTCStaking.Coinbase

set_option autoImplicit false

namespace Babylon.BTCCheckpoint

open Lib LightClient Checkpointing MsgInsertBTCSpvProof Sample LightClient.Sample CheckpointState

open BTCStaking (BlockTxs)

section

variable {ext : Externals} {tag : Bytes} {req : MsgInsertBTCSpvProof}
  {submission : RawCheckpointSubmission}

/-! ## The size of a transaction that carries a part -/

theorem length_le_serializeSizeStripped {tx : MsgTx} {out : TxOut} (h : out ∈ tx.txOut) :
    out.pkScript.length < tx.serializeSizeStripped := by
  have hle : 8 + varIntSerializeSize out.pkScript.length + out.pkScript.length ≤
      (tx.txOut.map fun o => 8 + varIntSerializeSize o.pkScript.length + o.pkScript.length).sum :=
    List.single_le_sum (fun _ _ => Nat.zero_le _) _
      (List.mem_map_of_mem (f := fun o : TxOut =>
        8 + varIntSerializeSize o.pkScript.length + o.pkScript.length) h)
  unfold MsgTx.serializeSizeStripped
  omega

theorem length_opReturnDataOf_le (script : Bytes) :
    (opReturnDataOf script).length + 2 ≤ script.length ∨ opReturnDataOf script = [] := by
  unfold opReturnDataOf
  split
  case isTrue => exact .inr rfl
  case isFalse =>
    split
    case isTrue =>
      rcases Nat.lt_or_ge script.length 3 with hlt | hge
      · exact .inr (List.drop_eq_nil_of_le (by omega))
      · exact .inl (by rw [List.length_drop]; omega)
    case isFalse =>
      rcases Nat.lt_or_ge script.length 2 with hlt | hge
      · exact .inr (List.drop_eq_nil_of_le (by omega))
      · exact .inl (by rw [List.length_drop]; omega)

/-- A transaction is larger than its OP_RETURN data. -/
theorem length_opReturnData_lt {tx : MsgTx} {data : Bytes}
    (h : extractStandardOpReturnData ext tx = .ok data) (hne : data ≠ []) :
    data.length + 2 < tx.serializeSizeStripped := by
  simp only [extractStandardOpReturnData, ok_iff] at h
  obtain ⟨_, hone, rfl⟩ := h
  -- there is data, so there is exactly one script
  cases hscripts : (tx.txOut.map TxOut.pkScript).filter ext.isNullData with
  | nil => exact absurd (by rw [hscripts]; rfl) hne
  | cons script rest =>
    rw [hscripts] at hone hne
    obtain rfl : rest = [] := List.length_eq_zero_iff.mp (by simpa using hone)
    have hmem : script ∈ tx.txOut.map TxOut.pkScript :=
      List.mem_of_mem_filter (hscripts ▸ List.mem_singleton_self script)
    obtain ⟨out, hout, rfl⟩ := List.mem_map.mp hmem
    have hsize := length_le_serializeSizeStripped hout
    simp only [List.flatMap_cons, List.flatMap_nil, List.append_nil] at hne ⊢
    have hlen := (length_opReturnDataOf_le out.pkScript).resolve_right hne
    omega

/-- A part of a checkpoint is longer than two hashes less two bytes. -/
theorem length_of_getCheckpointData {data part : Bytes} {partIndex : Nat}
    (h : getCheckpointData tag partIndex data = .ok part) : 63 ≤ data.length := by
  simp only [getCheckpointData, ok_iff] at h
  obtain ⟨_, hle, _, hfirst, _, hsecond, -⟩ := h
  rcases Nat.le_one_iff_eq_zero_or_eq_one.mp hle with hpart | hpart
  · rw [hfirst hpart]
    decide
  · rw [hsecond hpart]
    decide

/-! ## Positions -/

/-- The headers in a message are those of blocks with the given transactions. -/
def MsgInsertBTCSpvProof.InBlocks (ext : Externals) (blocks : ChainHash → BlockTxs ext.btc)
    (req : MsgInsertBTCSpvProof) : Prop :=
  ∀ proof ∈ req.proofs, (blocks (ext.chain.blockHash proof.confirmingBtcHeader)).merkleRoot =
    some proof.confirmingBtcHeader.merkleRoot

/-- The positions claimed in a message are positions in these blocks. -/
def MsgInsertBTCSpvProof.IndexInBlock (ext : Externals) (blocks : ChainHash → BlockTxs ext.btc)
    (req : MsgInsertBTCSpvProof) : Prop :=
  ∀ proof ∈ req.proofs, proof.btcTransactionIndex.toNat <
    (blocks (ext.chain.blockHash proof.confirmingBtcHeader)).ids.length

/-- A transaction by its key and its id. -/
abbrev Claim := TransactionKey × ChainHash

/-- The transaction and its block, without the position. -/
def Claim.onChain (claim : Claim) : ChainHash × ChainHash := (claim.2, claim.1.hash)

/-- The transaction is at the position of its key. -/
def Claim.AtPosition {prim : BtcPrimitives} (blocks : ChainHash → BlockTxs prim) (claim : Claim) :
    Prop :=
  (blocks claim.1.hash).ids[claim.1.index.toNat]? = some claim.2

/-- The transactions a message carries. -/
def MsgInsertBTCSpvProof.claims (ext : Externals) (req : MsgInsertBTCSpvProof) : List Claim :=
  req.proofs.map fun proof =>
    (⟨proof.btcTransactionIndex, ext.chain.blockHash proof.confirmingBtcHeader⟩,
      ext.btc.txHash proof.btcTransaction)

/-- The transactions of a stored submission. -/
def SubmissionData.claims (ext : Externals) (sd : SubmissionData) : List Claim :=
  sd.txsInfo.map fun info => (info.key, ext.btc.txHash info.transaction)

/-- A transaction whose claimed position is one of the block is at this position. -/
theorem position_of_parseProof (hfree : ext.btc.CollisionFree) {proof : BTCSpvProof}
    {parsed : ParsedProof} (h : parseProof ext proof = .ok parsed) {part : Bytes}
    {partIndex : Nat} (hpart : getCheckpointData tag partIndex parsed.opReturnData = .ok part)
    (block : BlockTxs ext.btc)
    (hroot : block.merkleRoot = some proof.confirmingBtcHeader.merkleRoot)
    (hidx : proof.btcTransactionIndex.toNat < block.ids.length) :
    block.ids[proof.btcTransactionIndex.toNat]? = some (ext.btc.txHash proof.btcTransaction) := by
  obtain ⟨hver, hdata, hne, -⟩ := parseProof_ok h
  have hsize : proof.btcTransaction.serializeSizeStripped ≠ 64 := by
    have hlong := length_of_getCheckpointData hpart
    have hlt := length_opReturnData_lt hdata hne
    omega
  have hwalk := walk_eq_merkleRoot_of_verify hver
  obtain ⟨position, hposn, -, hat⟩ := block.position_of_walk hfree hsize (hwalk ▸ hroot)
  rwa [hat hidx] at hposn

/-- What is stored of a message is what it claims, under the claimed key. -/
theorem claims_of_parseSubmission (h : parseSubmission ext req tag = .ok submission)
    (epochNum : Nat) :
    submission.getSubmissionKey = (req.claims ext).map Prod.fst ∧
      (submission.getSubmissionData epochNum
        (Stores.txsInfoOf submission.getSubmissionKey req)).claims ext = req.claims ext := by
  obtain ⟨first, second, hproofs, hfirst, hsecond, -⟩ := parseSubmission_ok h
  obtain ⟨-, -, -, hfirst⟩ := parseProof_ok hfirst
  obtain ⟨-, -, -, hsecond⟩ := parseProof_ok hsecond
  unfold RawCheckpointSubmission.getSubmissionKey claims
  simp only [RawCheckpointSubmission.getSubmissionData, Stores.txsInfoOf, SubmissionData.claims]
  rw [hproofs, hfirst, hsecond]
  exact ⟨rfl, rfl⟩

variable {blocks : ChainHash → BlockTxs ext.btc}

/-- Every transaction of a parsed message is at its claimed position. -/
theorem atPosition_of_parseSubmission (hfree : ext.btc.CollisionFree)
    (h : parseSubmission ext req tag = .ok submission) (hblks : req.InBlocks ext blocks)
    (hidx : req.IndexInBlock ext blocks) :
    ∀ claim ∈ req.claims ext, claim.AtPosition blocks := by
  obtain ⟨first, second, hproofs, hfirst, hsecond, ⟨_, hpart1⟩, _, hpart2⟩ := parseSubmission_ok h
  intro claim hclaim
  obtain ⟨proof, hprf, rfl⟩ := List.mem_map.mp hclaim
  have hroot := hblks proof hprf
  have hlt := hidx proof hprf
  rw [hproofs] at hprf
  rcases List.mem_pair.mp hprf with rfl | rfl
  · exact position_of_parseProof hfree hfirst hpart1 _ hroot hlt
  · exact position_of_parseProof hfree hsecond hpart2 _ hroot hlt

/-- A transaction of a block is at one position only. -/
theorem Claim.eq_of_onChain_eq {prim : BtcPrimitives} {blocks : ChainHash → BlockTxs prim}
    {claim other : Claim} (h : claim.AtPosition blocks) (ho : other.AtPosition blocks)
    (hsame : claim.onChain = other.onChain) : claim = other := by
  obtain ⟨⟨index, hash⟩, id⟩ := claim
  obtain ⟨⟨index', hash'⟩, id'⟩ := other
  obtain ⟨rfl, rfl⟩ : id = id' ∧ hash = hash' := by simpa [Claim.onChain] using hsame
  have h : (blocks hash).ids[index.toNat]? = some id := h
  have ho : (blocks hash).ids[index'.toNat]? = some id := ho
  have hidx := (List.getElem?_inj (List.getElem?_eq_some_iff.mp h).1
    (blocks hash).nodup).mp (h.trans ho.symm)
  obtain rfl := UInt32.toNat_inj.mp hidx
  rfl

theorem claims_eq_of_onChain_eq {prim : BtcPrimitives} {blocks : ChainHash → BlockTxs prim}
    {left right : List Claim} (hleft : ∀ claim ∈ left, claim.AtPosition blocks)
    (hright : ∀ claim ∈ right, claim.AtPosition blocks)
    (h : left.map Claim.onChain = right.map Claim.onChain) : left = right := by
  induction left generalizing right with
  | nil => exact (List.map_eq_nil_iff.mp h.symm).symm
  | cons claim rest ih =>
    cases right with
    | nil => cases h
    | cons other others =>
      rw [List.map_cons, List.map_cons, List.cons.injEq] at h
      rw [Claim.eq_of_onChain_eq (hleft claim List.mem_cons_self)
        (hright other List.mem_cons_self) h.1, ih
        (fun c hc => hleft c (List.mem_cons_of_mem _ hc))
        (fun c hc => hright c (List.mem_cons_of_mem _ hc)) h.2]

/-! ## Whole runs -/

/-- The stored submissions are known by their transactions at their positions. -/
def State.Located (ext : Externals) (blocks : ChainHash → BlockTxs ext.btc) (s : State) : Prop :=
  ∀ sk sd, s.submissions sk = some sd → (sd.claims ext).map Prod.fst = sk ∧
    ∀ claim ∈ sd.claims ext, claim.AtPosition blocks

/-- A condition on messages as one on operations. -/
def Operation.Carries (P : MsgInsertBTCSpvProof → Prop) : Operation → Prop
  | .insertBTCSpvProof req => P req
  | _ => True

section

variable (hfree : ext.btc.CollisionFree)

include hfree

theorem located_recorded {lc : HeadersState} {stores : Stores}
    (h : stores.btccheckpoint.Located ext blocks)
    (hrec : Stores.Records ext lc stores req submission) (hblks : req.InBlocks ext blocks)
    (hidx : req.IndexInBlock ext blocks) :
    (stores.recorded req submission).btccheckpoint.Located ext blocks := by
  intro sk sd hsto
  have hsto : Function.update stores.btccheckpoint.submissions submission.getSubmissionKey
      (some (submission.getSubmissionData submission.checkpointData.epoch
        (Stores.txsInfoOf submission.getSubmissionKey req))) sk = some sd := hsto
  rw [Function.update_apply] at hsto
  split at hsto
  case isFalse => exact h sk sd hsto
  case isTrue heq =>
    obtain rfl := Option.some.inj hsto
    obtain ⟨hkey, hclaims⟩ := claims_of_parseSubmission hrec.parsed submission.checkpointData.epoch
    rw [hclaims, heq, hkey]
    exact ⟨rfl, atPosition_of_parseSubmission hfree hrec.parsed hblks hidx⟩

theorem located_step {c t : CheckpointState} {l : Operation}
    (h : c.btccheckpoint.Located ext blocks)
    (hblks : l.Carries (InBlocks ext blocks))
    (hidx : l.Carries (IndexInBlock ext blocks))
    (hstep : c.step ext l = some t) : t.btccheckpoint.Located ext blocks := by
  cases stepped hstep with
  | insertHeaders | sealCheckpoint | conflicting | updateParams | idle => exact h
  | recorded hrec => exact located_recorded hfree h hrec hblks hidx
  | passed _ hstr =>
    refine Stores.checkCheckpoints_preserves
      (fun st => st.btccheckpoint.Located ext blocks) ?_ h hstr
    intro st parent epoch ed st' best hst _ _ hout sk sd hsd
    rcases hout.frame.submissions sk with hsame | hnone
    · exact hst sk sd (hsame ▸ hsd)
    · rw [hnone] at hsd
      cases hsd

variable {history : List (CheckpointState × Operation)}

theorem located_of_run {base : LightClient.BTCHeaderInfo} {c : CheckpointState}
    (run : Run (checkpointSystem ext base) history c)
    (hblks : Steps (fun _ l => l.Carries (InBlocks ext blocks)) history)
    (hidx : Steps (fun _ l => l.Carries (IndexInBlock ext blocks)) history) :
    c.btccheckpoint.Located ext blocks := by
  have hsteps : Steps (fun (_ : CheckpointState) (l : Operation) =>
      l.Carries (InBlocks ext blocks) ∧
        l.Carries (IndexInBlock ext blocks)) history :=
    fun past hpast => ⟨hblks past hpast, hidx past hpast⟩
  refine Run.invariant (fun c => c.btccheckpoint.Located ext blocks) ?_ ?_ run hsteps
  · intro c hgen sk sd hsd
    rw [hgen.btccheckpoint] at hsd
    cases hsd
  · rintro c l t h ⟨hin, hat⟩ hstep
    exact located_step hfree h hin hat hstep

/-- In every run whose messages claim only positions that their blocks have, the same
transactions in the same blocks are recorded at most once: two stored submissions with the
same transactions in the same blocks are one, and while a submission is stored, no message
with the same transactions in the same blocks as its message is recorded. -/
theorem no_duplicate_submission (base : LightClient.BTCHeaderInfo)
    (blocks : ChainHash → BlockTxs ext.btc) {c : CheckpointState}
    (run : Run (checkpointSystem ext base) history c)
    (hblocks : Steps (fun _ l => l.Carries (InBlocks ext blocks)) history)
    (hindex : Steps (fun _ l => l.Carries (IndexInBlock ext blocks)) history) :
    (∀ sk sk' sd sd', c.btccheckpoint.submissions sk = some sd →
      c.btccheckpoint.submissions sk' = some sd' →
      (sd.claims ext).map Claim.onChain = (sd'.claims ext).map Claim.onChain → sk = sk') ∧
    ∀ past ∈ history, ∀ req submission, past.2 = .insertBTCSpvProof req →
      Stores.Records ext past.1.lc past.1.toStores req submission →
      (c.btccheckpoint.submissions submission.getSubmissionKey).isSome = true →
      ∀ req' submission', req'.InBlocks ext blocks → req'.IndexInBlock ext blocks →
        (req'.claims ext).map Claim.onChain = (req.claims ext).map Claim.onChain →
        ¬ Stores.Records ext c.lc c.toStores req' submission' := by
  constructor
  · have hlocated := located_of_run hfree run hblocks hindex
    intro sk sk' sd sd' hsd hsd' hsame
    obtain ⟨hkeys, hat⟩ := hlocated sk sd hsd
    obtain ⟨hkeys', hat'⟩ := hlocated sk' sd' hsd'
    rw [← hkeys, ← hkeys', claims_eq_of_onChain_eq hat hat' hsame]
  · intro past hpast req submission hlabel hrecords hstored req' submission' hin hat hsame hrecords'
    have hpastIn := hblocks past hpast
    have hpastAt := hindex past hpast
    rw [hlabel] at hpastIn hpastAt
    have hclaims := claims_eq_of_onChain_eq
      (atPosition_of_parseSubmission hfree hrecords'.parsed hin hat)
      (atPosition_of_parseSubmission hfree hrecords.parsed hpastIn hpastAt) hsame
    -- both messages have the same key, which is taken
    have hkey := (claims_of_parseSubmission hrecords.parsed 0).1
    have hkey' := (claims_of_parseSubmission hrecords'.parsed 0).1
    rw [hclaims, ← hkey] at hkey'
    have hfresh := hrecords'.fresh
    rw [hkey'] at hfresh
    rw [hfresh] at hstored
    cases hstored

end

instance (blocks : ChainHash → BlockTxs ext.btc) : DecidablePred (InBlocks ext blocks) :=
  fun req => inferInstanceAs (Decidable (∀ proof ∈ req.proofs, _))

instance (blocks : ChainHash → BlockTxs ext.btc) : DecidablePred (IndexInBlock ext blocks) :=
  fun req => inferInstanceAs (Decidable (∀ proof ∈ req.proofs, _))

instance (P : MsgInsertBTCSpvProof → Prop) [DecidablePred P] :
    DecidablePred (Operation.Carries P)
  | .insertBTCSpvProof req => inferInstanceAs (Decidable (P req))
  | .insertHeaders _ | .sealCheckpoint _ | .updateParams _ | .endBlock => .isTrue trivial

end

namespace Sample

/-- The block of the older submission. -/
def olderBlock : BlockTxs ext.btc where
  coinbase := firstTx 1 0
  others := [secondTx 1 0]
  nodup := by decide +kernel
  size := by decide +kernel

/-- The submission in this block is reported with its second transaction at the given
positions. -/
def reportedAt (indexes : List UInt32) : List Operation :=
  [.sealCheckpoint (checkpoint 1), .insertHeaders [older]] ++ indexes.map fun index =>
    .insertBTCSpvProof (submission root.hash 1 0 index)

/-- The key with the second transaction at the given position. -/
def keyAt (index : UInt32) : SubmissionKey :=
  [⟨0, ext.chain.blockHash older⟩, ⟨index, ext.chain.blockHash older⟩]

end Sample

/-- The second transaction of a block of two is accepted at positions 1 and 3: the same
transactions in the same block are recorded twice. -/
theorem same_submission_recorded_twice :
    Sample.ext.btc.CollisionFree ∧
    ∃ history c, Run (checkpointSystem Sample.ext root) history c ∧
      Steps (fun _ l => l.Carries (InBlocks Sample.ext fun _ => olderBlock)) history ∧
      ∃ sd sd', c.btccheckpoint.submissions (keyAt 1) = some sd ∧
        c.btccheckpoint.submissions (keyAt 3) = some sd' ∧
        (sd.claims Sample.ext).map Claim.onChain = (sd'.claims Sample.ext).map Claim.onChain ∧
        keyAt 1 ≠ keyAt 3 := by
  refine ⟨BtcPrimitives.simple_collisionFree, ?_⟩
  simp only [exists_and_left]
  exact Run.of_labels _ start_genesis (reportedAt [1, 3]) (by decide +kernel)

/-- Reported at position 1, the submission is recorded, and it is the only one with its
transactions in their block. -/
theorem submission_recorded_once :
    ∃ history c, Run (checkpointSystem Sample.ext root) history c ∧
      ∃ sd, c.btccheckpoint.submissions (keyAt 1) = some sd ∧
        ∀ sk' sd', c.btccheckpoint.submissions sk' = some sd' →
          (sd.claims Sample.ext).map Claim.onChain = (sd'.claims Sample.ext).map Claim.onChain →
          keyAt 1 = sk' := by
  obtain ⟨history, c, run, hsteps, hstored⟩ := Run.of_labels
    (checkpointSystem Sample.ext root)
    (Q := fun _ l => l.Carries (InBlocks Sample.ext fun _ => olderBlock) ∧
      l.Carries (IndexInBlock Sample.ext fun _ => olderBlock))
    (P := fun c => (c.btccheckpoint.submissions (keyAt 1)).isSome = true)
    start_genesis (reportedAt [1]) (by decide +kernel)
  obtain ⟨sd, hsd⟩ := Option.isSome_iff_exists.mp hstored
  have hunique := (no_duplicate_submission BtcPrimitives.simple_collisionFree
    root (fun _ => olderBlock) run
    (hsteps.mono fun _ _ => And.left) (hsteps.mono fun _ _ => And.right)).1
  exact ⟨history, c, run, sd, hsd, fun sk' sd' hsd' => hunique _ sk' sd sd' hsd hsd'⟩

end Babylon.BTCCheckpoint
