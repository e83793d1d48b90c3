/-
  The covenant signatures of stored delegations.

  A delegation carries three lists of covenant signatures, and a stake expansion a
  fourth.  `AddCovenantSigs` appends to all of them at once, for members of the
  committee of the delegation's parameters and, for a stake expansion, of the
  committee of the delegation it replaces.
-/
import Babylon.BTCStaking.Quorum

set_option autoImplicit false

namespace Babylon.BTCStaking

open Lib KVStore State Option

variable {prim : BtcPrimitives} {env : Env} {s t : State} {requests : State → Request → Prop}

variable {d d' : BTCDelegation} {hash : ChainHash} {info : BTCDelegationWithParams}

/-! ## Signatures of one delegation -/

variable {pk : BIP340PubKey}

namespace BTCDelegation

/-- The covenant members that signed the slashing transaction. -/
def signers (d : BTCDelegation) : List BIP340PubKey := d.covenantSigs.map fun sig => sig.covPk

/-- All lists of covenant signatures are by the same members, each of them once. -/
structure SignedAlike (d : BTCDelegation) : Prop where
  unbonding : (d.btcUndelegation.covenantUnbondingSigList.map fun sig => sig.pk) = d.signers
  unbondingSlashing : (d.btcUndelegation.covenantSlashingSigs.map fun sig => sig.covPk) = d.signers
  expansion : ∀ stkExp, d.stkExp = some stkExp →
    (stkExp.previousStkCovenantSigs.map fun sig => sig.pk) = d.signers
  nodup : d.signers.Nodup

theorem isSignedByCovMember_iff : d.isSignedByCovMember pk = true ↔ pk ∈ d.signers := by
  simp only [isSignedByCovMember, signers, List.any_eq_true, decide_eq_true_eq, List.mem_map]

theorem SignedAlike.isSigned_iff (h : d.SignedAlike) :
    (d.isSignedByCovMember pk && d.btcUndelegation.isSignedByCovMember pk) = true ↔
      pk ∈ d.signers := by
  have hunbg : pk ∈ d.signers ↔
      pk ∈ d.btcUndelegation.covenantUnbondingSigList.map fun sig => sig.pk := by rw [h.unbonding]
  have hslg : pk ∈ d.signers ↔
      pk ∈ d.btcUndelegation.covenantSlashingSigs.map fun sig => sig.covPk := by
    rw [h.unbondingSlashing]
  rw [List.mem_map] at hunbg hslg
  rw [Bool.and_eq_true, isSignedByCovMember_iff, BTCUndelegation.isSignedByCovMember,
    Bool.and_eq_true, List.any_eq_true, List.any_eq_true]
  simp only [decide_eq_true_eq]
  rw [← hunbg, ← hslg]
  exact ⟨fun hsigned => hsigned.1, fun hsigned => ⟨hsigned, hsigned, hsigned⟩⟩

/-- A quorum is a number of signers. -/
theorem SignedAlike.hasCovenantQuorums_iff (h : d.SignedAlike) (quorum quorumPreviousStk : Nat) :
    d.hasCovenantQuorums quorum quorumPreviousStk = true ↔
      quorum ≤ d.signers.length ∧
        (d.stkExp.isSome = true → quorumPreviousStk ≤ d.signers.length) := by
  have hslg : d.covenantSigs.length = d.signers.length := (List.length_map _).symm
  have hunbg := congrArg List.length h.unbonding
  have hunbs := congrArg List.length h.unbondingSlashing
  rw [List.length_map] at hunbg hunbs
  have hbase : (decide (quorum ≤ d.covenantSigs.length) &&
      d.btcUndelegation.hasCovenantQuorums quorum) = decide (quorum ≤ d.signers.length) := by
    unfold BTCUndelegation.hasCovenantQuorums BTCUndelegation.hasCovenantQuorumOnUnbonding
      BTCUndelegation.hasCovenantQuorumOnSlashing
    rw [hslg, hunbg, hunbs, Bool.and_self, Bool.and_self]
  unfold hasCovenantQuorums
  rw [hbase]
  cases hexp : d.stkExp with
  | none =>
    rw [decide_eq_true_eq]
    exact ⟨fun hq => ⟨hq, fun hsome => nomatch hsome⟩, fun hq => hq.1⟩
  | some stkExp =>
    have hexpn := congrArg List.length (h.expansion stkExp hexp)
    rw [List.length_map] at hexpn
    rw [Bool.and_eq_true, StakeExpansion.hasCovenantQuorums, hexpn, decide_eq_true_eq,
      decide_eq_true_eq]
    exact ⟨fun hq => ⟨hq.1, fun _ => hq.2⟩, fun hq => ⟨hq.1, hq.2 rfl⟩⟩

theorem signers_addCovenantSigs (d : BTCDelegation) (pk : BIP340PubKey) (slashingSigs : List Bytes)
    (unbondingSig : Bytes) (unbondingSlashingSigs : List Bytes) (stkExpSig : Bytes) :
    (d.addCovenantSigs pk slashingSigs unbondingSig unbondingSlashingSigs stkExpSig).signers
      = d.signers ++ [pk] := by
  unfold signers addCovenantSigs
  rw [List.map_append]
  rfl

theorem SignedAlike.addCovenantSigs (h : d.SignedAlike) (hnew : pk ∉ d.signers)
    (slashingSigs : List Bytes) (unbondingSig : Bytes) (unbondingSlashingSigs : List Bytes)
    (stkExpSig : Bytes) :
    (d.addCovenantSigs pk slashingSigs unbondingSig unbondingSlashingSigs
      stkExpSig).SignedAlike where
  unbonding := by
    rw [signers_addCovenantSigs, ← h.unbonding]
    unfold BTCDelegation.addCovenantSigs BTCUndelegation.addCovenantSigs
    rw [List.map_append]
    rfl
  unbondingSlashing := by
    rw [signers_addCovenantSigs, ← h.unbondingSlashing]
    unfold BTCDelegation.addCovenantSigs BTCUndelegation.addCovenantSigs
    rw [List.map_append]
    rfl
  expansion := by
    intro stkExp hexp
    obtain ⟨old, hold, rfl⟩ := map_eq_some_iff.mp hexp
    rw [signers_addCovenantSigs, ← h.expansion old hold]
    unfold StakeExpansion.addCovenantSigs
    rw [List.map_append]
    rfl
  nodup := by
    rw [signers_addCovenantSigs]
    refine List.Nodup.append h.nodup (List.nodup_singleton pk) ?_
    exact List.disjoint_singleton.mpr hnew

/-- The signatures of a delegation, and what a stake expansion refers to, are kept. -/
structure SameSignatures (d d' : BTCDelegation) : Prop where
  covenantSigs : d'.covenantSigs = d.covenantSigs
  unbonding : d'.btcUndelegation.covenantUnbondingSigList
    = d.btcUndelegation.covenantUnbondingSigList
  unbondingSlashing : d'.btcUndelegation.covenantSlashingSigs
    = d.btcUndelegation.covenantSlashingSigs
  stkExp : d'.stkExp = d.stkExp

theorem SameSignatures.signers (h : d.SameSignatures d') : d'.signers = d.signers := by
  unfold BTCDelegation.signers
  rw [h.covenantSigs]

theorem SameSignatures.signedAlike (h : d.SameSignatures d') (hd : d.SignedAlike) :
    d'.SignedAlike where
  unbonding := by rw [h.unbonding, h.signers, hd.unbonding]
  unbondingSlashing := by rw [h.unbondingSlashing, h.signers, hd.unbondingSlashing]
  expansion := by
    intro stkExp hexp
    rw [h.stkExp] at hexp
    rw [h.signers, hd.expansion stkExp hexp]
  nodup := by
    rw [h.signers]
    exact hd.nodup

end BTCDelegation

/-! ## Signatures of all delegations -/

/-- The signers are members of the committee of the delegation and, for a stake expansion, of
the committee of what it replaces, which shares enough members with its own. -/
structure State.CovenantSigned (s : State) (d : BTCDelegation) : Prop extends d.SignedAlike where
  member : ∀ p, s.params.get d.paramsVersion = some p → ∀ pk ∈ d.signers, pk ∈ p.covenantPks
  previousMember : ∀ previous, s.prevParams d = some previous →
    ∀ pk ∈ d.signers, pk ∈ previous.covenantPks
  overlap : ∀ p previous, s.params.get d.paramsVersion = some p →
    s.prevParams d = some previous →
    hasSufficientCovenantOverlap previous.covenantPks p.covenantPks previous.covenantQuorum = true

/-- Every stored delegation is signed by its covenant. -/
def State.CovenantsSigned (s : State) : Prop :=
  ∀ hash d, s.btcDelegations.get hash = some d → s.CovenantSigned d

/-- Who signed the delegation of a hash. -/
def State.signersOf (s : State) (hash : ChainHash) : List BIP340PubKey :=
  (s.btcDelegations.get hash).elim [] fun d => d.signers

theorem State.signersOf_of_some (h : s.btcDelegations.get hash = some d) :
    s.signersOf hash = d.signers := by
  unfold signersOf
  rw [h, elim_some]

theorem State.WritesOne.signersOf_eq (h : s.WritesOne prim t hash d') (other : ChainHash) :
    t.signersOf other = if other = hash then d'.signers else s.signersOf other := by
  unfold signersOf
  rw [h.delegations, get_set]
  split <;> rfl

theorem State.exists_stkExp_of_prevParams {previous : Params} (h : s.prevParams d = some previous) :
    ∃ stkExp, d.stkExp = some stkExp := by
  unfold prevParams at h
  cases hexp : d.stkExp with
  | none =>
    rw [hexp] at h
    cases h
  | some stkExp => exact ⟨stkExp, rfl⟩

/-- What a signed delegation refers to does not change in later stores. -/
theorem State.CovenantSigned.extend (h : s.Extends t) (hs : s.WellFormed prim)
    (hd : s.btcDelegations.get hash = some d) (hsigned : s.CovenantSigned d)
    (hterms : d.SameTerms d') (hsigs : d.SameSignatures d') :
    t.CovenantSigned d' := by
  have hprev := h.prevParams_eq hs (hs.settled hash d hd) hterms
  have hpar := (h.quorums_eq hs hd hterms).1
  refine ⟨hsigs.signedAlike hsigned.toSignedAlike, ?_, ?_, ?_⟩
  · rw [hpar, hsigs.signers]
    exact hsigned.member
  · rw [hprev, hsigs.signers]
    exact hsigned.previousMember
  · rw [hpar, hprev]
    exact hsigned.overlap

section

variable (hsigned : s.CovenantsSigned)

include hsigned

section

variable (hs : s.WellFormed prim)

include hs

/-- Delegations that are not written stay signed. -/
theorem State.CovenantsSigned.write (h : s.WritesOne prim t hash d')
    (hnew : t.CovenantSigned d') : t.CovenantsSigned := by
  have hext := h.extended
  unfold CovenantsSigned
  rw [h.delegations]
  refine forall_set (fun other e he => ?_) hnew
  exact (hsigned other e he).extend hext hs he (.refl e) ⟨rfl, rfl, rfl, rfl⟩

/-- A stored delegation is written with the signatures it had. -/
theorem State.CovenantsSigned.rewrite (h : s.WritesOne prim t hash d')
    (hd : s.btcDelegations.get hash = some d) (hsigs : d.SameSignatures d') :
    t.CovenantsSigned ∧ ∀ other, t.signersOf other = s.signersOf other := by
  refine ⟨hsigned.write hs h
    ((hsigned hash d hd).extend h.extended hs hd (h.same d hd) hsigs), ?_⟩
  intro other
  rw [h.signersOf_eq]
  split
  case isTrue heq => rw [heq, signersOf_of_some hd, hsigs.signers]
  case isFalse => rfl

/-- A new delegation has no signatures. -/
theorem State.CovenantsSigned.insert {delegators : DelegatorIndex}
    (fresh : FreshDelegation prim env s d)
    (hexpands : ∀ stkExp, d.stkExp = some stkExp → ExpandsActive prim env s d stkExp) :
    (s.insertDelegation prim delegators d).CovenantsSigned ∧
      ∀ other, (s.insertDelegation prim delegators d).signersOf other = s.signersOf other := by
  have hwr : s.WritesOne prim (s.insertDelegation prim delegators d)
      (prim.txHash d.stakingTx) d := .insert fresh hexpands
  have hext := hwr.extended
  have hnone : d.signers = [] := by
    unfold BTCDelegation.signers
    rw [fresh.covenantSigs, List.map_nil]
  refine ⟨hsigned.write hs hwr ⟨⟨?_, ?_, ?_, ?_⟩, ?_, ?_, ?_⟩, ?_⟩
  · rw [hnone, fresh.undelegationSigs.1, List.map_nil]
  · rw [hnone, fresh.undelegationSigs.2, List.map_nil]
  · intro stkExp hexp
    rw [hnone, (hexpands stkExp hexp).unsigned, List.map_nil]
  · rw [hnone]
    exact List.nodup_nil
  · intro p _ pk hpk
    rw [hnone] at hpk
    cases hpk
  · intro previous _ pk hpk
    rw [hnone] at hpk
    cases hpk
  · -- the check of `BtcStakeExpand`, in the store in which the expansion is added
    intro p previous hp hget
    rw [hext.prevParams_eq hs (hwr.new fresh.unused) (.refl d)] at hget
    obtain ⟨stkExp, hexp⟩ := exists_stkExp_of_prevParams hget
    obtain ⟨info, q, hinfo, hq, hoverlap⟩ := (hexpands stkExp hexp).overlap
    have hrslv := getBTCDelWithParams_resolves hinfo
    obtain rfl : info.params = previous := by
      unfold prevParams at hget
      rw [hexp, bind_some, hrslv.stored, bind_some, hrslv.params] at hget
      exact some.inj hget
    rw [hext.params _ q hq] at hp
    obtain rfl := some.inj hp
    exact hoverlap
  · intro other
    rw [hwr.signersOf_eq]
    split
    case isTrue heq => rw [heq, hnone, signersOf, fresh.unused, elim_none]
    case isFalse => rfl

/-- Unbonding a delegation, and activating a stake expansion on the way, keeps signatures. -/
theorem msgBTCUndelegate_covenants {req : MsgBTCUndelegate}
    (h : s.msgBTCUndelegate prim env req = .ok t) :
    t.CovenantsSigned ∧ ∀ hash, t.signersOf hash = s.signersOf hash := by
  obtain ⟨d, u, activated, start, stop, hact, hget, rfl⟩ := msgBTCUndelegate_writes hs.keyed h
  obtain ⟨hwf, hsigned', hsgs⟩ : activated.WellFormed prim ∧ activated.CovenantsSigned ∧
      ∀ hash, activated.signersOf hash = s.signersOf hash := by
    rcases hact with rfl | ⟨hash, e, p, timeInfo, he, rfl⟩
    · exact ⟨hs, hsigned, fun _ => rfl⟩
    · have hwr : s.WritesOne prim (s.includeDelegation prim env e p timeInfo) _ _ :=
        .include hs.keyed he p timeInfo
      exact ⟨hwr.wellFormed hs, hsigned.rewrite hs hwr he ⟨rfl, rfl, rfl, rfl⟩⟩
  have hsame : { d with startHeight := start, endHeight := stop }.SameTerms d :=
    ⟨rfl, rfl, rfl, rfl, rfl, rfl, rfl⟩
  have hwr : activated.WritesOne prim (activated.btcUndelegate prim env d u) _ _ :=
    .unbond hwf.keyed hget hsame u
  obtain ⟨hsigned'', hsigners'⟩ := hsigned'.rewrite hwf hwr hget ⟨rfl, rfl, rfl, rfl⟩
  exact ⟨hsigned'', fun hash => (hsigners' hash).trans (hsgs hash)⟩

/-- Of all changes, only `AddCovenantSigs` touches signatures. -/
theorem Change.covenants (hreq : ∀ req, ¬ requests s (.addCovenantSigs req))
    (h : Change prim env requests s t) :
    t.CovenantsSigned ∧ ∀ hash, t.signersOf hash = s.signersOf hash := by
  have hext := (h.wellFormed hs).2
  cases h with
  | create fresh hexp => exact hsigned.insert hs fresh (.of_none hexp)
  | expand fresh hexp expands => exact hsigned.insert hs fresh (.of_some hexp expands)
  | prove stored =>
    exact hsigned.rewrite hs (.include hs.keyed stored _ _) stored ⟨rfl, rfl, rfl, rfl⟩
  | sign request => exact absurd request (hreq _)
  | undelegate request h => exact msgBTCUndelegate_covenants hsigned hs h
  | registry h =>
    have hdels := h.btcDelegations
    refine ⟨?_, fun hash => ?_⟩
    · intro hash d hget
      rw [hdels] at hget
      exact (hsigned hash d hget).extend hext hs hget (.refl d) ⟨rfl, rfl, rfl, rfl⟩
    · unfold signersOf
      rw [hdels]

end

end

/-! ## Submitting signatures -/

/-- The signatures of a request are valid: adaptor signatures on both slashing transactions, a
signature on the unbonding transaction and, exactly for a stake expansion, one on the staking
transaction that spends the output of the delegation it replaces. -/
structure ValidCovenantSigs (prim : BtcPrimitives) (info : BTCDelegationWithParams)
    (req : MsgAddCovenantSigs) : Prop where
  slashing : ∃ stakingInfo sigs, getStakingInfo prim info.delegation info.params
      = some stakingInfo ∧
    prim.parseEncVerifyAdaptorSignatures info.delegation.slashingTx stakingInfo.stakingOutput
      stakingInfo.slashingPathScript req.pk info.delegation.fpBtcPkList req.slashingTxSigs
        = some sigs ∧
    prim.verifyTransactionSigWithOutput info.delegation.btcUndelegation.unbondingTx
      stakingInfo.stakingOutput stakingInfo.unbondingPathScript req.pk req.unbondingTxSig = true
  unbondingSlashing : ∃ output unbondingInfo sigs,
    info.delegation.btcUndelegation.unbondingTx.txOut[0]? = some output ∧
    prim.buildUnbondingInfo info.delegation.btcPk info.delegation.fpBtcPkList
      info.params.covenantPks info.params.covenantQuorum info.delegation.unbondingTime output.value
        = some unbondingInfo ∧
    prim.parseEncVerifyAdaptorSignatures info.delegation.btcUndelegation.slashingTx output
      unbondingInfo.slashingPathScript req.pk info.delegation.fpBtcPkList
        req.slashingUnbondingTxSigs = some sigs
  expansion : ∀ stkExp, info.delegation.stkExp = some stkExp →
    ∃ sig previous previousParams previousInfo previousOutput,
      req.stakeExpansionTxSig = some sig ∧ info.prev = some (previous, previousParams) ∧
      getStakingInfo prim previous previousParams = some previousInfo ∧
      previous.stakingTx.txOut[previous.stakingOutputIdx]? = some previousOutput ∧
      prim.verifyTransactionSigStkExp info.delegation.stakingTx previousOutput
        stkExp.otherFundingTxOut previousInfo.unbondingPathScript req.pk sig = true

/-- What `AddCovenantSigs` has checked about the member that submits signatures. -/
structure AcceptedSigner (prim : BtcPrimitives) (info : BTCDelegationWithParams)
    (req : MsgAddCovenantSigs) : Prop where
  valid : ValidCovenantSigs prim info req
  member : req.pk ∈ info.params.covenantPks
  unsigned : (info.delegation.isSignedByCovMember req.pk &&
    info.delegation.btcUndelegation.isSignedByCovMember req.pk) = false
  previousMember : ∀ stkExp, info.delegation.stkExp = some stkExp →
    ∃ previous, info.prev = some previous ∧ req.pk ∈ previous.2.covenantPks

variable {req : MsgAddCovenantSigs}

theorem validateStakeExpansionSig_ok {u : Unit}
    (h : validateStakeExpansionSig prim info req = .ok u) {stkExp : StakeExpansion}
    (hexp : info.delegation.stkExp = some stkExp) :
    ∃ sig previous previousParams previousInfo previousOutput,
      req.stakeExpansionTxSig = some sig ∧ info.prev = some (previous, previousParams) ∧
      req.pk ∈ previousParams.covenantPks ∧
      getStakingInfo prim previous previousParams = some previousInfo ∧
      previous.stakingTx.txOut[previous.stakingOutputIdx]? = some previousOutput ∧
      prim.verifyTransactionSigStkExp info.delegation.stakingTx previousOutput
        stkExp.otherFundingTxOut previousInfo.unbondingPathScript req.pk sig = true := by
  unfold validateStakeExpansionSig at h
  dsimp only at h
  rw [hexp] at h
  cases hsig : req.stakeExpansionTxSig with
  | none =>
    rw [hsig] at h
    cases h
  | some sig =>
    rw [hsig] at h
    simp only [ok_iff] at h
    obtain ⟨-, -, ⟨previous, previousParams⟩, hprev, -, hmember, -, -, previousInfo, hinfo,
      previousOutput, houtput, hver⟩ := h
    exact ⟨sig, previous, previousParams, previousInfo, previousOutput, rfl, hprev,
      of_decide_eq_true hmember, hinfo, houtput, hver⟩

theorem addCovenantSigs_accepted (h : s.addCovenantSigs prim env req = .ok t) :
    ∃ info slashingSigs unbondingSlashingSigs,
      s.getBTCDelWithParams req.stakingTxHash = .ok info ∧ AcceptedSigner prim info req ∧
      t = s.addCovenantSigsToBTCDelegation prim env info req.pk slashingSigs req.unbondingTxSig
        unbondingSlashingSigs (req.stakeExpansionTxSig.getD []) := by
  simp only [addCovenantSigs, ok_iff] at h
  obtain ⟨info, hinfo, _, hmember, _, hunsigned, _, -, _, -, stakingInfo, hstk, slashingSigs,
    hslg, _, -, _, hunbg, output, houtput, unbondingInfo, hbuilt, unbondingSlashingSigs,
    hunbs, _, hexpn, rfl⟩ := h
  refine ⟨info, slashingSigs, unbondingSlashingSigs, hinfo, ⟨⟨?_, ?_, ?_⟩, ?_, hunsigned, ?_⟩, rfl⟩
  · exact ⟨stakingInfo, slashingSigs, hstk, hslg, hunbg⟩
  · exact ⟨output, unbondingInfo, unbondingSlashingSigs, houtput, hbuilt, hunbs⟩
  · intro stkExp hexp
    obtain ⟨sig, previous, previousParams, previousInfo, previousOutput, hsig, hprev, -, hrest⟩ :=
      validateStakeExpansionSig_ok hexpn hexp
    exact ⟨sig, previous, previousParams, previousInfo, previousOutput, hsig, hprev, hrest⟩
  · exact of_decide_eq_true hmember
  · intro stkExp hexp
    obtain ⟨-, previous, previousParams, -, -, -, hprev, hmember, -⟩ :=
      validateStakeExpansionSig_ok hexpn hexp
    exact ⟨_, hprev, hmember⟩

/-- The lookup finds the parameters of what a stake expansion replaces. -/
theorem getBTCDelWithParams_prev (h : s.getBTCDelWithParams hash = .ok info)
    {previous : BTCDelegation × Params} (hprev : info.prev = some previous) :
    s.prevParams info.delegation = some previous.2 := by
  simp only [getBTCDelWithParams, getBTCDelWithParamsWithin, getBTCDelegation, ok_iff] at h
  obtain ⟨d, -, p, -, h⟩ := h
  split at h
  case h_1 =>
    cases h
    cases hprev
  case h_2 stkExp hexp =>
    simp only [ok_iff] at h
    obtain ⟨info', hinfo', rfl⟩ := h
    obtain rfl := some.inj hprev
    obtain ⟨hsto, hpar, -⟩ := getBTCDelWithParamsWithin_resolves hinfo'
    unfold prevParams
    rw [hexp, bind_some, hsto, bind_some, hpar]

/-- Accepted signatures are by a member that had not signed, and it becomes a signer. -/
theorem addCovenantSigs_covenants (hsigned : s.CovenantsSigned) (hs : s.WellFormed prim)
    (h : s.addCovenantSigs prim env req = .ok t) :
    t.CovenantsSigned ∧
      ∀ hash, t.signersOf hash
        = if hash = req.stakingTxHash then s.signersOf hash ++ [req.pk] else s.signersOf hash := by
  obtain ⟨info, slashingSigs, unbondingSlashingSigs, hinfo, hacc, rfl⟩ := addCovenantSigs_accepted h
  have hrslv := getBTCDelWithParams_resolves hinfo
  have hd := hrslv.stored
  have hold := hsigned _ _ hd
  have hwr : s.WritesOne prim (s.addCovenantSigsToBTCDelegation prim env info req.pk
      slashingSigs req.unbondingTxSig unbondingSlashingSigs
        (req.stakeExpansionTxSig.getD [])) _ _ :=
    .sign hs.keyed hd req.pk slashingSigs unbondingSlashingSigs req.unbondingTxSig
      (req.stakeExpansionTxSig.getD [])
  have hext := hwr.extended
  have hnew : req.pk ∉ info.delegation.signers := fun hmem => by
    have hboth := hold.toSignedAlike.isSigned_iff.mpr hmem
    rw [hacc.unsigned] at hboth
    cases hboth
  have hterms : info.delegation.SameTerms (info.delegation.addCovenantSigs req.pk slashingSigs
      req.unbondingTxSig unbondingSlashingSigs (req.stakeExpansionTxSig.getD [])) :=
    .addCovenantSigs _ _ _ _ _ _
  have hprevious := hext.prevParams_eq hs (hs.settled _ _ hd) hterms
  have hpar := (hext.quorums_eq hs hd hterms).1
  refine ⟨hsigned.write hs hwr
    ⟨hold.toSignedAlike.addCovenantSigs hnew _ _ _ _, ?_, ?_, ?_⟩, ?_⟩
  · rw [hpar, BTCDelegation.signers_addCovenantSigs]
    intro p hp
    obtain rfl := some.inj (hrslv.params.symm.trans hp)
    exact List.forall_mem_append.mpr
      ⟨hold.member _ hp, List.forall_mem_singleton.mpr hacc.member⟩
  · rw [hprevious, BTCDelegation.signers_addCovenantSigs]
    intro previous hget
    refine List.forall_mem_append.mpr
      ⟨hold.previousMember previous hget, List.forall_mem_singleton.mpr ?_⟩
    obtain ⟨stkExp, hexp⟩ := exists_stkExp_of_prevParams hget
    obtain ⟨found, hprev, hmember⟩ := hacc.previousMember stkExp hexp
    rw [getBTCDelWithParams_prev hinfo hprev] at hget
    obtain rfl := some.inj hget
    exact hmember
  · rw [hpar, hprevious]
    exact hold.overlap
  · intro hash
    rw [hwr.signersOf_eq, BTCDelegation.signers_addCovenantSigs]
    split
    case isTrue heq => rw [heq, signersOf_of_some hd]
    case isFalse => rfl

/-- The second submission of a member is rejected as a duplicate. -/
theorem addCovenantSigs_duplicate (hsigned : s.CovenantsSigned) (hs : s.WellFormed prim)
    (h : req.pk ∈ s.signersOf req.stakingTxHash) :
    s.addCovenantSigs prim env req = .error (.registered errDuplicatedCovenantSig) := by
  cases hget : s.btcDelegations.get req.stakingTxHash with
  | none =>
    unfold signersOf at h
    rw [hget] at h
    cases h
  | some d =>
    rw [signersOf_of_some hget] at h
    obtain ⟨info, hinfo, rfl, hrslv⟩ := hs.getBTCDelWithParams_ok hget
    have hold := hsigned _ _ hget
    have hmember : info.params.hasCovenantPK req.pk = true :=
      decide_eq_true (hold.member _ hrslv.params _ h)
    have hdup := hold.toSignedAlike.isSigned_iff.mpr h
    unfold addCovenantSigs
    rw [hinfo, ok_bind]
    dsimp only
    rw [ensure_of _ hmember, ok_bind, hdup]
    rfl

end Babylon.BTCStaking
