/-
  Stake expansions and what they replace: when the delegation that an included
  expansion names as the previous one is unbonded.
-/
import Babylon.BTCStaking.Quorum

set_option autoImplicit false

namespace Babylon.BTCStaking

open Lib KVStore State BTCDelegation

variable {prim : BtcPrimitives} {env : Env} {s t : State} {requests : State → Request → Prop}
  {d : BTCDelegation} {hash : ChainHash} {pk : BIP340PubKey}
  {slashingSigs unbondingSlashingSigs : List Bytes} {stkExpSig unbondingSig : Bytes}

/-- The delegation of this hash is stored and unbonded. -/
def State.IsUnbonded (s : State) (hash : ChainHash) : Prop :=
  ∃ d, s.btcDelegations.get hash = some d ∧ d.isUnbondedEarly = true

/-- The delegation that an included stake expansion replaces is unbonded. -/
def State.ExpandedUnbonded (s : State) : Prop :=
  ∀ hash d stkExp, s.btcDelegations.get hash = some d → d.stkExp = some stkExp →
    d.hasInclusionProof = true → s.IsUnbonded stkExp.previousStakingTxHash

/-- No delegation becomes bonded again when this one is written. -/
def State.KeepsUnbonded (s : State) (hash : ChainHash) (d' : BTCDelegation) : Prop :=
  ∀ d, s.btcDelegations.get hash = some d → d.isUnbondedEarly = true → d'.isUnbondedEarly = true

theorem State.IsUnbonded.of_set {previous : ChainHash} {d' : BTCDelegation}
    (hs : s.IsUnbonded previous) (hkeeps : s.KeepsUnbonded hash d')
    (h : t.btcDelegations = s.btcDelegations.set hash d') : t.IsUnbonded previous := by
  obtain ⟨d, hd, hunb⟩ := hs
  by_cases heq : previous = hash
  · subst heq
    exact ⟨d', by rw [h, get_set_self], hkeeps d hd hunb⟩
  · exact ⟨d, by rw [h, get_set_of_ne _ _ heq, hd], hunb⟩

section

variable (hs : s.ExpandedUnbonded)

include hs

theorem State.ExpandedUnbonded.of_set {d' : BTCDelegation}
    (h : t.btcDelegations = s.btcDelegations.set hash d') (hkeeps : s.KeepsUnbonded hash d')
    (hnew : ∀ stkExp, d'.stkExp = some stkExp → d'.hasInclusionProof = true →
      s.IsUnbonded stkExp.previousStakingTxHash) : t.ExpandedUnbonded := by
  intro other d stkExp hget hexp hprf
  rw [h] at hget
  obtain ⟨-, rfl⟩ | ⟨-, hold⟩ := of_get_set hget
  · exact (hnew stkExp hexp hprf).of_set hkeeps h
  · exact (hs other d stkExp hold hexp hprf).of_set hkeeps h

theorem State.ExpandedUnbonded.of_eq
    (h : t.btcDelegations = s.btcDelegations) : t.ExpandedUnbonded := by
  intro hash d stkExp hget hexp hprf
  rw [h] at hget
  obtain ⟨previous, hprev, hunb⟩ := hs hash d stkExp hget hexp hprf
  exact ⟨previous, by rw [h, hprev], hunb⟩

/-- A delegation that is added to the store is no included stake expansion. -/
theorem State.ExpandedUnbonded.insert (fresh : FreshDelegation prim env s d)
    (h : t.btcDelegations = s.btcDelegations.set (prim.txHash d.stakingTx) d) :
    t.ExpandedUnbonded := by
  refine hs.of_set h ?_ ?_
  · intro old hold
    rw [fresh.unused] at hold
    cases hold
  · intro stkExp hexp hprf
    rcases fresh.time with ⟨hstart, -⟩ | ⟨hnone, -⟩
    · simp [hasInclusionProof, hstart] at hprf
    · rw [hnone] at hexp
      cases hexp

theorem State.ExpandedUnbonded.sign (hk : s.DelegationsKeyed prim)
    (hd : s.btcDelegations.get hash = some d)
    (h : t.btcDelegations = s.btcDelegations.set (prim.txHash d.stakingTx)
      (d.addCovenantSigs pk slashingSigs unbondingSig unbondingSlashingSigs stkExpSig)) :
    t.ExpandedUnbonded := by
  rw [hk hash d hd] at h
  refine hs.of_set h ?_ ?_
  · intro old hold hunb
    rw [hd] at hold
    cases hold
    exact hunb
  · intro stkExp hexp hprf
    obtain ⟨old, hold, rfl⟩ := Option.map_eq_some_iff.mp hexp
    exact hs hash d old hd hold hprf

theorem State.ExpandedUnbonded.unbond {u : DelegatorUnbondingInfo}
    (hd : s.btcDelegations.get hash = some d)
    (h : t.btcDelegations = s.btcDelegations.set hash (d.unbond u)) : t.ExpandedUnbonded := by
  refine hs.of_set h (fun _ _ _ => rfl) ?_
  intro stkExp hexp hprf
  exact hs hash d stkExp hd hexp hprf

/-- A stake expansion is activated by unbonding the delegation it replaces, unless that
delegation is unbonded already. -/
def State.UnbondsExpanded (prim : BtcPrimitives) (s : State) (req : MsgBTCUndelegate) : Prop :=
  ∀ tx d stkExp, req.stakeSpendingTx = some tx →
    s.shouldActivateStkExp (prim.txHash tx) = some d → d.stkExp = some stkExp →
    req.stakingTxHash = stkExp.previousStakingTxHash ∨ s.IsUnbonded stkExp.previousStakingTxHash

theorem msgBTCUndelegate_expandedUnbonded {req : MsgBTCUndelegate} (hk : s.DelegationsKeyed prim)
    (hreq : s.UnbondsExpanded prim req)
    (h : s.msgBTCUndelegate prim env req = .ok t) : t.ExpandedUnbonded := by
  obtain ⟨info, tx, u, activated, htx, hinfo, -, -, hact, -, rfl⟩ := msgBTCUndelegate_ok h
  have hnm := (getBTCDelWithParams_resolves hinfo).stored
  have hkey := hk _ _ hnm
  -- the store after the named delegation alone has been unbonded
  let unbonded : State :=
    { s with btcDelegations := s.btcDelegations.set req.stakingTxHash (info.delegation.unbond u) }
  have hunb : unbonded.ExpandedUnbonded := hs.unbond hnm rfl
  rcases verifyStakeSpendingTx_ok hact with ⟨d, p, timeInfo, hget, hexp, hinc, rfl⟩ | rfl
  · by_cases heq : prim.txHash tx = req.stakingTxHash
    · -- the expansion itself is named: its activation is overwritten
      refine hunb.of_eq ?_
      rw [btcUndelegate_btcDelegations, includeDelegation_btcDelegations, hkey,
        hk _ _ hget, heq, set_set]
    · have hstore : ((s.includeDelegation prim env d p timeInfo).btcUndelegate prim env
          info.delegation u).btcDelegations = unbonded.btcDelegations.set (prim.txHash tx)
            { d with startHeight := timeInfo.startHeight, endHeight := timeInfo.endHeight } := by
        rw [btcUndelegate_btcDelegations, includeDelegation_btcDelegations, hkey,
          hk _ _ hget, set_comm _ heq]
      have hget' : unbonded.btcDelegations.get (prim.txHash tx) = some d := by
        rw [get_set_of_ne _ _ heq, hget]
      refine hunb.of_set hstore ?_ ?_
      · intro old hold hearly
        rw [hget'] at hold
        cases hold
        exact hearly
      · intro stkExp hstk _
        have hactivates : s.shouldActivateStkExp (prim.txHash tx) = some d := by
          simp [shouldActivateStkExp, hget, isStakeExpansion, hinc.notUnbonded,
            Option.isSome_iff_ne_none, hexp]
        rcases hreq tx d stkExp htx hactivates hstk with hprev | hprev
        · rw [← hprev]
          exact ⟨_, get_set_self _ _ _, rfl⟩
        · exact hprev.of_set (fun _ _ _ => rfl) rfl
  · refine hunb.of_eq ?_
    rw [btcUndelegate_btcDelegations, hkey]

theorem Change.expandedUnbonded (hk : s.DelegationsKeyed prim)
    (hreq : ∀ req, requests s (.btcUndelegate req) → s.UnbondsExpanded prim req)
    (h : Change prim env requests s t) : t.ExpandedUnbonded := by
  cases h with
  | create fresh hexp | expand fresh hexp expands =>
    exact hs.insert fresh insertDelegation_btcDelegations
  | @prove hash d p timeInfo stored hexp includable =>
    refine hs.of_set includeDelegation_btcDelegations ?_ ?_
    · intro old hold hearly
      rw [hk hash d stored, stored] at hold
      cases hold
      exact hearly
    · intro stkExp hstk
      exact absurd (hexp.symm.trans hstk) (by simp)
  | sign request stored notUnbonded notExpired =>
    exact hs.sign hk (getBTCDelWithParams_resolves stored).stored addCovenantSigs_btcDelegations
  | undelegate request h =>
    exact msgBTCUndelegate_expandedUnbonded hs hk (hreq _ request) h
  | registry h => exact hs.of_eq h.btcDelegations

end

end Babylon.BTCStaking
