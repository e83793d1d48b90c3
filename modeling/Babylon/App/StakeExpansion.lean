/-
  Stake expansions over whole runs: when an expansion is included on Bitcoin, is
  the delegation it replaces unbonded?

  `BTCUndelegate` activates a stored expansion whichever of its inputs the request
  names.  `BtcStakeExpand` refuses an expansion whose funding output is a staking
  output, but a delegation for the funding transaction can be registered later.
-/
import Babylon.App.Steps
import Babylon.BTCStaking.Delegations
import Babylon.App.Devnet

set_option autoImplicit false

namespace Babylon

open Lib BTCStaking Devnet

variable {I : Type} {cfg : Config I} {c : Chain I}

/-- An accepted request that activates a stake expansion names the delegation that the
expansion replaces, or finds it unbonded already. -/
def UnbondsExpanded (cfg : Config I) (c : Chain I) : Label I → Prop
  | .deliver (.btcUndelegate req) =>
    succeeds (c.btcStaking.msgBTCUndelegate cfg.prim (c.env cfg).toEnv req) = true →
      c.btcStaking.UnbondsExpanded cfg.prim req
  | _ => True

theorem ExpandedUnbonded.changes {s t : BTCStaking.State} {env : BTCStaking.Env}
    {requests : BTCStaking.State → Request → Prop} (hs : s.WellFormed cfg.prim)
    (hunb : s.ExpandedUnbonded)
    (hreq : ∀ s req, requests s (.btcUndelegate req) → s.UnbondsExpanded cfg.prim req)
    (h : Changes cfg.prim env requests s t) : t.ExpandedUnbonded := by
  induction h with
  | refl => exact hunb
  | tail hchgs hchg ih =>
    exact hchg.expandedUnbonded ih (Changes.wellFormed hs hchgs).keyed (hreq _)

theorem expandedUnbonded_of_run {history : History I}
    (run : Run (chain cfg) history c) (hsteps : Steps (UnbondsExpanded cfg) history) :
    c.btcStaking.ExpandedUnbonded := by
  refine run.historyInvariant (fun _ c => c.btcStaking.ExpandedUnbonded) ?_ ?_ hsteps
  · intro c hgen
    obtain ⟨_, _, _, _, hbs, -⟩ := hgen.btcStaking_eq
    rw [hbs]
    intro hash d stkExp hget
    cases hget
  · intro _ c l c' run hunb hal hstep
    have hs := Chain.wellFormed_of_run run
    cases Chain.stepped hstep with
    | @beginBlock _ w _ _ hw =>
      rw [Chain.updatePowerDist_btcStaking hw]
      exact hunb.of_eq rfl
    | message _ hw =>
      refine ExpandedUnbonded.changes hs hunb ?_ (Chain.handle_staking hw)
      rintro _ req ⟨rfl, rfl⟩
      exact hal (succeeds_iff.mpr ⟨_, (Chain.liftStaking_ok hw).1⟩)
    | rejected | headers | others | external => exact hunb
    | endBlock _ hw =>
      exact ExpandedUnbonded.changes hs hunb (fun _ _ hfalse => hfalse.elim)
        (Chain.changes_of_endBlocker hw)

/-- In a run in which stake expansions are activated by unbonding the delegation they
replace, the same bitcoins are never counted for both: the delegation that an included
expansion replaces is unbonded. -/
theorem expanded_delegation_unbonded {history : History I}
    (run : Run (chain cfg) history c) (hsteps : Steps (UnbondsExpanded cfg) history)
    {hash : ChainHash} {d : BTCDelegation} {stkExp : StakeExpansion}
    (hget : c.btcStaking.btcDelegations.get hash = some d) (hexp : d.stkExp = some stkExp)
    (hincluded : d.hasInclusionProof = true) :
    ∃ previous, c.btcStaking.btcDelegations.get stkExp.previousStakingTxHash = some previous ∧
      previous.isUnbondedEarly = true :=
  expandedUnbonded_of_run run hsteps hash d stkExp hget hexp hincluded

/-! ## An expansion whose funding transaction is registered later -/

/-- A staking transaction with 100 sats. -/
def expandedTx : MsgTx := stakingTx 1 100

/-- A staking transaction with 50 sats, which funds an expansion of the first. -/
def fundingTx : MsgTx := stakingTx 2 50

/-- The expansion, to 120 sats. -/
def expandingTx : MsgTx := expansionTx expandedTx fundingTx 120

/-- The Bitcoin chain before the expansion. -/
def expandedLightClient : BTCLightClient :=
  lightClient 10 [(blockRoot expandedTx, 5), (blockRoot fundingTx, 5)]

/-- The Bitcoin chain with the expansion. -/
def expandingLightClient : BTCLightClient :=
  lightClient 11 [(blockRoot expandedTx, 5), (blockRoot fundingTx, 5), (blockRoot expandingTx, 10)]

/-- The expansion is registered before the delegation of its funding transaction, and one of
the two is named when the expansion is on Bitcoin. -/
def expandThenFund (named : MsgTx) : List (Label Unit) :=
  .beginBlock (Devnet.header 1) :: registerFp 0 ++ delegate 0 expandedTx 100 ++
    [btcStakeExpand 0 expandedTx fundingTx 120, createBTCDelegation 0 fundingTx 50,
      addCovenantSigs expandingTx (some []), .insertHeaders expandingLightClient,
      btcUndelegate named expandingTx]

/-- A request that activates an expansion names the delegation it replaces. -/
def namesExpanded (c : Chain Unit) : Label Unit → Bool
  | .deliver (.btcUndelegate req) =>
    (((req.stakeSpendingTx.bind fun tx =>
        c.btcStaking.shouldActivateStkExp (config.prim.txHash tx)).bind
      (·.stkExp))).all fun stkExp => decide (req.stakingTxHash = stkExp.previousStakingTxHash)
  | _ => true

theorem unbondsExpanded_of_namesExpanded {c : Chain Unit} {l : Label Unit}
    (h : namesExpanded c l = true) : UnbondsExpanded config c l := by
  unfold UnbondsExpanded
  split
  case h_1 req =>
    intro _ tx d stkExp htx hactivates hexp
    simp only [namesExpanded, htx, Option.bind_some, hactivates, hexp, Option.all_some,
      decide_eq_true_eq] at h
    exact .inl h
  case h_2 => trivial

/-- The request names the delegation that the expansion replaces, which is unbonded. -/
theorem expanded_delegation_unbonded_by_name :
    ∃ history c d stkExp, Run (chain config) history c ∧ Steps (UnbondsExpanded config) history ∧
      c.btcStaking.btcDelegations.get (config.prim.txHash expandingTx) = some d ∧
      d.stkExp = some stkExp ∧ d.hasInclusionProof = true ∧
      ∃ previous, c.btcStaking.btcDelegations.get stkExp.previousStakingTxHash = some previous ∧
        previous.isUnbondedEarly = true := by
  obtain ⟨history, c, run, hsteps, d, hd, stkExp, hexp, hincluded⟩ := of_labels
    (Q := fun c l => namesExpanded c l = true)
    (P := fun c => ∃ d, c.btcStaking.btcDelegations.get (config.prim.txHash expandingTx)
        = some d ∧ ∃ stkExp, d.stkExp = some stkExp ∧ d.hasInclusionProof = true)
    (finalityParams 10 3 1) expandedLightClient (expandThenFund expandedTx)
    (by decide +kernel)
  have hsteps' := hsteps.mono fun _ _ => unbondsExpanded_of_namesExpanded
  exact ⟨history, c, d, stkExp, run, hsteps', hd, hexp, hincluded,
    expanded_delegation_unbonded run hsteps' hd hexp hincluded⟩

/-- The request names the delegation of the funding transaction.  The expansion is included
and the delegation it replaces stays bonded. -/
theorem expanded_delegation_bonded_by_funding :
    ∃ history c d stkExp previous, Run (chain config) history c ∧
      c.btcStaking.btcDelegations.get (config.prim.txHash expandingTx) = some d ∧
      d.stkExp = some stkExp ∧ d.hasInclusionProof = true ∧
      c.btcStaking.btcDelegations.get stkExp.previousStakingTxHash = some previous ∧
      previous.isUnbondedEarly = false := by
  simp only [exists_and_left]
  exact reaching (finalityParams 10 3 1) expandedLightClient (expandThenFund fundingTx)
    (by decide +kernel)

end Babylon
