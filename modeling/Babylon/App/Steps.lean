/-
  The steps of the chain, inverted: what a step has checked and which handler
  produced the next state.
-/
import Babylon.App.Chain
import Babylon.BTCStaking.Quorum
import Babylon.Finality.Rewarding

set_option autoImplicit false

namespace Babylon

open Lib Finality BTCStaking Chain BTCStaking.State

variable {I : Type} {cfg : Config I} {c c' : Chain I}
  {w w' : Stores I} {env : Finality.Env} {msg : Msg} {header : HeaderInfo}

namespace Chain

theorem liftStaking_ok {call : Outcome BTCStaking.State} (h : liftStaking w call = .ok w') :
    call = .ok w'.btcStaking ∧ w'.finality = w.finality := by
  simp only [liftStaking, ok_iff] at h
  obtain ⟨bs, hbs, rfl⟩ := h
  exact ⟨hbs, rfl⟩

section

variable (h : handle cfg env w msg = .ok w')

include h

/-- The messages that write the store of `finality`. -/
theorem handle_finality :
    w'.finality = w.finality ∨
      (∃ req, msg = .addFinalitySig req ∧ addFinalitySig cfg.fprim env w req = .ok w') ∨
      (∃ req, msg = .commitPubRandList req ∧
        commitPubRandList cfg.prim env w req = .ok w') ∨
      (∃ req, msg = .updateFinalityParams req ∧ updateParams env w req = .ok w') ∨
      (∃ req, msg = .resumeFinalityProposal req ∧ handleResumeFinalityProposal cfg.ext env w
        req.fpPksHex req.haltingHeight = .ok w') := by
  cases msg with
  | createFinalityProvider req | editFinalityProvider req | createBTCDelegation req
  | btcStakeExpand req | addBTCDelegationInclusionProof req | addCovenantSigs req
  | btcUndelegate req | selectiveSlashingEvidence req | updateStakingParams req =>
    exact .inl (liftStaking_ok h).2
  | addFinalitySig req => exact .inr (.inl ⟨req, rfl, h⟩)
  | commitPubRandList req => exact .inr (.inr (.inl ⟨req, rfl, h⟩))
  | unjailFinalityProvider req => exact .inl (unjailFinalityProvider_stores_ok h).1
  | updateFinalityParams req => exact .inr (.inr (.inr (.inl ⟨req, rfl, h⟩)))
  | resumeFinalityProposal req =>
    exact .inr (.inr (.inr (.inr ⟨req, rfl, resumeFinalityProposal_ok h⟩)))

/-- Of all messages, only a proposal to resume finality writes more than votes, evidence,
commitments and parameters. -/
theorem handle_frame :
    (∃ pubRand votes evidence commits index params, w'.finality = { w.finality with
        pubRand, votes, evidence, params
        pubRandCommit := commits
        pubRandCommitIndex := index } ∧
      (params = w.finality.params ∨
        ∃ req, msg = .updateFinalityParams req ∧ updateParams env w req = .ok w')) ∨
      ∃ req, msg = .resumeFinalityProposal req ∧ handleResumeFinalityProposal cfg.ext env w
        req.fpPksHex req.haltingHeight = .ok w' := by
  rcases handle_finality h with hfin | ⟨req, -, hvote⟩ | ⟨req, -, hcom⟩ | ⟨req, hmsg, hpar⟩ | hrsm
  · exact .inl ⟨_, _, _, _, _, _, hfin, .inl rfl⟩
  · obtain ⟨_, _, _, hfin, -⟩ := addFinalitySig_effect hvote
    exact .inl ⟨_, _, _, _, _, _, hfin, .inl rfl⟩
  · obtain ⟨-, commit, -, hset⟩ := commitPubRandList_ok hcom
    exact .inl ⟨_, _, _, _, _, _, (setPubRandCommit_ok hset).2, .inl rfl⟩
  · have hfin := congrArg Stores.finality (updateParams_stores_ok hpar).2
    exact .inl ⟨_, _, _, _, _, _, hfin, .inr ⟨req, hmsg, hpar⟩⟩
  · exact .inr hrsm

theorem handle_tables :
    w'.finality.votingPower = w.finality.votingPower ∧
        w'.finality.votingPowerDistCache = w.finality.votingPowerDistCache ∨
      ∃ req, msg = .resumeFinalityProposal req ∧ handleResumeFinalityProposal cfg.ext env w
        req.fpPksHex req.haltingHeight = .ok w' := by
  rcases handle_frame h with ⟨_, _, _, _, _, _, hfin, -⟩ | hrsm
  · rw [hfin]
    exact .inl ⟨rfl, rfl⟩
  · exact .inr hrsm

/-- Votes and evidence are written by votes only. -/
theorem handle_votes :
    w'.finality.votes = w.finality.votes ∧ w'.finality.evidence = w.finality.evidence ∨
      ∃ req, msg = .addFinalitySig req ∧ addFinalitySig cfg.fprim env w req = .ok w' := by
  rcases handle_finality h with hfin | hvote | ⟨req, -, hcom⟩ | ⟨req, -, hpar⟩ | ⟨req, -, hrsm⟩
  · rw [hfin]
    exact .inl ⟨rfl, rfl⟩
  · exact .inr hvote
  · obtain ⟨-, commit, -, hset⟩ := commitPubRandList_ok hcom
    rw [(setPubRandCommit_ok hset).2]
    exact .inl ⟨rfl, rfl⟩
  · rw [(updateParams_stores_ok hpar).2]
    exact .inl ⟨rfl, rfl⟩
  · obtain ⟨⟨_, _, _, _, hfin⟩, -⟩ := handleResumeFinalityProposal_effect hrsm
    rw [hfin]
    exact .inl ⟨rfl, rfl⟩

end

section Staking

variable {requests : BTCStaking.State → Request → Prop}

/-- What an accepted vote does to the store of `btcstaking`. -/
theorem changes_of_addFinalitySig {req : MsgAddFinalitySig}
    (h : addFinalitySig cfg.fprim env w req = .ok w') :
    Changes cfg.prim env.toEnv requests w.btcStaking w'.btcStaking := by
  obtain ⟨block, fp, commit, hacc, ⟨-, hfork⟩ | ⟨-, hcanon⟩⟩ := addFinalitySig_ok h
  · rcases (addForkVote_ok hfork).2 with ⟨-, hsame⟩ | hslash
    · rw [hsame]
      exact .refl
    · exact .single (.registry <| .slash hslash)
  · obtain ⟨bs, hrecd, hrest⟩ := addCanonicalVote_ok hcanon
    have hbs : Changes cfg.prim env.toEnv requests w.btcStaking bs := by
      rcases hrecd with rfl | ⟨height, rfl⟩
      · exact .refl
      · exact .single (.registry <| .update hacc.provider rfl rfl rfl)
    rcases hrest with ⟨-, hsame, -⟩ | ⟨evidence, -, hslash, -⟩
    · rw [hsame]
      exact hbs
    · exact hbs.tail (.registry <| .slash hslash)

theorem changes_of_jails {s t : BTCStaking.State} (h : Jails env s t) :
    Changes cfg.prim env.toEnv requests s t := by
  refine Relation.ReflTransGen.mono ?_ _ _ h
  rintro _ _ ⟨pk, hjail⟩
  exact .registry (.jail hjail)

theorem changes_of_endBlocker (h : endBlocker cfg.ext env w = .ok w') :
    Changes cfg.prim env.toEnv (fun _ _ => False) w.btcStaking w'.btcStaking := by
  obtain ⟨_, -, -, hjails⟩ := endBlocker_effect h
  exact changes_of_jails hjails

end Staking

/-- The requests that the handling of a message starts with. -/
def requests (w : Stores I) (msg : Msg) (s : BTCStaking.State) :
    Request → Prop
  | .addCovenantSigs req => s = w.btcStaking ∧ msg = .addCovenantSigs req
  | .btcUndelegate req => s = w.btcStaking ∧ msg = .btcUndelegate req
  | .unjailFinalityProvider pk => ∃ req, msg = .unjailFinalityProvider req ∧ req.fpBtcPk = pk

/-- What a message does to the store of `btcstaking`. -/
theorem handle_staking (h : handle cfg env w msg = .ok w') :
    Changes cfg.prim env.toEnv (requests w msg) w.btcStaking w'.btcStaking := by
  cases msg with
  | createFinalityProvider req =>
    exact .single (.registry <| .create (liftStaking_ok h).1)
  | editFinalityProvider req => exact .single (.registry <| .edit (liftStaking_ok h).1)
  | createBTCDelegation req => exact .single (.createDelegation (liftStaking_ok h).1)
  | btcStakeExpand req => exact .single (.expandStake (liftStaking_ok h).1)
  | addBTCDelegationInclusionProof req => exact .single (.addInclusionProof (liftStaking_ok h).1)
  | addCovenantSigs req => exact .single (.addCovenantSigs ⟨rfl, rfl⟩ (liftStaking_ok h).1)
  | btcUndelegate req => exact .single (.undelegate ⟨rfl, rfl⟩ (liftStaking_ok h).1)
  | selectiveSlashingEvidence req =>
    exact .single (.registry <| .slashSelectively (liftStaking_ok h).1)
  | updateStakingParams req =>
    exact .single (.registry <| .updateParams (liftStaking_ok h).1)
  | addFinalitySig req => exact changes_of_addFinalitySig h
  | commitPubRandList req =>
    rw [(commitPubRandList_ok h).1]
  | unjailFinalityProvider req =>
    exact .single (.registry <| .unjail (fun _ => ⟨req, rfl, rfl⟩)
      (unjailFinalityProvider_stores_ok h).2)
  | updateFinalityParams req =>
    obtain ⟨-, rfl⟩ := updateParams_stores_ok h
    exact Relation.ReflTransGen.refl
  | resumeFinalityProposal req =>
    exact changes_of_jails (handleResumeFinalityProposal_effect (resumeFinalityProposal_ok h)).2

/-- The view of a block that is about to begin. -/
def beginEnv (c : Chain I) (cfg : Config I) (header : HeaderInfo) : Finality.Env :=
  { c with header, inBlock := true }.env cfg

/-- The stores after the `BeginBlock` of `btcstaking`. -/
def indexedStores (c : Chain I) (cfg : Config I) (header : HeaderInfo) : Stores I :=
  { c.toStores with btcStaking := c.btcStaking.indexBTCHeight (c.beginEnv cfg header).toEnv }

/-- The beginning of a block succeeds and leaves the stores `w`. -/
abbrev Begins (c : Chain I) (cfg : Config I) (header : HeaderInfo) (w : Stores I) : Prop :=
  updatePowerDist cfg.ext (c.beginEnv cfg header) (c.indexedStores cfg header) = .ok w

/-- A message succeeds and leaves the stores `w`. -/
abbrev Handles (c : Chain I) (cfg : Config I) (msg : Msg) (w : Stores I) : Prop :=
  handle cfg (c.env cfg) c.toStores msg = .ok w

/-- The end of a block succeeds and leaves the stores `w`. -/
abbrev Ends (c : Chain I) (cfg : Config I) (w : Stores I) : Prop :=
  endBlocker cfg.ext (c.env cfg) c.toStores = .ok w

section

variable (h : c.Begins cfg header w)

include h

/-- What the beginning of a block does to the store of `btcstaking`. -/
theorem updatePowerDist_btcStaking :
    w.btcStaking = { c.btcStaking with
      btcHeights := c.btcStaking.btcHeights.set header.height c.lc.tipHeight
      powerDistUpdateEvents := (eventWindow (c.beginEnv cfg header)
        (c.indexedStores cfg header).btcStaking).foldl KVStore.delete
          c.btcStaking.powerDistUpdateEvents } := by
  obtain ⟨_, _, -, -, hbs⟩ := updatePowerDist_ok h
  rw [hbs, foldl_clearPowerDistUpdateEvents]
  rfl

theorem updatePowerDist_providers :
    w.btcStaking.finalityProviders = c.btcStaking.finalityProviders := by
  rw [updatePowerDist_btcStaking h]

end

theorem step_beginBlock (h : (chain cfg).step c (.beginBlock header) = some c') :
    ∃ w, c.inBlock = false ∧ header.height = c.header.height + 1 ∧
      c.Begins cfg header w ∧
      c' = { c with toStores := w, header, inBlock := true } := by
  replace h : c.step cfg (.beginBlock header) = some c' := h
  simp only [Chain.step] at h
  split at h
  case isTrue hguard =>
    simp only [toOption_eq_some_iff, Chain.beginBlock, ok_iff] at h
    obtain ⟨w, hw, rfl⟩ := h
    exact ⟨w, hguard.1, hguard.2, hw, rfl⟩
  case isFalse => cases h

theorem step_endBlock (h : (chain cfg).step c .endBlock = some c') :
    ∃ w, c.inBlock = true ∧ c.Ends cfg w ∧
      c' = { c with toStores := w, inBlock := false } := by
  replace h : c.step cfg .endBlock = some c' := h
  simp only [Chain.step] at h
  split at h
  case isTrue hin =>
    simp only [toOption_eq_some_iff, Chain.endBlock, ok_iff] at h
    obtain ⟨w, hw, rfl⟩ := h
    exact ⟨w, hin, hw, rfl⟩
  case isFalse => cases h

/-- What a step of each kind does. -/
inductive Stepped (cfg : Config I) (c : Chain I) : Label I → Chain I → Prop
  | beginBlock {header : HeaderInfo} {w : Stores I} (hin : c.inBlock = false)
      (hht : header.height = c.header.height + 1)
      (hw : c.Begins cfg header w) :
      Stepped cfg c (.beginBlock header) { c with toStores := w, header, inBlock := true }
  | message {msg : Msg} {w : Stores I} (hin : c.inBlock = true)
      (hw : c.Handles cfg msg w) :
      Stepped cfg c (.deliver msg) { c with toStores := w }
  | rejected {msg : Msg} (hin : c.inBlock = true) : Stepped cfg c (.deliver msg) c
  | headers {lc : BTCLightClient} (hbase : lc.baseHeight = c.lc.baseHeight) :
      Stepped cfg c (.insertHeaders lc) { c with lc }
  | others {others : OtherModules} : Stepped cfg c (.updateOthers others) { c with others }
  | external {external : I} : Stepped cfg c (.updateExternal external) { c with external }
  | endBlock {w : Stores I} (hin : c.inBlock = true)
      (hw : c.Ends cfg w) :
      Stepped cfg c .endBlock { c with toStores := w, inBlock := false }

theorem stepped {l : Label I} (h : (chain cfg).step c l = some c') : Stepped cfg c l c' := by
  replace h : c.step cfg l = some c' := h
  cases l with
  | beginBlock header =>
    obtain ⟨w, hin, hht, hw, rfl⟩ := step_beginBlock h
    exact .beginBlock hin hht hw
  | deliver msg =>
    simp only [Chain.step] at h
    split at h
    case isTrue hin =>
      cases h
      unfold deliver
      split
      case h_1 w hw => exact .message hin hw
      case h_2 => exact .rejected hin
    case isFalse => cases h
  | insertHeaders lc =>
    simp only [Chain.step] at h
    split at h
    case isTrue hbase =>
      cases h
      exact .headers hbase
    case isFalse => cases h
  | updateOthers others =>
    cases h
    exact .others
  | updateExternal external =>
    cases h
    exact .external
  | endBlock =>
    obtain ⟨w, hin, hw, rfl⟩ := step_endBlock h
    exact .endBlock hin hw

end Chain

/-- A chain starts with the parameters of `btcstaking` and nothing else. -/
theorem Genesis.btcStaking_eq (h : Genesis cfg c) :
    ∃ params pairs allowed deleted, c.btcStaking =
        { blank allowed deleted with params, heightToVersionMap := pairs } ∧
      ∀ version p, params.get version = some p → ∃ u, p.validate cfg.prim = .ok u := by
  obtain ⟨allowed, deleted, versions, -, hfold⟩ := h.staking
  let Shape : BTCStaking.State → Prop := fun s =>
    ∃ params pairs allowed deleted, s =
        { blank allowed deleted with params, heightToVersionMap := pairs } ∧
      ∀ version p, params.get version = some p → ∃ u, p.validate cfg.prim = .ok u
  have hblank : Shape (blank allowed deleted) :=
    ⟨KVStore.empty, [], allowed, deleted, rfl, fun _ _ hget => by cases hget⟩
  refine foldOutcome_preserves Shape ?_ hblank hfold
  rintro _ p t _ ⟨params, pairs, allowed, deleted, rfl, hvalid⟩ ht
  obtain ⟨hval, pairs', rfl⟩ := setParams_ok ht
  exact ⟨_, pairs', allowed, deleted, rfl, KVStore.forall_set hvalid hval⟩

theorem Genesis.wellFormed (h : Genesis cfg c) : c.btcStaking.WellFormed cfg.prim := by
  obtain ⟨params, pairs, allowed, deleted, hbs, hvalid⟩ := h.btcStaking_eq
  rw [hbs]
  refine ⟨?_, ?_, ?_, hvalid, ⟨fun _ => 0, ?_⟩⟩
  · intro pk fp hget
    cases hget
  · intro hash d hget
    cases hget
  · intro hash d hget
    cases hget
  · intro hash d hget
    cases hget

variable {history : History I}

/-- There is no block at height 0. -/
theorem Chain.height_pos_of_run (run : Run (chain cfg) history c) (hin : c.inBlock = true) :
    0 < c.header.height := by
  refine run.invariant (fun c => c.inBlock = true → 0 < c.header.height) ?_ ?_ .trivial hin
  · intro c h hin
    rw [h.inBlock] at hin
    cases hin
  · intro c l c' hpos _ hstep
    cases stepped hstep with
    | beginBlock _ hht => exact fun _ => hht ▸ Nat.succ_pos _
    | message | rejected | headers | others | external => exact hpos
    | endBlock => exact nofun

/-- The store of `btcstaking` is well-formed in every reachable state. -/
theorem Chain.wellFormed_of_run (run : Run (chain cfg) history c) :
    c.btcStaking.WellFormed cfg.prim := by
  refine run.invariant (fun c => c.btcStaking.WellFormed cfg.prim) ?_ ?_ .trivial
  · exact fun c => Genesis.wellFormed
  · intro c l c' hs _ hstep
    cases stepped hstep with
    | @beginBlock _ w _ _ hw =>
      rw [updatePowerDist_btcStaking hw]
      exact hs.of_eq rfl rfl rfl
    | message _ hw => exact (handle_staking hw).wellFormed hs
    | rejected | headers | others | external => exact hs
    | endBlock _ hw => exact (changes_of_endBlocker hw).wellFormed hs

/-! ## Parameters -/

/-- A message keeps the parameters of `finality` or sets valid ones. -/
theorem Chain.handle_params (h : handle cfg env w msg = .ok w') :
    w'.finality.params = w.finality.params ∨ ∃ u, w'.finality.params.validate = .ok u := by
  rcases handle_frame h with ⟨_, _, _, _, _, _, hfin, rfl | ⟨req, -, hpar⟩⟩ | ⟨req, -, hrsm⟩
  · rw [hfin]
    exact .inl rfl
  · obtain ⟨hval, rfl⟩ := updateParams_stores_ok hpar
    exact .inr hval
  · obtain ⟨⟨_, _, _, _, hfin⟩, -⟩ := handleResumeFinalityProposal_effect hrsm
    rw [hfin]
    exact .inl rfl

/-- The parameters of `finality` are valid in every reachable state. -/
theorem validParams_of_run (run : Run (chain cfg) history c) :
    ∃ u, c.finality.params.validate = .ok u := by
  refine run.invariant (fun c => ∃ u, c.finality.params.validate = .ok u) ?_ ?_ .trivial
  · intro c h
    obtain ⟨params, hval, hfin⟩ := h.finality
    rw [hfin]
    exact hval
  · intro c l c' hc _ hstep
    cases stepped hstep with
    | @beginBlock _ w _ _ hw =>
      obtain ⟨⟨_, _, _, _, hfin⟩, -⟩ := updatePowerDist_power hw
      rw [hfin]
      exact hc
    | @message _ w _ hw =>
      rcases handle_params hw with hsame | hval
      · show ∃ u, w.finality.params.validate = .ok u
        rw [hsame]
        exact hc
      · exact hval
    | rejected | headers | others | external => exact hc
    | @endBlock w _ hw =>
      rw [(endBlocker_keeps hw).1]
      exact hc

end Babylon
