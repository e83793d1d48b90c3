/-
  The ledger of voting power.

  Every block processes the events that `btcstaking` has queued since the block
  before.  If the BTC tip never moves down, each delegation is added at most once
  and subtracted at most once, after it was added.  `UpdatePowerDist` then never
  runs into an amount below zero or an unknown provider.  Right after it, the sats
  of a provider are those of its active delegations, unless a covenant quorum came
  after the delegation had expired.
-/
import Babylon.App.PowerTables
import Babylon.Finality.CachedSats
import Babylon.Finality.Rewarding

set_option autoImplicit false

namespace Babylon

open Lib KVStore Finality BTCStaking Devnet Chain VotingPowerDistCache BTCStaking.State

namespace Finality

/-! ## `UpdatePowerDist` on a funded cache -/

section Update

variable {I : Type} {ext : External I} {env : Env} {w w' : Stores I}

/-- The failure comes from a hook of another module. -/
def OfHook (fault : Fault) : Prop := ∃ text, fault = .hookFailed text

theorem processBtcDelHook_failsOnly
    {hook : I → AccAddress → AccAddress → Bool → Bool → Nat → Option I} {bs : BTCStaking.State}
    {state : ProcessingState} {activeFps : List BIP340PubKey} (external : I) {del : DelegationInfo}
    (hfp : ∃ fp, bs.finalityProviders.get del.fpBtcPk = some fp) :
    FailsOnly OfHook (processBtcDelHook hook bs state activeFps external del) := by
  obtain ⟨fp, hfp⟩ := hfp
  have hget : (bs.getFinalityProvider del.fpBtcPk).orPanic "failed to load fp %s: %w" = .ok fp := by
    rw [Outcome.orPanic_ok_iff, getFinalityProvider, orThrow_ok_iff, hfp]
  unfold processBtcDelHook
  rw [hget, ok_bind]
  exact .orThrow fun _ => ⟨_, rfl⟩

variable {prim : BtcPrimitives} {strict : Prop} {added subtracted : ChainHash → Nat}
  (hledger : Ledger prim strict
    (w.btcStaking.getBTCHeightAtBabylonHeight env.lc (env.header.height - 1)) env.lc.tipHeight
    added subtracted w.btcStaking)
  (hfunded : Funded w.btcStaking added subtracted (previousCache env w.finality))

include hledger hfunded

/-- Only a hook can make `UpdatePowerDist` fail. -/
theorem updatePowerDist_failsOnly : FailsOnly OfHook (updatePowerDist ext env w) := by
  obtain ⟨ps, hps⟩ : ∃ ps, processAllEvents _ (previousCache env w.finality) _ _ = .ok ps :=
    exists_processAllEvents hledger.wellFormed fun event hmem => stored_of_mem_eventsIn hledger hmem
  have hproc := processed_of_processAllEvents hps
  have hpr := (processAllPowerDistUpdateEvents_ok_iff hfunded.nodup).mpr
    ⟨ps, hps, hfunded.applicable hledger hproc, rfl, rfl⟩
  unfold previousCache at hpr
  unfold updatePowerDist
  simp only [hpr, ok_bind]
  refine .bind (.bind (.foldOutcome (fun x del hdel => ?_) _) fun _ _ =>
    .bind (.foldOutcome (fun x del hdel => ?_) _) fun _ _ => .ok _) fun _ _ =>
    .bind (handleFPStateUpdates_failsOnly (fun text => ⟨text, rfl⟩) nofun _ _ _ _) fun _ _ => .ok _
  · exact processBtcDelHook_failsOnly x
      (provider_of_reported hledger hproc (List.mem_append_left _ hdel))
  · exact processBtcDelHook_failsOnly x
      (provider_of_reported hledger hproc (List.mem_append_right _ hdel))

/-- The cache that `UpdatePowerDist` records is funded by the counts after the events. -/
theorem updatePowerDist_funded (h : updatePowerDist ext env w = .ok w') :
    ∃ dc, w'.finality.votingPowerDistCache.get env.header.height = some dc ∧
      Funded w'.btcStaking
        (fun hash => added hash + (w.btcStaking.eventsIn (eventWindow env w.btcStaking)).count
          (.btcDelStateUpdate hash .active))
        (fun hash => subtracted hash + w.btcStaking.removals
          (w.btcStaking.eventsIn (eventWindow env w.btcStaking)) hash) dc := by
  obtain ⟨newDc, state, hpr, ⟨tracker, bitmap, hfin⟩, hbs⟩ := updatePowerDist_ok h
  obtain ⟨ps, hps, -, rfl, -⟩ := (processAllPowerDistUpdateEvents_ok_iff hfunded.nodup).mp hpr
  have hproc := processed_of_processAllEvents hps
  rw [State.recordVotingPowerAndCache_fst] at hfin
  rw [foldl_clearPowerDistUpdateEvents] at hbs
  refine ⟨_, by rw [hfin]; exact get_set_self _ _ _, ?_⟩
  have hdels : w'.btcStaking.btcDelegations = w.btcStaking.btcDelegations := by rw [hbs]
  have hprov : w'.btcStaking.finalityProviders = w.btcStaking.finalityProviders := by rw [hbs]
  exact hfunded.next hledger hproc hdels hprov
    applyActive_perm (fun _ => rfl) (fun _ => rfl) fun _ => rfl

end Update

end Finality

/-! ## The ledger of a run -/

variable {I : Type} {cfg : Config I} {c : Chain I} {strict : Prop}
  {added subtracted : ChainHash → Nat}

namespace Chain

/-- The BTC height up to which events have been processed. -/
def processedHeight (c : Chain I) : Nat :=
  c.btcStaking.getBTCHeightAtBabylonHeight c.lc c.header.height

/-- The events that the next block processes. -/
def dueEvents (c : Chain I) : List EventPowerDistUpdate :=
  c.btcStaking.eventsIn (btcHeightRange c.processedHeight c.lc.tipHeight)

/-- The distribution cache of the current height. -/
def currentCache (c : Chain I) : VotingPowerDistCache :=
  (c.finality.getVotingPowerDistCache c.header.height).getD new

end Chain

/-! A chain starts without events and with an empty cache. -/

theorem Genesis.processedHeight (h : Genesis cfg c) : c.processedHeight = c.lc.baseHeight := by
  obtain ⟨_, _, _, _, hbs, -⟩ := h.btcStaking_eq
  rw [Chain.processedHeight, hbs]
  rfl

theorem Genesis.eventsAt (h : Genesis cfg c) (height : Nat) :
    c.btcStaking.eventsAt height = [] := by
  obtain ⟨_, _, _, _, hbs, -⟩ := h.btcStaking_eq
  rw [hbs]
  rfl

theorem Genesis.currentCache (h : Genesis cfg c) : c.currentCache = .new := by
  obtain ⟨_, -, hfin⟩ := h.finality
  rw [Chain.currentCache, hfin]
  rfl

/-- How often the sats of a delegation have been added to its provider. -/
def additions : History I → ChainHash → Nat
  | [], _ => 0
  | (c, .beginBlock _) :: rest, hash =>
    additions rest hash + c.dueEvents.count (.btcDelStateUpdate hash .active)
  | _ :: rest, hash => additions rest hash

/-- How often the sats of a delegation have been subtracted from its provider. -/
def subtractions : History I → ChainHash → Nat
  | [], _ => 0
  | (c, .beginBlock _) :: rest, hash =>
    subtractions rest hash + c.btcStaking.removals c.dueEvents hash
  | _ :: rest, hash => subtractions rest hash

/-- The tip of the BTC light client does not move down. -/
def TipNeverDecreases (c : Chain I) : Label I → Prop
  | .insertHeaders lc => c.lc.tipHeight ≤ lc.tipHeight
  | _ => True

/-- No accepted signatures of a covenant member complete the quorum of a delegation that is
on Bitcoin and has expired at the indexed BTC height. -/
def TimelyQuorums (cfg : Config I) (c : Chain I) : Label I → Prop
  | .deliver (.addCovenantSigs req) =>
    (∃ w, handle cfg (c.env cfg) c.toStores (.addCovenantSigs req) = .ok w) →
      c.btcStaking.TimelyQuorum c.processedHeight req
  | _ => True

/-- The ledger of the chain with the counts so far. -/
structure LedgerInv (cfg : Config I) (strict : Prop) (added subtracted : ChainHash → Nat)
    (c : Chain I) : Prop where
  ledger : Ledger cfg.prim strict c.processedHeight c.lc.tipHeight added subtracted c.btcStaking
  funded : Funded c.btcStaking added subtracted c.currentCache

theorem ledgerInv_genesis (h : Genesis cfg c) :
    LedgerInv cfg strict (fun _ => 0) (fun _ => 0) c := by
  obtain ⟨params, pairs, allowed, deleted, hbs, -⟩ := h.btcStaking_eq
  refine ⟨⟨h.wellFormed, ?_, fun _ _ => ⟨rfl, rfl⟩, ?_, ?_⟩, ?_⟩
  · intro hash d hget
    rw [hbs] at hget
    cases hget
  · intro height event hmem
    rw [h.eventsAt] at hmem
    cases hmem
  · rw [h.processedHeight]
    exact c.lc.base_le_tip
  · rw [h.currentCache]
    refine ⟨List.nodup_nil, ?_, ?_, ?_⟩
    · intro pk _
      simp [movedSats, satsIn, new, withFinalityProviders, hbs, blank]
    · intro info hinfo
      cases hinfo
    · intro info hinfo
      cases hinfo

/-- The end of a block keeps the cache of its height: rewarding looks only at heights that
are older by the positive `FinalitySigTimeout`. -/
theorem endBlocker_currentCache (hpar : ∃ u, c.finality.params.validate = .ok u) {w : Stores I}
    (h : c.Ends cfg w) : w.finality.votingPowerDistCache.get c.header.height
      = c.finality.votingPowerDistCache.get c.header.height := by
  obtain ⟨_, hval⟩ := hpar
  have hto := (Finality.Params.pos_of_validate hval).1
  obtain ⟨tallied, htald, hcases⟩ := endBlocker_ok_iff.mp h
  obtain ⟨_, _, rfl⟩ := htald.tallyOnly
  rcases hcases with ⟨-, rfl⟩ | ⟨target, v, hexm, hlive, hrwd⟩
  · rfl
  · obtain ⟨⟨_, _, hv⟩, -⟩ := handleLiveness_ok hlive
    have hlt : target < c.header.height := by
      obtain ⟨⟨-, hge⟩, heq⟩ := Option.ite_none_right_eq_some.mp hexm
      replace heq : ((c.header.height : Int) - c.finality.params.finalitySigTimeout).toNat
          = target := Option.some.inj heq
      replace hge : 1 ≤ (c.header.height : Int) - c.finality.params.finalitySigTimeout := hge
      omega
    obtain ⟨_, -, -, _, -, rfl⟩ := handleRewarding_iff.mp hrwd
    rw [get_foldl_delete,
      if_neg fun hmem => absurd (State.due_bounds hmem).2 (Nat.not_le.mpr hlt), hv]

variable {requests : BTCStaking.State → Request → Prop} {w : Stores I}

theorem Chain.processedHeight_of_changes {env : BTCStaking.Env} (inBlock : Bool)
    (h : Changes cfg.prim env requests c.btcStaking w.btcStaking) :
    Chain.processedHeight { c with toStores := w, inBlock } = c.processedHeight := by
  simp only [Chain.processedHeight, getBTCHeightAtBabylonHeight, h.btcHeights]

theorem Chain.processedHeight_headers {lc : BTCLightClient}
    (hbase : lc.baseHeight = c.lc.baseHeight) :
    Chain.processedHeight { c with lc } = c.processedHeight := by
  simp only [Chain.processedHeight, getBTCHeightAtBabylonHeight, hbase]

section

variable (inv : LedgerInv cfg strict added subtracted c) (hacy : cfg.prim.Acyclic)
  (hpos : 0 < c.header.height)

include inv hacy hpos

/-- What a step that keeps heights does to the ledger, given what it does to the current
cache. -/
theorem LedgerInv.of_changes (inBlock : Bool)
    (hreq : strict → ∀ x req, requests x (.addCovenantSigs req) →
      x.TimelyQuorum c.processedHeight req)
    (hch : Changes cfg.prim (c.env cfg).toEnv requests c.btcStaking w.btcStaking)
    (hcache : Funded c.btcStaking added subtracted
      ((w.finality.getVotingPowerDistCache c.header.height).getD .new)) :
    LedgerInv cfg strict added subtracted { c with toStores := w, inBlock } := by
  suffices hkept : Ledger cfg.prim strict c.processedHeight c.lc.tipHeight added subtracted
      w.btcStaking ∧ Funded w.btcStaking added subtracted
        ((w.finality.getVotingPowerDistCache c.header.height).getD .new) by
    refine ⟨?_, hkept.2⟩
    rw [Chain.processedHeight_of_changes inBlock hch]
    exact hkept.1
  generalize w.btcStaking = t at hch ⊢
  induction hch with
  | refl => exact ⟨inv.ledger, hcache⟩
  | tail _ hchg ih =>
    exact ⟨ih.1.change hacy hpos (fun hstrict => hreq hstrict _) hchg, ih.2.change ih.1 hchg⟩

theorem LedgerInv.message
    (hpow : PowerInv c) {msg : Msg}
    (htm : strict → TimelyQuorums cfg c (.deliver msg)) (h : c.Handles cfg msg w) :
    LedgerInv cfg strict added subtracted { c with toStores := w } := by
  refine inv.of_changes hacy hpos c.inBlock ?_ (handle_staking h) ?_
  · intro hstrict x req hreq
    obtain ⟨rfl, rfl⟩ := hreq
    exact htm hstrict ⟨w, h⟩
  · rcases handle_tables h with ⟨-, hcaches⟩ | ⟨req, rfl, hrsm⟩
    · rw [Finality.State.getVotingPowerDistCache, hcaches]
      exact inv.funded
    · rcases hpow.rewritesOrKeeps hrsm c.header.height with hkeeps | ⟨dc, hrw⟩
      · rw [hkeeps.getVotingPowerDistCache]
        exact inv.funded
      · -- the rewritten cache is the old one with other labels
        have hold : c.currentCache = dc := by
          rw [Chain.currentCache, hrw.cached]
          rfl
        have hget := Finality.State.get_of_getVotingPowerDistCache hrw.cached
        rw [hrw.getVotingPowerDistCache (hpow.caches _ _ hget), Option.getD_some]
        have hfunded := inv.funded
        rw [hold] at hfunded
        refine hfunded.relabel applyActive_perm (jailInCache_btcPk req.fpPksHex) ?_ ?_
        · intro fp
          unfold jailInCache
          split <;> rfl
        · intro fp
          unfold jailInCache
          split <;> rfl

theorem LedgerInv.endBlock
    (hpar : ∃ u, c.finality.params.validate = .ok u) (h : c.Ends cfg w) :
    LedgerInv cfg strict added subtracted { c with toStores := w, inBlock := false } := by
  have hch := changes_of_endBlocker h
  refine inv.of_changes hacy hpos false (fun _ _ _ hnone => hnone.elim) hch ?_
  have hcache := endBlocker_currentCache hpar h
  rw [Finality.State.getVotingPowerDistCache, hcache]
  exact inv.funded

end

/-! ## Blocks -/

variable {header : HeaderInfo}

/-- A block that begins has processed the events up to the tip. -/
theorem Chain.processedHeight_beginBlock (h : c.Begins cfg header w) :
    Chain.processedHeight { c with toStores := w, header, inBlock := true } = c.lc.tipHeight := by
  show (w.btcStaking.btcHeights.get header.height).getD _ = _
  rw [updatePowerDist_btcStaking h, get_set_self, Option.getD_some]

theorem Chain.currentCache_beginBlock {dc : VotingPowerDistCache}
    (hdc : w.finality.votingPowerDistCache.get header.height = some dc) :
    Chain.currentCache { c with toStores := w, header, inBlock := true } = dc := by
  show ((w.finality.votingPowerDistCache.get header.height).filter _).getD _ = dc
  rw [hdc]
  by_cases hnew : dc = new <;> simp [Option.filter, hnew]

section Beginning

variable (hheight : header.height = c.header.height + 1)

include hheight

theorem Chain.previousCache_beginEnv :
    previousCache (c.beginEnv cfg header) (c.indexedStores cfg header).finality
      = c.currentCache := by
  have hprev : (c.beginEnv cfg header).header.height - 1 = c.header.height := by
    show header.height - 1 = _
    omega
  rw [previousCache, hprev]
  rfl

theorem Chain.processed_beginEnv :
    (c.indexedStores cfg header).btcStaking.getBTCHeightAtBabylonHeight (c.beginEnv cfg header).lc
      ((c.beginEnv cfg header).header.height - 1) = c.processedHeight := by
  have hprev : (c.beginEnv cfg header).header.height - 1 = c.header.height := by
    show header.height - 1 = _
    omega
  have hne : c.header.height ≠ header.height := by omega
  rw [hprev]
  show ((c.btcStaking.btcHeights.set header.height c.lc.tipHeight).get c.header.height).getD _ = _
  rw [get_set_of_ne _ _ hne]
  rfl

theorem Chain.eventWindow_beginEnv :
    eventWindow (c.beginEnv cfg header) (c.indexedStores cfg header).btcStaking
      = btcHeightRange c.processedHeight c.lc.tipHeight := by
  rw [eventWindow, processed_beginEnv hheight]
  rfl

variable (inv : LedgerInv cfg strict added subtracted c)

include inv

/-- The ledger as `UpdatePowerDist` finds it. -/
theorem LedgerInv.indexed : Ledger cfg.prim strict
    ((c.indexedStores cfg header).btcStaking.getBTCHeightAtBabylonHeight (c.beginEnv cfg header).lc
      ((c.beginEnv cfg header).header.height - 1)) (c.beginEnv cfg header).lc.tipHeight
    added subtracted (c.indexedStores cfg header).btcStaking := by
  rw [processed_beginEnv hheight]
  obtain ⟨⟨providers, keyed, settled, valid, ranked⟩, lawful, unseen, located, le⟩ := inv.ledger
  refine ⟨⟨providers, keyed, ?_, valid, ranked⟩, lawful, unseen, located, le⟩
  intro hash d hd
  obtain ⟨hpvd, hpar, hprev⟩ := settled hash d hd
  exact ⟨hpvd, hpar, hprev⟩

theorem LedgerInv.indexed_funded : Funded (c.indexedStores cfg header).btcStaking added
    subtracted (previousCache (c.beginEnv cfg header) (c.indexedStores cfg header).finality) := by
  rw [previousCache_beginEnv hheight]
  obtain ⟨nodup, sats, known, unslashed⟩ := inv.funded
  exact ⟨nodup, sats, known, unslashed⟩

theorem LedgerInv.beginBlock (h : c.Begins cfg header w) : LedgerInv cfg strict
      (fun hash => added hash + c.dueEvents.count (.btcDelStateUpdate hash .active))
      (fun hash => subtracted hash + c.btcStaking.removals c.dueEvents hash)
      { c with toStores := w, header, inBlock := true } := by
  obtain ⟨dc, hdc, hfunded⟩ := updatePowerDist_funded (inv.indexed hheight)
    (inv.indexed_funded hheight) h
  have hbs := updatePowerDist_btcStaking h
  rw [eventWindow_beginEnv hheight] at hbs hfunded
  refine ⟨?_, ?_⟩
  · rw [processedHeight_beginBlock h]
    have hrng : ∀ height, height ∈ btcHeightRange c.processedHeight c.lc.tipHeight ↔
        c.processedHeight ≤ height ∧ height ≤ c.lc.tipHeight :=
      fun _ => mem_btcHeightRange inv.ledger.processed_le
    exact inv.ledger.process hrng (by rw [hbs]) (nodup_btcHeightRange _ _)
      (by rw [hbs]) (by rw [hbs]) (by rw [hbs])
  · replace hdc : w.finality.votingPowerDistCache.get header.height = some dc := hdc
    rw [currentCache_beginBlock hdc]
    exact hfunded

end Beginning

theorem LedgerInv.headers (inv : LedgerInv cfg strict added subtracted c) {lc : BTCLightClient}
    (hle : c.lc.tipHeight ≤ lc.tipHeight) (hbase : lc.baseHeight = c.lc.baseHeight) :
    LedgerInv cfg strict added subtracted { c with lc } := by
  refine ⟨?_, inv.funded⟩
  rw [Chain.processedHeight_headers hbase]
  exact inv.ledger.mono hle

variable {history : History I}

/-- The ledger of every run in which the tip does not move down; a strict one if no quorum
comes late. -/
theorem LedgerInv.of_run (hacy : cfg.prim.Acyclic) (run : Run (chain cfg) history c)
    (hsteps : Steps (fun c l => TipNeverDecreases c l ∧ (strict → TimelyQuorums cfg c l)) history) :
    LedgerInv cfg strict (additions history) (subtractions history) c := by
  refine run.historyInvariant
    (fun history c => LedgerInv cfg strict (additions history) (subtractions history) c)
    (fun _ h => ledgerInv_genesis h) ?_ hsteps
  intro history c l c' run inv hal hstep
  cases stepped hstep with
  | beginBlock _ hht hw => exact inv.beginBlock hht hw
  | message hin hw =>
    exact inv.message hacy (height_pos_of_run run hin) (PowerInv.of_run run) hal.2 hw
  | rejected => exact inv
  | headers hbase => exact inv.headers hal.1 hbase
  | others | external => exact ⟨inv.ledger, inv.funded⟩
  | endBlock hin hw =>
    exact inv.endBlock hacy (height_pos_of_run run hin) (validParams_of_run run) hw

theorem LedgerInv.added_le_one (inv : LedgerInv cfg strict added subtracted c) {hash : ChainHash}
    {d : BTCDelegation} (hd : c.btcStaking.btcDelegations.get hash = some d) :
    added hash ≤ 1 := by
  have hact : added hash + c.btcStaking.pending (.btcDelStateUpdate hash .active)
      = if d.hasInclusionProof = true ∧ c.btcStaking.hasQuorum d = true then 1 else 0 :=
    (inv.ledger.lawful hash d hd).activated
  split at hact <;> omega

/-- If the BTC tip never moves down, the sats of every delegation are added at most once and
subtracted at most once, after they were added or in the same step, and what was added and not
subtracted is what the cache has for a provider; and `UpdatePowerDist` of the next block does not
panic: it fails only if a hook of `incentive` or `costaking` does, which are parameters. -/
theorem updatePowerDist_never_panics (hacyclic : cfg.prim.Acyclic) (run : Run (chain cfg) history c)
    (htip : Steps TipNeverDecreases history) :
    (∀ hash, subtractions history hash ≤ additions history hash ∧ additions history hash ≤ 1) ∧
      (∀ pk, NotSlashed c.btcStaking pk →
        c.currentCache.bondedSat pk + movedSats c.btcStaking (subtractions history) pk =
          movedSats c.btcStaking (additions history) pk) ∧
      ∀ header : HeaderInfo, header.height = c.header.height + 1 → ∀ fault,
        updatePowerDist cfg.ext (c.beginEnv cfg header) (c.indexedStores cfg header)
          = .error fault → ∃ text, fault = .hookFailed text := by
  have inv : LedgerInv cfg False (additions history) (subtractions history) c :=
    LedgerInv.of_run hacyclic run fun past hpast => ⟨htip past hpast, False.elim⟩
  refine ⟨?_, ?_, ?_⟩
  · intro hash
    cases hd : c.btcStaking.btcDelegations.get hash with
    | none =>
      obtain ⟨hadded, hsubtracted⟩ := inv.ledger.unseen hash hd
      omega
    | some d => exact ⟨(inv.ledger.lawful hash d hd).subtracted_le, inv.added_le_one hd⟩
  · intro pk hsl
    rw [bondedSat_eq_satsIn inv.funded.nodup]
    exact inv.funded.sats pk hsl
  · intro header hheight
    exact updatePowerDist_failsOnly (inv.indexed hheight) (inv.indexed_funded hheight)

/-! ## Active delegations -/

section

variable (inv : LedgerInv cfg True added subtracted c) (hproc : c.processedHeight = c.lc.tipHeight)

include inv hproc

/-- A delegation whose events are processed counts if and only if it is active. -/
theorem LedgerInv.counted_iff_active {hash : ChainHash}
    {d : BTCDelegation} (hd : c.btcStaking.btcDelegations.get hash = some d)
    (hact : c.btcStaking.pending (.btcDelStateUpdate hash .active) = 0)
    (hunb : c.btcStaking.pending (.btcDelStateUpdate hash .unbonded) = 0) :
    subtracted hash < added hash ↔ c.btcStaking.statusAt c.lc.tipHeight d = .active := by
  have hlaw := inv.ledger.lawful hash d hd
  obtain ⟨p, hp, -⟩ := (inv.ledger.wellFormed.settled hash d hd).params
  have hcntd := hlaw.counted_iff hact hunb
  rw [Account.counted, decide_eq_true_eq] at hcntd
  rw [statusAt_of_params hp, BTCDelegation.getStatus_eq_active_iff]
  refine hcntd.trans ?_
  have hquorum := hasQuorum_of_params hp
  have hstarted := hlaw.started
  simp only [account, BTCDelegation.expiry, hproc, hquorum]
    at hstarted ⊢
  constructor
  · rintro ⟨hearly, hq, hinc, hexpy⟩
    exact ⟨hearly, hq, hinc, hstarted hinc, by omega⟩
  · rintro ⟨hearly, hq, hinc, -, hexpy⟩
    exact ⟨hearly, hq, hinc, by omega⟩

/-- Sats that were added and not subtracted are those of the active delegations. -/
theorem LedgerInv.bondedSat_eq
    (hpend : ∀ hash newState, newState ≠ .expired →
      c.btcStaking.pending (.btcDelStateUpdate hash newState) = 0)
    {pk : BIP340PubKey} (hsl : NotSlashed c.btcStaking pk) :
    c.currentCache.bondedSat pk = c.btcStaking.btcDelegations.sumBy fun _ d =>
      if pk ∈ d.fpBtcPkList ∧ c.btcStaking.statusAt c.lc.tipHeight d = .active then d.totalSat
      else 0 := by
  have hsats := inv.funded.sats pk hsl
  rw [bondedSat_eq_satsIn inv.funded.nodup]
  refine Nat.add_right_cancel (hsats.trans ?_)
  unfold movedSats
  rw [← sumBy_add]
  refine sumBy_congr fun hash d hd => ?_
  have hcntd := inv.counted_iff_active hproc hd (hpend hash .active (by decide))
    (hpend hash .unbonded (by decide))
  have hle : subtracted hash ≤ added hash := (inv.ledger.lawful hash d hd).subtracted_le
  have hone := inv.added_le_one hd
  obtain ⟨provider, fp, hlist, -⟩ := (inv.ledger.wellFormed.settled hash d hd).provider
  have hsatsTo : d.satsTo pk = if pk ∈ d.fpBtcPkList then d.totalSat else 0 := by
    rw [BTCDelegation.satsTo, hlist, List.count_singleton]
    by_cases hpk : provider = pk
    · simp [hpk]
    · simp [hpk, Ne.symm hpk]
  by_cases hst : c.btcStaking.statusAt c.lc.tipHeight d = .active
  · have hlt := hcntd.mpr hst
    have hadd : added hash = 1 := by omega
    have hsubt : subtracted hash = 0 := by omega
    simp [hadd, hsubt, hsatsTo, hst]
  · have hsame : added hash = subtracted hash := by
      have := hcntd.not.mpr hst
      omega
    simp [hsame, hst]

end

/-- In a run in which the BTC tip never moves down and no quorum comes late: right after the
`UpdatePowerDist` of a block, the bonded sats of every provider that is not slashed are those
of its delegations that are active at the tip. -/
theorem bonded_sats_of_active_delegations {c' : Chain I} {header : HeaderInfo}
    (hacyclic : cfg.prim.Acyclic) (run : Run (chain cfg) history c)
    (htip : Steps TipNeverDecreases history) (htimely : Steps (TimelyQuorums cfg) history)
    (hstep : (chain cfg).step c (.beginBlock header) = some c')
    {pk : BIP340PubKey} {fp : FinalityProvider}
    (hfp : c'.btcStaking.finalityProviders.get pk = some fp) (hslashed : fp.isSlashed = false) :
    c'.currentCache.bondedSat pk = c'.btcStaking.btcDelegations.sumBy fun _ d =>
      if pk ∈ d.fpBtcPkList ∧ c'.btcStaking.statusAt c'.lc.tipHeight d = .active then d.totalSat
      else 0 := by
  have inv : LedgerInv cfg True (additions history) (subtractions history) c :=
    LedgerInv.of_run hacyclic run fun past hpast => ⟨htip past hpast, fun _ => htimely past hpast⟩
  obtain ⟨w, -, hheight, hw, rfl⟩ := step_beginBlock hstep
  have hbs := updatePowerDist_btcStaking hw
  rw [eventWindow_beginEnv hheight] at hbs
  refine (inv.beginBlock hheight hw).bondedSat_eq (processedHeight_beginBlock hw) ?_
    (notSlashed_of_get hfp hslashed)
  intro hash newState hother
  exact inv.ledger.pending_processed
    (fun _ => mem_btcHeightRange inv.ledger.processed_le) (by rw [hbs]) hother

/-! ## Two runs -/

instance (c : Chain I) (l : Label I) : Decidable (TipNeverDecreases c l) :=
  match l with
  | .insertHeaders lc => inferInstanceAs (Decidable (c.lc.tipHeight ≤ lc.tipHeight))
  | .beginBlock _ | .deliver _ | .updateOthers _ | .updateExternal _ | .endBlock => .isTrue trivial

/-- The signatures of the covenant come in time, accepted or not. -/
def timelyQuorums (c : Chain I) : Label I → Bool
  | .deliver (.addCovenantSigs req) => decide (c.btcStaking.TimelyQuorum c.processedHeight req)
  | _ => true

theorem timelyQuorums_of_eq_true {l : Label I} (h : timelyQuorums c l = true) :
    TimelyQuorums cfg c l := by
  cases l with
  | deliver msg =>
    cases msg with
    | addCovenantSigs req => exact fun _ => of_decide_eq_true h
    | _ => trivial
  | _ => trivial

/-- A delegation of 100 sats is created with its inclusion proof; it expires at BTC
height 20.  The covenant signs in the next block, at the given BTC tip. -/
def signedAtTip (tipHeight : Nat) : List (Label Unit) :=
  block 1
      (registerFp 0 ++ [createBTCDelegation 0 (stakingTx 1 100) 100]) ++
    [.insertHeaders (lightClient tipHeight [(blockRoot (stakingTx 1 100), 5)])] ++
    block 2 [addCovenantSigs (stakingTx 1 100) none]

/-- The chain before them. -/
def unsignedGenesis : Chain Unit :=
  genesis (finalityParams 10 3 1) (lightClient 10 [(blockRoot (stakingTx 1 100), 5)])

theorem unsignedGenesis_genesis : (chain config).init unsignedGenesis :=
  genesis_genesis _ (by decide +kernel)

/-- After a late quorum nothing is subtracted twice, the cache is still empty, and the next block
does not panic. -/
theorem updatePowerDist_after_late_quorum :
    ∃ (history : History Unit) (c : Chain Unit),
      c.header.height = 2 ∧
      (∀ hash, subtractions history hash ≤ additions history hash ∧ additions history hash ≤ 1) ∧
      movedSats c.btcStaking (subtractions history) 0 =
        movedSats c.btcStaking (additions history) 0 ∧
      ∀ header : HeaderInfo, header.height = c.header.height + 1 → ∀ fault,
        updatePowerDist config.ext (c.beginEnv config header)
          (c.indexedStores config header) = .error fault → ∃ text, fault = .hookFailed text := by
  obtain ⟨history, c, run, hsteps, hheight, hempty, fp, hfp, hslashed⟩ := Run.of_labels
    (chain config)
    (P := fun c => c.header.height = 2 ∧ c.currentCache.bondedSat 0 = 0 ∧
      ∃ fp, c.btcStaking.finalityProviders.get 0 = some fp ∧ fp.isSlashed = false)
    (Q := TipNeverDecreases) unsignedGenesis_genesis (signedAtTip 30) (by decide +kernel)
  obtain ⟨hcounts, hsats, hfails⟩ :=
    updatePowerDist_never_panics BtcPrimitives.simple_acyclic run hsteps
  have hmoved := hsats 0 (notSlashed_of_get hfp hslashed)
  rw [hempty, Nat.zero_add] at hmoved
  exact ⟨history, c, hheight, hcounts, hmoved, hfails⟩

/-- With signatures at BTC height 12, the 100 sats of the active delegation are counted. -/
theorem bonded_sats_after_timely_quorum :
    ∃ c' : Chain Unit, c'.currentCache.bondedSat 0 = 100 ∧
      c'.currentCache.bondedSat 0 = c'.btcStaking.btcDelegations.sumBy fun _ d =>
        if 0 ∈ d.fpBtcPkList ∧ c'.btcStaking.statusAt c'.lc.tipHeight d = .active then d.totalSat
        else 0 := by
  obtain ⟨history, c, run, hsteps, c', hstep, hsats, fp, hfp, hslashed⟩ := Run.of_labels
    (chain config) (Q := fun c l => TipNeverDecreases c l ∧ timelyQuorums c l = true)
    (P := fun c => ∃ c', (chain config).step c (.beginBlock (Devnet.header 3)) = some c' ∧
      c'.currentCache.bondedSat 0 = 100 ∧
      ∃ fp, c'.btcStaking.finalityProviders.get 0 = some fp ∧ fp.isSlashed = false)
    unsignedGenesis_genesis (signedAtTip 12) (by decide +kernel)
  exact ⟨c', hsats, bonded_sats_of_active_delegations BtcPrimitives.simple_acyclic run
    (hsteps.mono fun _ _ => And.left)
    (hsteps.mono fun _ _ h => timelyQuorums_of_eq_true h.2) hstep hfp hslashed⟩

/-- With signatures at BTC height 30, after the delegation has expired, its provider gets
100 sats although none of its delegations is active. -/
theorem bonded_sats_after_late_quorum :
    ∃ history c c' fp, Run (chain config) history c ∧ Steps TipNeverDecreases history ∧
      (chain config).step c (.beginBlock (Devnet.header 3)) = some c' ∧
      c'.btcStaking.finalityProviders.get 0 = some fp ∧ fp.isSlashed = false ∧
      c'.currentCache.bondedSat 0 = 100 ∧
      (c'.btcStaking.btcDelegations.sumBy fun _ d =>
        if 0 ∈ d.fpBtcPkList ∧ c'.btcStaking.statusAt c'.lc.tipHeight d = .active then d.totalSat
        else 0) = 0 := by
  simp only [exists_and_left]
  exact Run.of_labels _ unsignedGenesis_genesis (signedAtTip 30) (by decide +kernel)

end Babylon
