/-
  Slashed and jailed providers over whole runs.

  Slashing and jailing reach the voting power tables through events that are keyed
  by the BTC height.  If the BTC tip never moves down, all of them are processed
  at the next block, whose cache then has the flags of the store.
-/
import Babylon.App.Accountability
import Babylon.App.PowerLedger
import Babylon.Finality.ProviderStates

set_option autoImplicit false

namespace Babylon

open Lib Finality BTCStaking Devnet Chain BTCStaking.State Finality.State List

variable {I : Type} {cfg : Config I} {c : Chain I}

/-! ## The flags of the current cache -/

/-- The current cache and the pending events give the flags of the store. -/
structure StatusInv (c : Chain I) : Prop where
  tracks : Tracks c.processedHeight c.lc.tipHeight c.btcStaking c.currentCache

theorem statusInv_genesis (h : Genesis cfg c) : StatusInv c := by
  have hevs : ∀ pk height, c.btcStaking.providerEvents pk height = [] := by
    intro pk height
    rw [providerEvents, h.eventsAt]
    rfl
  have hnone : ∀ info, info ∉ c.currentCache.finalityProviders := by
    rw [h.currentCache]
    exact fun _ => not_mem_nil
  refine ⟨⟨?_, fun pk height hne => absurd (hevs pk height) hne, ?_, ?_, ?_, ?_, ?_, ?_⟩⟩
  · rw [h.processedHeight]
    exact c.lc.base_le_tip
  · exact fun info hinfo => absurd hinfo (hnone info)
  · exact fun info hinfo => absurd hinfo (hnone info)
  · intro pk _
    rw [eventsAbout_eventsIn]
    exact flatMap_eq_nil_iff.mpr fun height _ => hevs pk height
  · exact fun info hinfo => absurd hinfo (hnone info)
  · exact fun info hinfo => absurd hinfo (hnone info)
  · obtain ⟨_, _, _, _, hbs, -⟩ := h.btcStaking_eq
    rw [hbs]
    exact nofun

variable {requests : BTCStaking.State → Request → Prop}

variable {w : Stores I}

/-- A step that keeps heights, given that it relabels the cache by what is in the store. -/
theorem StatusInv.of_changes (inv : StatusInv c) (hk : c.btcStaking.ProvidersKeyed)
    (hpos : 0 < c.header.height) (inBlock : Bool)
    (hch : Changes cfg.prim (c.env cfg).toEnv requests c.btcStaking w.btcStaking)
    (hcache : ∀ news, Labelled w.btcStaking c.currentCache news →
      Labelled w.btcStaking ((w.finality.getVotingPowerDistCache c.header.height).getD .new) news) :
    StatusInv { c with toStores := w, inBlock } := by
  have htracks : Tracks c.processedHeight c.lc.tipHeight w.btcStaking c.currentCache := by
    clear hcache
    generalize w.btcStaking = t at hch ⊢
    induction hch with
    | refl => exact inv.tracks
    | tail hch hchg ih => exact ih.change (Changes.providersEvolve hk hch).keyed hpos hchg
  refine ⟨?_⟩
  rw [processedHeight_of_changes inBlock hch]
  exact ⟨htracks.1, htracks.2, hcache _ htracks.3⟩

/-- A proposal marks providers of the current cache as jailed that it jails in the store. -/
theorem labelled_of_resume (hpower : PowerInv c) {names : List HexString} {haltingHeight : Nat}
    (h : handleResumeFinalityProposal cfg.ext (c.env cfg) c.toStores names haltingHeight
      = .ok w) {news : BIP340PubKey → List EventPowerDistUpdate}
    (hlab : Labelled w.btcStaking c.currentCache news) :
    Labelled w.btcStaking
      ((w.finality.getVotingPowerDistCache c.header.height).getD .new) news := by
  rcases hpower.rewritesOrKeeps h c.header.height with hkeeps | ⟨dc, hrw⟩
  · rw [hkeeps.getVotingPowerDistCache]
    exact hlab
  · have hold : c.currentCache = dc := by
      rw [currentCache, hrw.cached]
      rfl
    have hget := get_of_getVotingPowerDistCache hrw.cached
    rw [hrw.getVotingPowerDistCache (hpower.caches _ _ hget), Option.getD_some]
    rw [hold] at hlab
    refine hlab.relabel VotingPowerDistCache.applyActive_perm (jailInCache_btcPk names) ?_ ?_
    · intro info
      unfold jailInCache
      split <;> rfl
    · intro info _
      unfold jailInCache
      split
      case isFalse => exact .inl rfl
      case isTrue hnm =>
        refine .inr ⟨rfl, ?_⟩
        intro fp hfp hnot
        rw [Bool.and_eq_true, shouldJail, decide_eq_true_eq] at hnm
        obtain ⟨fp', hfp', hdis⟩ := handleResumeFinalityProposal_disables hpower.keyed h _ hnm.1
          info.btcPk (newBIP340PubKeyFromHex_marshalHex info.btcPk)
        rw [hfp'] at hfp
        cases hfp
        rcases hdis with hj | hsl
        · exact hj
        · rw [hnot] at hsl
          cases hsl

variable {msg : Msg}

theorem StatusInv.message (inv : StatusInv c) (hpower : PowerInv c) (hpos : 0 < c.header.height)
    (h : c.Handles cfg msg w) : StatusInv { c with toStores := w } := by
  refine inv.of_changes hpower.keyed hpos c.inBlock (handle_staking h) ?_
  intro news hlab
  rcases handle_tables h with ⟨-, hcaches⟩ | ⟨req, rfl, hrsm⟩
  · rw [getVotingPowerDistCache, hcaches]
    exact hlab
  · exact labelled_of_resume hpower hrsm hlab

theorem StatusInv.endBlock (inv : StatusInv c) (hpower : PowerInv c)
    (hpar : ∃ u, c.finality.params.validate = .ok u) (hpos : 0 < c.header.height)
    (h : c.Ends cfg w) : StatusInv { c with toStores := w, inBlock := false } := by
  have hch := changes_of_endBlocker h
  refine inv.of_changes hpower.keyed hpos false hch ?_
  intro news hlab
  rw [getVotingPowerDistCache, endBlocker_currentCache hpar h]
  exact hlab

variable {pk : BIP340PubKey}

section Beginning

variable {header : HeaderInfo} {w : Stores I}
  (inv : StatusInv c) (hpower : PowerInv c) (hheight : header.height = c.header.height + 1)
  (h : c.Begins cfg header w)

include inv hpower hheight h

/-- The cache of a new block has the flags of the store. -/
theorem StatusInv.labelled_next :
    ∃ dc, w.finality.votingPowerDistCache.get header.height = some dc ∧
      ∀ info ∈ dc.finalityProviders, ∃ fp,
        c.btcStaking.finalityProviders.get info.btcPk = some fp ∧ fp.isSlashed = false ∧
          info.isSlashed = false ∧ info.isJailed = fp.jailed := by
  have hk : (c.indexedStores cfg header).btcStaking.ProvidersKeyed := hpower.keyed
  have hprev : previousCache (c.beginEnv cfg header)
      (c.indexedStores cfg header).finality = c.currentCache := previousCache_beginEnv hheight
  refine updatePowerDist_labelled hk ?_ ?_ h
  · rw [hprev, currentCache]
    cases hcache : c.finality.getVotingPowerDistCache c.header.height with
    | none => exact nodup_nil
    | some dc =>
      exact (hpower.caches _ _ (get_of_getVotingPowerDistCache hcache)).nodup
  · rw [hprev, eventWindow_beginEnv hheight]
    obtain ⟨known, unslashed, fresh, slashed, cached, stored⟩ := inv.tracks.labelled
    exact ⟨known, unslashed, fresh, slashed, cached, stored⟩

theorem StatusInv.beginBlock : StatusInv { c with toStores := w, header, inBlock := true } := by
  obtain ⟨dc, hdc, hflags⟩ := inv.labelled_next hpower hheight h
  have hbs := updatePowerDist_btcStaking h
  rw [eventWindow_beginEnv hheight] at hbs
  have hprov : w.btcStaking.finalityProviders = c.btcStaking.finalityProviders := by rw [hbs]
  -- all events about providers have been processed
  have hnone : ∀ pk height, w.btcStaking.providerEvents pk height = [] := by
    intro pk height
    refine eq_nil_iff_forall_not_mem.mpr fun event hmem => ?_
    obtain ⟨hat, habout⟩ := mem_eventsAbout.mp hmem
    obtain ⟨hout, hold⟩ := mem_eventsAt_cleared (by rw [hbs]) hat
    have hrng := inv.tracks.located pk height (ne_nil_of_mem (mem_eventsAbout.mpr ⟨hold, habout⟩))
    exact hout ((mem_btcHeightRange inv.tracks.processed_le).mpr hrng)
  have hnews : ∀ pk heights,
      eventsAbout pk (w.btcStaking.eventsIn heights) = [] := by
    intro pk heights
    rw [eventsAbout_eventsIn]
    exact flatMap_eq_nil_iff.mpr fun height _ => hnone pk height
  refine ⟨?_⟩
  rw [processedHeight_beginBlock h, currentCache_beginBlock hdc]
  refine ⟨le_refl _, fun pk height hne => absurd (hnone pk height) hne, ?_⟩
  simp only [hnews]
  refine ⟨?_, ?_, fun _ _ => rfl, ?_, ?_, fun _ _ _ _ => rfl⟩
  · intro info hinfo
    obtain ⟨fp, hfp, -⟩ := hflags info hinfo
    exact ⟨fp, by rw [hprov, hfp]⟩
  · intro info hinfo
    obtain ⟨_, -, -, hsl, -⟩ := hflags info hinfo
    exact hsl
  · intro info hinfo fp hfp hsl
    obtain ⟨fp', hfp', hnot, -⟩ := hflags info hinfo
    rw [hprov, hfp'] at hfp
    cases hfp
    rw [hnot] at hsl
    cases hsl
  · intro info hinfo fp hfp _
    obtain ⟨fp', hfp', -, -, hj⟩ := hflags info hinfo
    rw [hprov, hfp'] at hfp
    cases hfp
    exact hj

/-- Who is slashed or jailed when a block begins has no voting power at its height. -/
theorem StatusInv.no_power {fp : FinalityProvider}
    (hfp : c.btcStaking.finalityProviders.get pk = some fp)
    (hdis : fp.isSlashed = true ∨ fp.jailed = true) :
    w.finality.getVotingPower pk header.height = 0 := by
  by_contra hne
  obtain ⟨dc, hdc, hflags⟩ := inv.labelled_next hpower hheight h
  obtain ⟨dc', hrec⟩ := hpower.records h
  obtain rfl : dc' = dc := by
    rw [hrec.caches, KVStore.get_set_self] at hdc
    exact Option.some.inj hdc
  obtain ⟨info, hinfo, rfl⟩ := hrec.active_of_getVotingPower (hpower.table_none (by omega)) hne
  obtain ⟨fp', hfp', hnot, -, hj⟩ := hflags info (mem_of_mem_take hinfo)
  rw [hfp] at hfp'
  cases hfp'
  have helig := hrec.wellFormed.eligible info hinfo
  rw [FinalityProviderDistInfo.eligible] at helig
  rcases hdis with hsl | hjail
  · rw [hnot] at hsl
    cases hsl
  · simp [hj, hjail] at helig

end Beginning

theorem StatusInv.headers (inv : StatusInv c) {lc : BTCLightClient}
    (hle : c.lc.tipHeight ≤ lc.tipHeight) (hbase : lc.baseHeight = c.lc.baseHeight) :
    StatusInv { c with lc } := by
  refine ⟨?_⟩
  rw [processedHeight_headers hbase]
  exact inv.tracks.mono hle

/-- The flags of the current cache in every run in which the tip does not move down. -/
theorem StatusInv.of_run {history : History I} (run : Run (chain cfg) history c)
    (hsteps : Steps TipNeverDecreases history) : StatusInv c := by
  refine run.historyInvariant (fun _ c => StatusInv c) (fun _ h => statusInv_genesis h) ?_ hsteps
  intro history c l c' run inv hal hstep
  have hpower := PowerInv.of_run run
  cases stepped hstep with
  | beginBlock _ hht hw => exact inv.beginBlock hpower hht hw
  | message hin hw => exact inv.message hpower (height_pos_of_run run hin) hw
  | rejected => exact inv
  | headers hbase => exact inv.headers hal hbase
  | others | external => exact ⟨inv.tracks⟩
  | endBlock hin hw =>
    exact inv.endBlock hpower (validParams_of_run run) (height_pos_of_run run hin) hw

/-! ## What one step does to a provider -/

/-- A message that unjails the provider is accepted. -/
def Unjails (cfg : Config I) (pk : BIP340PubKey) (c : Chain I) (l : Label I) : Prop :=
  ∃ req w, l = .deliver (.unjailFinalityProvider req) ∧ req.fpBtcPk = pk ∧
    unjailFinalityProvider (c.env cfg) c.toStores req = .ok w

/-- Only the message for unjailing clears the flag of a provider. -/
theorem handle_keepsJailed (hk : c.btcStaking.ProvidersKeyed) (h : c.Handles cfg msg w) :
    KeepsJailed pk c.btcStaking w.btcStaking ∨ Unjails cfg pk c (.deliver msg) := by
  refine (KeepsJailed.of_changes hk (handle_staking h)).imp_right ?_
  rintro ⟨_, req, rfl, hpk⟩
  exact ⟨req, w, rfl, hpk, h⟩

/-- A message stores no vote of a slashed provider. -/
theorem handle_votes_of_slashed {fp : FinalityProvider}
    (hfp : c.btcStaking.finalityProviders.get pk = some fp) (hsl : fp.isSlashed = true)
    (h : c.Handles cfg msg w) (height : Nat) :
    (w.finality.votes.under height).get pk = (c.finality.votes.under height).get pk := by
  rcases handle_votes h with ⟨hvotes, -⟩ | ⟨req, -, hvote⟩
  · rw [hvotes]
  · obtain ⟨_, voter, _, hacc, -⟩ := addFinalitySig_ok hvote
    obtain ⟨_, votes, _, hfin, hvotes⟩ := addFinalitySig_effect hvote
    rw [hfin]
    rcases hvotes with rfl | rfl
    · rfl
    · have hne : ¬(height = req.blockHeight ∧ pk = req.fpBtcPk) := by
        rintro ⟨-, rfl⟩
        have hnot := hacc.notSlashed
        have hvoter := hacc.provider
        rw [hfp] at hvoter
        cases hvoter
        rw [hsl] at hnot
        cases hnot
      rw [KVStore.get_under_setUnder, if_neg hne]

/-- What a step does to a provider, and to the voting power at heights above a bound. -/
structure ProviderStep (cfg : Config I) (pk : BIP340PubKey) (c c' : Chain I) (l : Label I) :
    Prop where
  height_le : c.header.height ≤ c'.header.height
  evolves : ProvidersEvolve c.btcStaking c'.btcStaking
  jailed : KeepsJailed pk c.btcStaking c'.btcStaking ∨ Unjails cfg pk c l
  power : ∀ m, c'.finality.getVotingPower pk m = c.finality.getVotingPower pk m ∨
    c.header.height < m ∧ ∀ fp, c.btcStaking.finalityProviders.get pk = some fp →
      fp.isSlashed = true ∨ fp.jailed = true → c'.finality.getVotingPower pk m = 0
  votes : ∀ fp, c.btcStaking.finalityProviders.get pk = some fp → fp.isSlashed = true →
    ∀ height, (c'.finality.votes.under height).get pk = (c.finality.votes.under height).get pk

variable {c' : Chain I} {l : Label I}

theorem ProviderStep.of_kept (hpower : PowerInv c) (hhd : c'.header = c.header)
    (hprov : c'.btcStaking.finalityProviders = c.btcStaking.finalityProviders)
    (hfty : c'.finality = c.finality) : ProviderStep cfg pk c c' l where
  height_le := by rw [hhd]
  evolves := .of_eq hpower.keyed hprov
  jailed := .inl (.of_eq hprov)
  power := fun _ => .inl (by rw [hfty])
  votes := fun _ _ _ _ => by rw [hfty]

theorem ProviderStep.message (hpower : PowerInv c)
    (hno : (Label.deliver msg : Label I).noResume = true) (h : c.Handles cfg msg w) :
    ProviderStep cfg pk c { c with toStores := w } (.deliver msg) where
  height_le := le_refl _
  evolves := (handle_staking h).providersEvolve hpower.keyed
  jailed := handle_keepsJailed hpower.keyed h
  power := by
    intro m
    rcases handle_tables h with ⟨htables, -⟩ | ⟨req, rfl, -⟩
    · refine .inl ?_
      rw [getVotingPower, htables]
      rfl
    · cases hno
  votes := fun _ hfp hsl => handle_votes_of_slashed hfp hsl h

theorem ProviderStep.endBlock (hpower : PowerInv c) (h : c.Ends cfg w) :
    ProviderStep cfg pk c { c with toStores := w, inBlock := false } .endBlock := by
  have hch := changes_of_endBlocker h
  refine ⟨le_refl _, hch.providersEvolve hpower.keyed,
    (KeepsJailed.of_changes hpower.keyed hch).imp_right ?_,
    fun m => .inl ?_, fun _ _ _ height => ?_⟩
  · rintro ⟨_, ⟨⟩⟩
  · show w.finality.getVotingPower pk m = _
    rw [getVotingPower, (endBlocker_tables h).1]
    rfl
  · show (w.finality.votes.under height).get pk = _
    rw [(endBlocker_keeps h).2.2.1]

theorem ProviderStep.beginBlock {header : HeaderInfo} (inv : StatusInv c)
    (hpower : PowerInv c) (hheight : header.height = c.header.height + 1)
    (h : c.Begins cfg header w) :
    ProviderStep cfg pk c { c with toStores := w, header, inBlock := true }
      (.beginBlock header) := by
  have hprov := updatePowerDist_providers h
  refine ⟨?_, .of_eq hpower.keyed hprov, .inl (.of_eq hprov), ?_, ?_⟩
  · show c.header.height ≤ header.height
    omega
  · intro m
    by_cases heq : m = header.height
    · subst heq
      exact .inr ⟨by omega, fun fp hfp hdis => inv.no_power hpower hheight h hfp hdis⟩
    · obtain ⟨dc, hrec⟩ := hpower.records h
      exact .inl ((hrec.keeps heq).getVotingPower pk)
  · intro _ _ _ height
    obtain ⟨⟨_, _, _, _, hfin⟩, -⟩ := updatePowerDist_power h
    rw [hfin]
    rfl

theorem ProviderStep.of_step (inv : StatusInv c) (hpower : PowerInv c) (hno : l.noResume = true)
    (hstep : (chain cfg).step c l = some c') :
    ProviderStep cfg pk c c' l := by
  cases stepped hstep with
  | beginBlock _ hht hw => exact .beginBlock inv hpower hht hw
  | message _ hw => exact .message hpower hno hw
  | rejected | headers | others | external => exact .of_kept hpower rfl rfl rfl
  | endBlock _ hw => exact .endBlock hpower hw

/-! ## Since a provider was slashed or jailed -/

/-- What has held since the provider was slashed at height `n`. -/
structure SlashedSince (pk : BIP340PubKey) (n : Nat)
    (votes : KVStore Nat (KVStore BIP340PubKey EOTS.SchnorrEOTSSig)) (c : Chain I) : Prop where
  slashed : ∃ fp, c.btcStaking.finalityProviders.get pk = some fp ∧ fp.isSlashed = true
  powerless : ∀ m, n < m → c.finality.getVotingPower pk m = 0
  voteless : ∀ height, (c.finality.votes.under height).get pk = (votes.under height).get pk

theorem SlashedSince.step {n : Nat} {votes : KVStore Nat (KVStore BIP340PubKey EOTS.SchnorrEOTSSig)}
    (h : SlashedSince pk n votes c) (hstep : ProviderStep cfg pk c c' l) :
    SlashedSince pk n votes c' := by
  obtain ⟨fp, hfp, hsl⟩ := h.slashed
  refine ⟨?_, ?_, ?_⟩
  · obtain ⟨fp', hfp', hkeeps⟩ := hstep.evolves.kept pk fp hfp
    exact ⟨fp', hfp', hkeeps hsl⟩
  · intro m hm
    rcases hstep.power m with hsame | ⟨-, hnone⟩
    · rw [hsame, h.powerless m hm]
    · exact hnone fp hfp (.inl hsl)
  · intro height
    rw [hstep.votes fp hfp hsl, h.voteless]

/-- What has held since the provider was jailed at height `n`, after some steps. -/
structure JailedSince (cfg : Config I) (pk : BIP340PubKey) (n : Nat)
    (steps : History I) (c : Chain I) : Prop where
  jailed : (∃ fp, c.btcStaking.finalityProviders.get pk = some fp ∧ fp.jailed = true) ∨
    ∃ past ∈ steps, Unjails cfg pk past.1 past.2 ∧ past.1.header.height ≤ c.header.height
  powerless : ∀ m, n < m → c.finality.getVotingPower pk m ≠ 0 →
    ∃ past ∈ steps, Unjails cfg pk past.1 past.2 ∧ past.1.header.height < m

theorem JailedSince.step {n : Nat} {steps : History I}
    (h : JailedSince cfg pk n steps c) (hstep : ProviderStep cfg pk c c' l) :
    JailedSince cfg pk n ((c, l) :: steps) c' := by
  refine ⟨?_, ?_⟩
  · rcases h.jailed with ⟨fp, hfp, hj⟩ | ⟨past, hpast, hunj, hle⟩
    · rcases hstep.jailed with hkeeps | hunj
      · exact .inl (hkeeps fp hfp hj)
      · exact .inr ⟨(c, l), mem_cons_self, hunj, hstep.height_le⟩
    · exact .inr ⟨past, mem_cons_of_mem _ hpast, hunj, hle.trans hstep.height_le⟩
  · intro m hm hpower
    rcases hstep.power m with hsame | ⟨hnew, hnone⟩
    · obtain ⟨past, hpast, hunj, hlt⟩ := h.powerless m hm (hsame ▸ hpower)
      exact ⟨past, mem_cons_of_mem _ hpast, hunj, hlt⟩
    -- the table of a new block has it only if it is no longer jailed
    · rcases h.jailed with ⟨fp, hfp, hj⟩ | ⟨past, hpast, hunj, hle⟩
      · exact absurd (hnone fp hfp (.inr hj)) hpower
      · exact ⟨past, mem_cons_of_mem _ hpast, hunj, hle.trans_lt hnew⟩

/-- Without proposals to resume finality and while the BTC tip does not move down, a provider
that is slashed has no voting power at later heights and no vote of it is stored, and one that
is jailed has no voting power at later heights up to the block in which it is unjailed. -/
theorem disabled_providers_have_no_power {later earlier : History I} {c₀ : Chain I}
    {l₀ : Label I} (run : Run (chain cfg) (later ++ (c₀, l₀) :: earlier) c)
    (hsteps : Steps (fun c l => TipNeverDecreases c l ∧ l.noResume = true)
      (later ++ (c₀, l₀) :: earlier))
    {pk : BIP340PubKey} {fp : FinalityProvider}
    (hfp : c₀.btcStaking.finalityProviders.get pk = some fp) :
    (fp.isSlashed = true →
      (∀ m, c₀.header.height < m → c.finality.getVotingPower pk m = 0) ∧
      ∀ height, (c.finality.votes.under height).get pk = (c₀.finality.votes.under height).get pk) ∧
    (fp.jailed = true → ∀ m, c₀.header.height < m → c.finality.getVotingPower pk m ≠ 0 →
      ∃ past ∈ later ++ [(c₀, l₀)], Unjails cfg pk past.1 past.2 ∧ past.1.header.height < m) := by
  have hstep : ∀ history c l c', Run (chain cfg) history c →
      Steps (fun c l => TipNeverDecreases c l ∧ l.noResume = true) history →
      TipNeverDecreases c l ∧ l.noResume = true → (chain cfg).step c l = some c' →
      ProviderStep cfg pk c c' l := by
    intro history c l c' run hsteps hallowed hstep
    exact .of_step (StatusInv.of_run run (hsteps.mono fun _ _ h => h.1)) (PowerInv.of_run run)
      hallowed.2 hstep
  obtain ⟨_, hrun₀, -, -⟩ := run.of_mem (mem_append_right later mem_cons_self)
  have hnone : ∀ m, c₀.header.height < m → c₀.finality.getVotingPower pk m = 0 := by
    intro m hm
    rw [getVotingPower, KVStore.under, (PowerInv.of_run hrun₀).table_none hm]
    rfl
  refine ⟨?_, ?_⟩
  · intro hslashed
    have hsince : SlashedSince pk c₀.header.height c₀.finality.votes c := by
      refine run.since (fun _ c => SlashedSince pk c₀.header.height c₀.finality.votes c) hsteps
        ⟨⟨fp, hfp, hslashed⟩, hnone, fun _ => rfl⟩ ?_
      intro _ history c l c' run hsteps h hallowed hnext
      exact h.step (hstep history c l c' run hsteps hallowed hnext)
    exact ⟨hsince.powerless, hsince.voteless⟩
  · intro hjailed
    have hsince : JailedSince cfg pk c₀.header.height (later ++ [(c₀, l₀)]) c := by
      refine run.since (JailedSince cfg pk c₀.header.height) hsteps
        ⟨.inl ⟨fp, hfp, hjailed⟩, fun m hm hne => absurd (hnone m hm) hne⟩ ?_
      intro _ history c l c' run hsteps h hallowed hnext
      exact h.step (hstep history c l c' run hsteps hallowed hnext)
    exact hsince.powerless

/-- The provider with key 0 has voting power at height 4, where it is slashed for voting for a
fork, and no more above. -/
theorem slashed_provider_has_no_power :
    ∃ (c₀ c : Chain Unit) (fp : FinalityProvider),
      c₀.btcStaking.finalityProviders.get 0 = some fp ∧ fp.isSlashed = true ∧
      c₀.header.height = 4 ∧ c₀.finality.getVotingPower 0 4 ≠ 0 ∧ c.header.height = 5 ∧
      ∀ m, 4 < m → c.finality.getVotingPower 0 m = 0 := by
  obtain ⟨history, c₀, run, hsteps, hheight, hpower, fp, hfp, hslashed, c₁, hend, c, hbegin,
    hnext⟩ :=
    of_labels (Q := fun c l => TipNeverDecreases c l ∧ l.noResume = true)
      (P := fun c₀ => c₀.header.height = 4 ∧ c₀.finality.getVotingPower 0 4 ≠ 0 ∧
        ∃ fp, c₀.btcStaking.finalityProviders.get 0 = some fp ∧ fp.isSlashed = true ∧
        ∃ c₁, (chain config).step c₀ .endBlock = some c₁ ∧
        ∃ c, (chain config).step c₁ (.beginBlock (Devnet.header 5)) = some c ∧
          c.header.height = 5)
      (finalityParams 10 3 1) delegationLightClient
      (votedBlocks ++ [.beginBlock (Devnet.header 4), vote 2 forkHash]) (by decide +kernel)
  have hrun : Run (chain config)
      ([(c₁, .beginBlock (Devnet.header 5))] ++ (c₀, .endBlock) :: history) c :=
    (run.next hend).next hbegin
  have hallowed : Steps (fun c l => TipNeverDecreases c l ∧ l.noResume = true)
      ([(c₁, .beginBlock (Devnet.header 5))] ++ (c₀, .endBlock) :: history) :=
    .cons (.cons hsteps ⟨trivial, rfl⟩) ⟨trivial, rfl⟩
  have hnone := (disabled_providers_have_no_power hrun hallowed hfp).1 hslashed
  rw [hheight] at hnone
  exact ⟨c₀, c, fp, hfp, hslashed, hheight, hpower, hnext, hnone.1⟩

end Babylon
