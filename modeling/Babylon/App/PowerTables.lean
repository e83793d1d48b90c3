/-
  Voting power tables and distribution caches.

  `UpdatePowerDist` writes the table and the cache of a height together.  After
  that, a proposal to resume finality rewrites both, and rewarding removes the
  cache.  In every reachable state the providers with voting power are active in
  the cache; the converse needs that no proposal lets a provider move up.
-/
import Babylon.App.Devnet
import Babylon.App.Steps
import Babylon.Finality.Distribution
import Babylon.Finality.Resume

set_option autoImplicit false

namespace Babylon

open Lib KVStore Finality Devnet Chain Finality.State List VotingPowerDistCache

namespace Finality

/-- The providers with voting power at a height are active in its cache, with their
power as sats. -/
def State.Covered (s : State) : Prop :=
  ∀ height dc pk, s.votingPowerDistCache.get height = some dc →
    s.getVotingPower pk height ≠ 0 →
    ∃ fp ∈ dc.getActiveFinalityProviderSet, fp.btcPk = pk ∧
      fp.totalBondedSat = s.getVotingPower pk height

/-- The active providers of a cache have their sats as voting power. -/
def State.Recorded (s : State) : Prop :=
  ∀ height dc, s.votingPowerDistCache.get height = some dc →
    ∀ fp ∈ dc.getActiveFinalityProviderSet, s.getVotingPower fp.btcPk height = fp.totalBondedSat

variable {s t : State} {dc : VotingPowerDistCache} {height : Nat}

/-! ## Recording a height -/

/-- The stores after a cache has been recorded at a height without table. -/
structure Records (s t : State) (height : Nat) (dc : VotingPowerDistCache) : Prop where
  power : t.votingPower = s.votingPower.setMany height
    (dc.getActiveFinalityProviderSet.map fun fp => (fp.btcPk, fp.totalBondedSat))
  caches : t.votingPowerDistCache = s.votingPowerDistCache.set height dc
  wellFormed : dc.WellFormed

namespace Records

section

variable (h : Records s t height dc)

include h

theorem nodup_keys :
    ((dc.getActiveFinalityProviderSet.map fun fp => (fp.btcPk, fp.totalBondedSat)).map
      Prod.fst).Nodup := by
  rw [map_map]
  exact h.wellFormed.nodup.sublist ((take_sublist _ _).map _)

theorem keeps {other : Nat} (hne : other ≠ height) : KeepsHeight s t other where
  cache := by rw [h.caches, get_set_of_ne _ _ hne]
  table := by rw [h.power, get_setMany _ _ _ (.inl hne)]

theorem getVotingPower_active {fp : FinalityProviderDistInfo}
    (hfp : fp ∈ dc.getActiveFinalityProviderSet) :
    t.getVotingPower fp.btcPk height = fp.totalBondedSat := by
  rw [State.getVotingPower, h.power, get_under_setMany _ _ h.nodup_keys
    (mem_map.mpr ⟨fp, hfp, rfl⟩), Option.getD_some]

theorem active_of_getVotingPower (hnone : s.votingPower.get height = none) {pk : BIP340PubKey}
    (hpow : t.getVotingPower pk height ≠ 0) :
    ∃ fp ∈ dc.getActiveFinalityProviderSet, fp.btcPk = pk := by
  by_contra hnot
  refine hpow ?_
  rw [State.getVotingPower, h.power, get_under_setMany_of_not_mem]
  · simp [under, hnone]
  · rw [map_map]
    intro hmem
    obtain ⟨fp, hfp, rfl⟩ := mem_map.mp hmem
    exact hnot ⟨fp, hfp, rfl⟩

theorem cachesWellFormed (hwf : s.CachesWellFormed) : t.CachesWellFormed := by
  unfold State.CachesWellFormed
  rw [h.caches]
  exact forall_set hwf h.wellFormed

theorem covered (hnone : s.votingPower.get height = none) (hs : s.Covered) : t.Covered := by
  intro other dc' pk hget hpow
  by_cases heq : other = height
  · subst heq
    rw [h.caches, get_set_self] at hget
    cases hget
    obtain ⟨fp, hfp, rfl⟩ := h.active_of_getVotingPower hnone hpow
    exact ⟨fp, hfp, rfl, (h.getVotingPower_active hfp).symm⟩
  · have hkeeps := h.keeps heq
    rw [hkeeps.getVotingPower] at hpow ⊢
    exact hs other dc' pk (hkeeps.cache ▸ hget) hpow

theorem recorded (hs : s.Recorded) : t.Recorded := by
  intro other dc' hget fp hfp
  by_cases heq : other = height
  · subst heq
    rw [h.caches, get_set_self] at hget
    cases hget
    exact h.getVotingPower_active hfp
  · have hkeeps := h.keeps heq
    rw [hkeeps.getVotingPower]
    exact hs other dc' (hkeeps.cache ▸ hget) fp hfp

end

end Records

/-- `UpdatePowerDist` records a cache of different providers at the current height. -/
theorem updatePowerDist_records {I : Type} {ext : External I} {env : Env} {w w' : Stores I}
    (hk : w.btcStaking.ProvidersKeyed) (hwf : w.finality.CachesWellFormed)
    (h : updatePowerDist ext env w = .ok w') :
    ∃ dc, Records w.finality w'.finality env.header.height dc := by
  obtain ⟨newDc, state, hpr, ⟨tracker, bitmap, hfin⟩, -⟩ := updatePowerDist_ok h
  rw [State.recordVotingPowerAndCache_fst] at hfin
  have hprev : (previousCache env w.finality).WellFormed := by
    unfold previousCache
    cases hcache : w.finality.getVotingPowerDistCache (env.header.height - 1) with
    | none => exact VotingPowerDistCache.wellFormed_new
    | some dc => exact hwf _ _ (State.get_of_getVotingPowerDistCache hcache)
  obtain ⟨final, -, -, rfl, -⟩ := (processAllPowerDistUpdateEvents_ok_iff hprev.nodup).mp hpr
  refine ⟨_, by rw [hfin], by rw [hfin], ?_⟩
  refine VotingPowerDistCache.applyActive_wellFormed ?_
  show (((nextFps w.btcStaking final (previousCache env w.finality)).map _).map _).Nodup
  rw [map_map]
  exact nextFps_nodup hk hprev.nodup

/-! ## Rewriting heights -/

/-- Every height is kept or rewritten. -/
def RewritesOrKeeps (names : List HexString) (s t : State) : Prop :=
  ∀ height, KeepsHeight s t height ∨ ∃ dc, RewritesHeight names s t height dc

section Rewrites

variable {names : List HexString}

theorem RewritesOrKeeps.cachesWellFormed (h : RewritesOrKeeps names s t)
    (hwf : s.CachesWellFormed) : t.CachesWellFormed := by
  intro height dc hget
  rcases h height with hkeeps | ⟨old, hrw⟩
  · exact hwf height dc (hkeeps.cache ▸ hget)
  · obtain rfl : rewriteCache names old = dc := Option.some.inj (hrw.cache.symm.trans hget)
    exact rewriteCache_wellFormed (hwf _ _ (State.get_of_getVotingPowerDistCache hrw.cached))

theorem RewritesOrKeeps.covered (h : RewritesOrKeeps names s t) (hwf : s.CachesWellFormed)
    (hs : s.Covered) : t.Covered := by
  intro height dc pk hget hpow
  rcases h height with hkeeps | ⟨old, hrw⟩
  · rw [hkeeps.getVotingPower] at hpow ⊢
    exact hs height dc pk (hkeeps.cache ▸ hget) hpow
  · obtain rfl : rewriteCache names old = dc := Option.some.inj (hrw.cache.symm.trans hget)
    have hchd := State.get_of_getVotingPowerDistCache hrw.cached
    rw [hrw.power] at hpow ⊢
    split at hpow
    case isTrue => exact absurd rfl hpow
    case isFalse hnot =>
      obtain ⟨fp, hfp, rfl, hsats⟩ := hs height old pk hchd hpow
      have hnm : shouldJail names fp = false := by
        refine decide_eq_false fun hmem => hnot ⟨?_, hmem⟩
        exact mem_map_of_mem (mem_of_mem_take hfp)
      rw [if_neg hnot]
      exact ⟨fp, mem_rewriteCache_active_of_not (hwf _ _ hchd) hfp hnm, rfl, hsats⟩

/-- Where nobody is promoted, the active providers still have their power. -/
theorem State.Recorded.of_rewrites (hs : s.Recorded) (hwf : s.CachesWellFormed)
    (h : ∀ height, KeepsHeight s t height ∨
      ∃ dc, RewritesHeight names s t height dc ∧ promoted names dc = []) : t.Recorded := by
  intro height dc hget fp hfp
  rcases h height with hkeeps | ⟨old, hrw, hnobody⟩
  · rw [hkeeps.getVotingPower]
    exact hs height dc (hkeeps.cache ▸ hget) fp hfp
  · obtain rfl : rewriteCache names old = dc := Option.some.inj (hrw.cache.symm.trans hget)
    have hchd := State.get_of_getVotingPowerDistCache hrw.cached
    rw [rewriteCache_active (hwf _ _ hchd), hnobody, append_nil] at hfp
    obtain ⟨hact, hnot⟩ := mem_filter.mp hfp
    have hnm : ¬ (fp.btcPk ∈ old.finalityProviders.map (·.btcPk) ∧
      fp.btcPk.marshalHex ∈ names) := by
      rintro ⟨-, hmem⟩
      simp [shouldJail, hmem] at hnot
    rw [hrw.power, if_neg hnm]
    exact hs height old hchd fp hact

end Rewrites

end Finality

/-! ## Runs -/

variable {I : Type} {cfg : Config I} {c : Chain I}

/-- What holds of tables and caches in every reachable state. -/
structure PowerInv (c : Chain I) : Prop where
  keyed : c.btcStaking.ProvidersKeyed
  caches : c.finality.CachesWellFormed
  covered : c.finality.Covered
  table_le : ∀ height table, c.finality.votingPower.get height = some table →
    height ≤ c.header.height

/-- Steps that leave the tables alone and at most remove caches. -/
theorem PowerInv.of_kept {c' : Chain I} (inv : PowerInv c) (hk : c'.btcStaking.ProvidersKeyed)
    (hpow : c'.finality.votingPower = c.finality.votingPower)
    (hcaches : ∀ height dc, c'.finality.votingPowerDistCache.get height = some dc →
      c.finality.votingPowerDistCache.get height = some dc)
    (hhd : c'.header.height = c.header.height) : PowerInv c' where
  keyed := hk
  caches := fun height dc hget => inv.caches height dc (hcaches height dc hget)
  covered := by
    intro height dc pk hget
    unfold getVotingPower
    rw [hpow]
    exact inv.covered height dc pk (hcaches height dc hget)
  table_le := by
    rw [hpow, hhd]
    exact inv.table_le

theorem powerInv_genesis (h : Genesis cfg c) : PowerInv c := by
  obtain ⟨params, pairs, allowed, deleted, hbs, -⟩ := h.btcStaking_eq
  obtain ⟨fparams, -, hfin⟩ := h.finality
  refine ⟨?_, ?_, ?_, ?_⟩
  · intro pk fp hget
    rw [hbs] at hget
    cases hget
  · intro height dc hget
    rw [hfin] at hget
    cases hget
  · intro height dc pk hget
    rw [hfin] at hget
    cases hget
  · intro height table hget
    rw [hfin] at hget
    cases hget

variable {w : Stores I}

theorem PowerInv.records (inv : PowerInv c) {header : HeaderInfo}
    (h : c.Begins cfg header w) : ∃ dc, Records c.finality w.finality header.height dc := by
  have hk : (c.indexedStores cfg header).btcStaking.ProvidersKeyed := inv.keyed
  exact updatePowerDist_records hk inv.caches h

theorem PowerInv.table_none (inv : PowerInv c) {height : Nat} (h : c.header.height < height) :
    c.finality.votingPower.get height = none := by
  cases hget : c.finality.votingPower.get height with
  | none => rfl
  | some table => exact absurd (inv.table_le height table hget) (not_le.mpr h)

theorem PowerInv.beginBlock (inv : PowerInv c) {header : HeaderInfo}
    (hht : header.height = c.header.height + 1)
    (h : c.Begins cfg header w) : PowerInv { c with toStores := w, header, inBlock := true } := by
  obtain ⟨dc, hrec⟩ := inv.records h
  have hnone : c.finality.votingPower.get header.height = none := inv.table_none (by omega)
  refine ⟨?_, hrec.cachesWellFormed inv.caches, hrec.covered hnone inv.covered, ?_⟩
  · show w.btcStaking.ProvidersKeyed
    unfold BTCStaking.State.ProvidersKeyed
    rw [updatePowerDist_providers h]
    exact inv.keyed
  · intro height table hget
    show height ≤ header.height
    by_cases heq : height = header.height
    · exact heq.le
    · have := inv.table_le height table ((hrec.keeps heq).table ▸ hget)
      omega

/-- What an accepted proposal does to the heights. -/
theorem PowerInv.rewritesOrKeeps (inv : PowerInv c) {names : List HexString} {haltingHeight : Nat}
    (h : handleResumeFinalityProposal cfg.ext (c.env cfg) c.toStores names haltingHeight
      = .ok w) : RewritesOrKeeps names c.finality w.finality := by
  obtain ⟨hall, hoth⟩ := handleResumeFinalityProposal_rewrites inv.caches h
  intro height
  by_cases hin : haltingHeight ≤ height ∧ height ≤ (c.env cfg).header.height
  · exact .inr (hall height hin.1 hin.2)
  · exact .inl (hoth height hin)

theorem PowerInv.message (inv : PowerInv c) {msg : Msg} (h : c.Handles cfg msg w) :
    PowerInv { c with toStores := w } := by
  have hk : w.btcStaking.ProvidersKeyed := ((handle_staking h).providersEvolve inv.keyed).keyed
  rcases handle_tables h with ⟨hpow, hcaches⟩ | ⟨req, rfl, hrsm⟩
  · exact inv.of_kept hk hpow (fun _ _ hget => hcaches ▸ hget) rfl
  · have hrw := inv.rewritesOrKeeps hrsm
    refine ⟨hk, hrw.cachesWellFormed inv.caches, hrw.covered inv.caches inv.covered, ?_⟩
    intro height table hget
    by_contra hgt
    have hkeeps := (handleResumeFinalityProposal_rewrites inv.caches hrsm).2 height
      fun hin => hgt hin.2
    have hnone := inv.table_none (not_le.mp hgt)
    rw [← hkeeps.table, hget] at hnone
    cases hnone

/-- The end of a block leaves the tables alone and at most removes caches. -/
theorem endBlocker_tables (h : c.Ends cfg w) : w.finality.votingPower = c.finality.votingPower ∧
      ∀ height dc, w.finality.votingPowerDistCache.get height = some dc →
        c.finality.votingPowerDistCache.get height = some dc := by
  refine ⟨(endBlocker_keeps h).2.1, ?_⟩
  obtain ⟨_, -, ⟨_, _, _, _, hfin, hsub⟩, -⟩ := endBlocker_effect h
  rw [hfin]
  exact hsub

theorem PowerInv.endBlock (inv : PowerInv c) (h : c.Ends cfg w) :
    PowerInv { c with toStores := w, inBlock := false } := by
  obtain ⟨hpow, hsub⟩ := endBlocker_tables h
  have hch := changes_of_endBlocker h
  exact inv.of_kept (hch.providersEvolve inv.keyed).keyed hpow hsub rfl

theorem PowerInv.of_run {history : History I} (run : Run (chain cfg) history c) : PowerInv c := by
  refine run.invariant PowerInv (fun _ h => powerInv_genesis h) ?_ .trivial
  intro c l c' inv _ hstep
  cases stepped hstep with
  | beginBlock _ hht hw => exact inv.beginBlock hht hw
  | message _ hw => exact inv.message hw
  | rejected | headers | others | external =>
    exact inv.of_kept inv.keyed rfl (fun _ _ => id) rfl
  | endBlock _ hw => exact inv.endBlock hw

/-- What becomes active and inactive between two caches.  A proposal to resume finality only
makes jailed providers inactive, whose processing state is not looked at. -/
theorem active_set_deltas {history : History I} (run : Run (chain cfg) history c) :
    (∀ dc prevDc : VotingPowerDistCache, (dc.finalityProviders.map (·.btcPk)).Nodup →
      (prevDc.finalityProviders.map (·.btcPk)).Nodup →
      ((dc.findNewActiveFinalityProviders prevDc).map (·.btcPk)).Nodup ∧
      (∀ fp, fp ∈ dc.findNewActiveFinalityProviders prevDc ↔
        fp ∈ dc.getActiveFinalityProviderSet ∧ fp.btcPk ∉ prevDc.activeFpsByBtcPk) ∧
      ∀ pk ∈ prevDc.activeFpsByBtcPk, pk ∉ dc.activeFpsByBtcPk →
        ((dc.findNewInactiveFinalityProviders prevDc).map (·.btcPk)).count pk = 1) ∧
    ∀ height dc names, c.finality.votingPowerDistCache.get height = some dc →
      ∀ fp ∈ (rewriteCache names dc).findNewInactiveFinalityProviders dc,
        (fp.isJailed = true ∨ fp.isSlashed = true) ∧
          ∀ env w, processInactiveFp cfg.ext env none false w fp = .ok w := by
  refine ⟨fun dc prevDc hnodup hprev => ⟨nodup_findNewActive hnodup, fun fp => mem_findNewActive,
    fun pk hwas hnot => ?_⟩, fun height dc names hget fp hfp => ?_⟩
  · exact count_eq_one_of_mem (nodup_findNewInactive hnodup hprev)
      (mem_findNewInactive hprev hwas hnot)
  · have hwf := (PowerInv.of_run run).caches height dc hget
    have hjailed := (mem_findNewInactive_rewriteCache hwf hfp).2
    exact ⟨.inl hjailed, fun env w => processInactiveFp_of_jailed hjailed⟩

/-! ## Agreement of tables and caches -/

/-- An accepted proposal to resume finality names no active provider of a height it
rewrites, or leaves no eligible provider that could take its place. -/
def PromotesNobody (cfg : Config I) (c : Chain I) : Label I → Prop
  | .deliver (.resumeFinalityProposal req) =>
    ∀ w, resumeFinalityProposal cfg.ext (c.env cfg) c.toStores req = .ok w →
      ∀ height dc, req.haltingHeight ≤ height → height ≤ c.header.height →
        c.finality.getVotingPowerDistCache height = some dc →
        (∀ fp ∈ dc.getActiveFinalityProviderSet, fp.btcPk.marshalHex ∉ req.fpPksHex) ∨
          ∀ fp ∈ dc.getInactiveFinalityProviderSet, fp.eligible = true →
            fp.btcPk.marshalHex ∈ req.fpPksHex
  | _ => True

theorem promoted_eq_nil_of_promotesNobody {names : List HexString} {dc : VotingPowerDistCache}
    (h : (∀ fp ∈ dc.getActiveFinalityProviderSet, fp.btcPk.marshalHex ∉ names) ∨
      ∀ fp ∈ dc.getInactiveFinalityProviderSet, fp.eligible = true →
        fp.btcPk.marshalHex ∈ names) : promoted names dc = [] := by
  rw [promoted_eq_nil_iff]
  refine h.imp (fun hact fp hfp => decide_eq_false (hact fp hfp)) ?_
  intro hina fp hfp
  rw [remainsEligible]
  cases helig : fp.eligible with
  | false => rfl
  | true => simp [shouldJail, hina fp hfp helig]

theorem PowerInv.recorded_message (inv : PowerInv c) (hs : c.finality.Recorded) {msg : Msg}
    (hal : PromotesNobody cfg c (.deliver msg))
    (h : c.Handles cfg msg w) : w.finality.Recorded := by
  rcases handle_tables h with ⟨hpow, hcaches⟩ | ⟨req, rfl, hrsm⟩
  · intro height dc hget fp hfp
    rw [hcaches] at hget
    rw [getVotingPower, hpow]
    exact hs height dc hget fp hfp
  · obtain ⟨hall, hoth⟩ := handleResumeFinalityProposal_rewrites inv.caches hrsm
    have hhts : ∀ height, KeepsHeight c.finality w.finality height ∨
        ∃ dc, RewritesHeight req.fpPksHex c.finality w.finality height dc ∧
          promoted req.fpPksHex dc = [] := by
      intro height
      by_cases hin : req.haltingHeight ≤ height ∧ height ≤ (c.env cfg).header.height
      · obtain ⟨dc, hdc⟩ := hall height hin.1 hin.2
        exact .inr ⟨dc, hdc, promoted_eq_nil_of_promotesNobody
          (hal w h height dc hin.1 hin.2 hdc.cached)⟩
      · exact .inl (hoth height hin)
    exact hs.of_rewrites inv.caches hhts

theorem recorded_of_run {history : History I} (run : Run (chain cfg) history c)
    (hsteps : Steps (PromotesNobody cfg) history) : c.finality.Recorded := by
  refine run.historyInvariant (fun _ c => c.finality.Recorded) ?_ ?_ hsteps
  · intro c h
    obtain ⟨fparams, -, hfin⟩ := h.finality
    intro height dc hget
    rw [hfin] at hget
    cases hget
  · intro history c l c' run hs hal hstep
    have inv := PowerInv.of_run run
    cases stepped hstep with
    | beginBlock _ _ hw =>
      obtain ⟨dc, hrec⟩ := inv.records hw
      exact hrec.recorded hs
    | message _ hw => exact inv.recorded_message hs hal hw
    | rejected | headers | others | external => exact hs
    | @endBlock w _ hw =>
      obtain ⟨hpow, hsub⟩ := endBlocker_tables hw
      intro height dc hget fp hfp
      rw [getVotingPower, hpow]
      exact hs height dc (hsub height dc hget) fp hfp

/-- In a run in which no proposal promotes a provider, the table of a height and its cache
agree: a provider has voting power `p > 0` if and only if it is among the first
`NumActiveFps` providers of the cache with `p` sats, and `TotalVotingPower` is the sum of
the table. -/
theorem power_table_agrees_with_cache {history : History I}
    (run : Run (chain cfg) history c) (hsteps : Steps (PromotesNobody cfg) history)
    {height : Nat} {dc : VotingPowerDistCache}
    (hcache : c.finality.getVotingPowerDistCache height = some dc) :
    (∀ pk p, 0 < p → (c.finality.getVotingPower pk height = p ↔
      ∃ fp ∈ dc.finalityProviders.take dc.numActiveFps, fp.btcPk = pk ∧ fp.totalBondedSat = p)) ∧
    dc.totalVotingPower = (c.finality.votingPower.under height).sumBy (fun _ power => power) := by
  have inv := PowerInv.of_run run
  have hs := recorded_of_run run hsteps
  have hget := get_of_getVotingPowerDistCache hcache
  have hwf := inv.caches height dc hget
  have hagree : ∀ pk p, 0 < p → (c.finality.getVotingPower pk height = p ↔
      ∃ fp ∈ dc.getActiveFinalityProviderSet, fp.btcPk = pk ∧ fp.totalBondedSat = p) := by
    intro pk p hpos
    constructor
    · rintro rfl
      exact inv.covered height dc pk hget hpos.ne'
    · rintro ⟨fp, hfp, rfl, rfl⟩
      exact hs height dc hget fp hfp
  refine ⟨hagree, ?_⟩
  -- the table has exactly the active providers as positive entries
  let items := dc.getActiveFinalityProviderSet.map fun fp => (fp.btcPk, fp.totalBondedSat)
  have hitems : ∀ pk p, (pk, p) ∈ items ↔
      ∃ fp ∈ dc.getActiveFinalityProviderSet, fp.btcPk = pk ∧ fp.totalBondedSat = p := by
    intro pk p
    simp only [items, mem_map, Prod.mk.injEq]
  have hsum : (c.finality.votingPower.under height).sumBy (fun _ power => power)
      = (items.map Prod.snd).sum := by
    refine sumBy_eq_sum ?_ ?_ ?_
    · rw [map_map]
      exact hwf.nodup.sublist ((take_sublist _ _).map _)
    · rintro ⟨pk, p⟩ hmem
      obtain ⟨fp, hfp, rfl, rfl⟩ := (hitems pk p).mp hmem
      exact Nat.pos_of_ne_zero ((FinalityProviderDistInfo.eligible_iff fp).mp
        (hwf.eligible fp hfp)).1
    · intro pk p hpos
      rw [hitems, ← hagree pk p hpos, getVotingPower]
      cases (c.finality.votingPower.under height).get pk with
      | none => simp [hpos.ne]
      | some power => simp
  rw [hwf.total, hsum, map_map]
  rfl

/-! ## A promoted provider -/

/-- Two providers with 100 and 50 sats, of which one can be active. -/
def twoProvidersBlock : List (Label Unit) :=
  block 1 (registerFp 0 ++ registerFp 1 ++
    delegate 0 (stakingTx 1 100) 100 ++ delegate 1 (stakingTx 2 50) 50)

/-- A Bitcoin chain with their staking transactions. -/
def twoProvidersLightClient : BTCLightClient :=
  lightClient 10 [(blockRoot (stakingTx 1 100), 5), (blockRoot (stakingTx 2 50), 6)]

/-- A proposal that names the provider with key 0. -/
def resumeProposal (haltingHeight : Nat) : Label Unit :=
  .deliver (.resumeFinalityProposal ⟨0, [(0 : BIP340PubKey).marshalHex], haltingHeight⟩)

theorem promotesNobody_of_noResume {l : Label I} (h : l.noResume = true) :
    PromotesNobody cfg c l := by
  cases l with
  | deliver msg => cases msg <;> trivial
  | _ => trivial

/-- Without proposals, the table and the cache of height 2 agree. -/
theorem power_table_agrees_without_proposals :
    ∃ (c : Chain Unit) (dc : VotingPowerDistCache),
      c.finality.getVotingPowerDistCache 2 = some dc ∧ c.finality.getVotingPower 0 2 = 100 ∧
      (c.finality.getVotingPower 0 2 = 100 ↔
        ∃ fp ∈ dc.finalityProviders.take dc.numActiveFps,
          fp.btcPk = 0 ∧ fp.totalBondedSat = 100) := by
  obtain ⟨history, c, run, hsteps, dc, hdc, hpower⟩ := of_labels
    (Q := fun _ l => l.noResume = true)
    (P := fun c => ∃ dc, c.finality.getVotingPowerDistCache 2 = some dc ∧
      c.finality.getVotingPower 0 2 = 100)
    (finalityParams 1 3 1) twoProvidersLightClient
    (twoProvidersBlock ++ [.beginBlock (Devnet.header 2)]) (by decide +kernel)
  exact ⟨c, dc, hdc, hpower, (power_table_agrees_with_cache run
    (hsteps.mono fun _ _ => promotesNobody_of_noResume) hdc).1 0 100 (by norm_num)⟩

/-- The active provider that a proposal would name becomes inactive, jailed. -/
theorem named_provider_becomes_inactive :
    ∃ (c : Chain Unit) (dc : VotingPowerDistCache) (fp : FinalityProviderDistInfo),
      c.finality.votingPowerDistCache.get 2 = some dc ∧
      fp ∈ (rewriteCache [(0 : BIP340PubKey).marshalHex] dc).findNewInactiveFinalityProviders dc ∧
      (fp.isJailed = true ∨ fp.isSlashed = true) := by
  obtain ⟨history, c, run, dc, hdc, hne⟩ := reaching
    (P := fun c => ∃ dc, c.finality.votingPowerDistCache.get 2 = some dc ∧
      (rewriteCache [(0 : BIP340PubKey).marshalHex] dc).findNewInactiveFinalityProviders dc ≠ [])
    (finalityParams 1 3 1) twoProvidersLightClient
    (twoProvidersBlock ++ [.beginBlock (Devnet.header 2)]) (by decide +kernel)
  obtain ⟨fp, hfp⟩ := exists_mem_of_ne_nil _ hne
  exact ⟨c, dc, fp, hdc, hfp, ((active_set_deltas run).2 2 dc _ hdc fp hfp).1⟩

/-- A proposal names the only active provider.  The other one becomes active in the cache
of height 2, with 50 sats, and has no voting power at height 2. -/
theorem promoted_provider_without_power :
    ∃ history c dc, Run (chain config) history c ∧
      c.finality.getVotingPowerDistCache 2 = some dc ∧
      (∃ fp ∈ dc.finalityProviders.take dc.numActiveFps, fp.btcPk = 1 ∧ fp.totalBondedSat = 50) ∧
      c.finality.getVotingPower 1 2 = 0 := by
  simp only [exists_and_left]
  exact reaching (finalityParams 1 3 1) twoProvidersLightClient
    (twoProvidersBlock ++ [.beginBlock (Devnet.header 2), resumeProposal 2]) (by decide +kernel)

end Babylon
