/-
  What the distribution cache knows about the status of providers.

  The flags of a cache lag behind those of the store by the events that are still
  pending.  Processing the events gives every provider of the next cache the flag
  it has in the store, and leaves no slashed provider in the cache.
-/
import Babylon.BTCStaking.Status
import Babylon.Finality.Effects
import Babylon.Finality.Processing

set_option autoImplicit false

namespace Babylon.Finality

open Lib BTCStaking FinalityProviderDistInfo List

variable {bs : BTCStaking.State} {dc : VotingPowerDistCache} {ps : ProcessingState}

/-! ## Flags -/

/-- The flag of a provider after it has been labelled with a state. -/
def jailedAfter (state : Option FinalityProviderState) (flag : Bool) : Bool :=
  match state with
  | some .jailed => true
  | some .unjailed => false
  | _ => flag

theorem FinalityProviderDistInfo.withState_isJailed (fp : FinalityProviderDistInfo)
    (state : Option FinalityProviderState) :
    (fp.withState state).isJailed = jailedAfter state fp.isJailed := by
  cases state with
  | none => rfl
  | some state => cases state <;> rfl

section

variable (pk : BIP340PubKey) (initial : Option FinalityProviderState)
  (events : List EventPowerDistUpdate)

/-- Only the events about a provider matter for it. -/
theorem jailState_eventsAbout :
    jailState pk initial (eventsAbout pk events) = jailState pk initial events := by
  unfold jailState eventsAbout
  induction events generalizing initial with
  | nil => rfl
  | cons event rest ih =>
    by_cases habout : event.provider = some pk
    · rw [filter_cons_of_pos (by simpa using habout)]
      exact ih _
    · rw [filter_cons_of_neg (by simpa using habout), ih]
      have hstep : jailStep pk initial event = initial := by
        cases event with
        | btcDelStateUpdate hash newState => rfl
        | slashedFp other => rfl
        | jailedFp other | unjailedFp other => exact if_neg fun heq => habout (by rw [← heq]; rfl)
      rw [foldl_cons, hstep]

/-- The last event about a provider counts, whatever was known before. -/
theorem jailState_initial :
    jailState pk initial events = (jailState pk none events).or initial := by
  have hfold : ∀ state, events.foldl (jailStep pk) (state.or initial)
      = (events.foldl (jailStep pk) state).or initial := by
    induction events with
    | nil => exact fun _ => rfl
    | cons event rest ih =>
      intro state
      have hstep : jailStep pk (state.or initial) event = (jailStep pk state event).or initial := by
        cases event with
        | btcDelStateUpdate hash newState => rfl
        | slashedFp other => rfl
        | jailedFp other | unjailedFp other =>
          simp only [jailStep]
          split <;> rfl
      rw [foldl_cons, foldl_cons, hstep, ih]
  exact hfold none

end

theorem jailState_append (pk : BIP340PubKey) (xs ys : List EventPowerDistUpdate) :
    jailState pk none (xs ++ ys) = jailState pk (jailState pk none xs) ys :=
  foldl_append

/-! ## Labelled caches -/

/-- The flags of a cache together with the pending events about each provider give the flags
of the store. -/
structure Labelled (bs : BTCStaking.State) (dc : VotingPowerDistCache)
    (news : BIP340PubKey → List EventPowerDistUpdate) : Prop where
  known : ∀ info ∈ dc.finalityProviders, ∃ fp, bs.finalityProviders.get info.btcPk = some fp
  unslashed : ∀ info ∈ dc.finalityProviders, info.isSlashed = false
  fresh : ∀ pk, bs.finalityProviders.get pk = none → news pk = []
  slashed : ∀ info ∈ dc.finalityProviders, ∀ fp,
    bs.finalityProviders.get info.btcPk = some fp → fp.isSlashed = true →
    .slashedFp info.btcPk ∈ news info.btcPk
  cached : ∀ info ∈ dc.finalityProviders, ∀ fp,
    bs.finalityProviders.get info.btcPk = some fp → fp.isSlashed = false →
    jailedAfter (jailState info.btcPk none (news info.btcPk)) info.isJailed = fp.jailed
  stored : ∀ pk fp, bs.finalityProviders.get pk = some fp → fp.isSlashed = false →
    jailedAfter (jailState pk none (news pk)) fp.jailed = fp.jailed

variable {env : BTCStaking.Env}

namespace Labelled

variable {news news' : BIP340PubKey → List EventPowerDistUpdate}

/-- The last event about a provider is the one it was moved by. -/
theorem jailedAfter_moves {fp fp' : FinalityProvider}
    {event : EventPowerDistUpdate} (hht : 0 < env.header.height) (hmoves : Moves env fp event fp')
    (hnot : fp'.isSlashed = false) (state : Option FinalityProviderState) (flag : Bool) :
    jailedAfter (jailStep fp.btcPk state event) flag = fp'.jailed := by
  cases hmoves with
  | slash slashed jailed => simp [FinalityProvider.isSlashed, slashed, hht.ne'] at hnot
  | jail slashed jailed | unjail slashed jailed => rw [jailed, jailStep, if_pos rfl, jailedAfter]

/-- Changes of the store that queue their events keep a cache labelled. -/
theorem change {t : BTCStaking.State} (h : Labelled bs dc news)
    (hk : bs.ProvidersKeyed) (hht : 0 < env.header.height) (hchg : ∀ pk, StatusChange env pk bs t)
    (hnews : ∀ pk extra, (∀ height, t.providerEvents pk height = bs.providerEvents pk height
      ++ if height = env.lc.tipHeight then extra else []) → news' pk = news pk ++ extra) :
    Labelled t dc news' := by
  -- one provider before and after the change
  have hone : ∀ pk fp', t.finalityProviders.get pk = some fp' →
      (news' pk = news pk ∧ ∀ fp, bs.finalityProviders.get pk = some fp →
        fp'.isSlashed = fp.isSlashed ∧ fp'.jailed = fp.jailed) ∨
      ∃ fp event, fp.btcPk = pk ∧ Moves env fp event fp' ∧ news' pk = news pk ++ [event] := by
    intro pk fp' hfp'
    cases hchg pk with
    | kept provider events =>
      refine .inl ⟨by rw [hnews pk [] fun height => by rw [events]; simp, append_nil], ?_⟩
      intro fp hfp
      obtain ⟨other, ho, hflags⟩ := provider fp hfp
      obtain rfl := Option.some.inj (hfp'.symm.trans ho)
      exact hflags
    | @moved fp next event stored notSlashed moves hnext events =>
      obtain rfl := Option.some.inj (hfp'.symm.trans hnext)
      exact .inr ⟨fp, event, hk pk fp stored, moves, hnews pk [event] events⟩
  refine ⟨?_, h.unslashed, ?_, ?_, ?_, ?_⟩
  · intro info hinfo
    obtain ⟨fp, hfp⟩ := h.known info hinfo
    cases hchg info.btcPk with
    | kept provider events =>
      obtain ⟨fp', hfp', -⟩ := provider fp hfp
      exact ⟨fp', hfp'⟩
    | moved stored notSlashed moves next events => exact ⟨_, next⟩
  · intro pk hnone
    cases hchg pk with
    | kept provider events =>
      rw [hnews pk [] fun height => by rw [events]; simp, append_nil]
      refine h.fresh pk ?_
      cases hfp : bs.finalityProviders.get pk with
      | none => rfl
      | some fp =>
        obtain ⟨fp', hfp', -⟩ := provider fp hfp
        rw [hnone] at hfp'
        cases hfp'
    | moved stored notSlashed moves next events =>
      rw [hnone] at next
      cases next
  · intro info hinfo fp' hfp' hsl
    rcases hone info.btcPk fp' hfp' with ⟨hnew, hflags⟩ | ⟨fp, event, hkey, hmoves, hnew⟩
    · obtain ⟨fp, hfp⟩ := h.known info hinfo
      rw [hnew]
      exact h.slashed info hinfo fp hfp ((hflags fp hfp).1 ▸ hsl)
    · rw [hnew]
      refine mem_append_right _ ?_
      cases hmoves with
      | slash slashed jailed =>
        rw [hkey]
        exact mem_singleton_self _
      | jail slashed jailed | unjail slashed jailed =>
        rw [hsl] at slashed
        cases slashed
  · intro info hinfo fp' hfp' hsl
    rcases hone info.btcPk fp' hfp' with ⟨hnew, hflags⟩ | ⟨fp, event, hkey, hmoves, hnew⟩
    · obtain ⟨fp, hfp⟩ := h.known info hinfo
      rw [hnew, (hflags fp hfp).2]
      exact h.cached info hinfo fp hfp ((hflags fp hfp).1 ▸ hsl)
    · rw [hnew, jailState_append, ← hkey]
      exact jailedAfter_moves hht hmoves hsl _ _
  · intro pk fp' hfp' hsl
    rcases hone pk fp' hfp' with ⟨hnew, hflags⟩ | ⟨fp, event, hkey, hmoves, hnew⟩
    · rw [hnew]
      cases hfp : bs.finalityProviders.get pk with
      | none =>
        rw [h.fresh pk hfp]
        rfl
      | some fp =>
        rw [(hflags fp hfp).2]
        exact h.stored pk fp hfp ((hflags fp hfp).1 ▸ hsl)
    · rw [hnew, jailState_append, ← hkey]
      exact jailedAfter_moves hht hmoves hsl _ _

/-- Labelling entries anew: an entry may be marked as jailed if its provider is jailed. -/
theorem relabel {dc' : VotingPowerDistCache} (h : Labelled bs dc news)
    {f : FinalityProviderDistInfo → FinalityProviderDistInfo}
    (hperm : dc'.finalityProviders.Perm (dc.finalityProviders.map f))
    (hkey : ∀ info, (f info).btcPk = info.btcPk)
    (hsl : ∀ info, (f info).isSlashed = info.isSlashed)
    (hj : ∀ info ∈ dc.finalityProviders, (f info).isJailed = info.isJailed ∨
      (f info).isJailed = true ∧ ∀ fp, bs.finalityProviders.get info.btcPk = some fp →
        fp.isSlashed = false → fp.jailed = true) : Labelled bs dc' news := by
  have hent : ∀ info' ∈ dc'.finalityProviders,
      ∃ info ∈ dc.finalityProviders, f info = info' := by
    intro info' hmem
    exact mem_map.mp (hperm.mem_iff.mp hmem)
  refine ⟨?_, ?_, h.fresh, ?_, ?_, h.stored⟩
  · intro info' hmem
    obtain ⟨info, hinfo, rfl⟩ := hent info' hmem
    rw [hkey]
    exact h.known info hinfo
  · intro info' hmem
    obtain ⟨info, hinfo, rfl⟩ := hent info' hmem
    rw [hsl]
    exact h.unslashed info hinfo
  · intro info' hmem
    obtain ⟨info, hinfo, rfl⟩ := hent info' hmem
    rw [hkey]
    exact h.slashed info hinfo
  · intro info' hmem fp hfp hnot
    obtain ⟨info, hinfo, rfl⟩ := hent info' hmem
    rw [hkey] at hfp ⊢
    have hold := h.cached info hinfo fp hfp hnot
    rcases hj info hinfo with hsame | ⟨htrue, hall⟩
    · rw [hsame]
      exact hold
    · rw [htrue, ← hold]
      rw [hall fp hfp hnot] at hold
      unfold jailedAfter at hold ⊢
      split at hold
      · rfl
      · cases hold
      · exact hold.symm

/-- The providers of the next cache are not slashed and have the flags of the store. -/
theorem of_next {events : List EventPowerDistUpdate}
    (h : Labelled bs dc fun pk => eventsAbout pk events) (hk : bs.ProvidersKeyed)
    (hnd : (dc.finalityProviders.map (·.btcPk)).Nodup)
    (hsts : ∀ pk, ps.fpStatesByBtcPk.get pk = if .slashedFp pk ∈ events then some .slashed
      else jailState pk ((cachedStates dc).get pk) events) {info : FinalityProviderDistInfo}
    (hinfo : info ∈ nextFps bs ps dc) :
    ∃ fp, bs.finalityProviders.get info.btcPk = some fp ∧ fp.isSlashed = false ∧
      info.isSlashed = false ∧ info.isJailed = fp.jailed := by
  obtain ⟨hin, hout⟩ := get_cachedStates h.unslashed hnd
  -- a provider that does not count as slashed has no SLASHED event
  have hnone : ∀ pk, ps.fpStatesByBtcPk.get pk ≠ some .slashed → .slashedFp pk ∉ events := by
    intro pk hstate hmem
    rw [hsts, if_pos hmem] at hstate
    exact hstate rfl
  rcases mem_nextFps.mp hinfo with ⟨old, hold, hupd⟩ | ⟨pk, hnew, hstate, hadd⟩
  · rw [updatedFp_key hupd]
    obtain ⟨hstate, -, rfl⟩ := updatedFp_eq_some_iff.mp hupd
    obtain ⟨fp, hfp⟩ := h.known old hold
    have hnoEvent := hnone _ hstate
    have hnot : fp.isSlashed = false := by
      refine Bool.eq_false_iff.mpr fun hsl => hnoEvent ?_
      exact (mem_eventsAbout.mp (h.slashed old hold fp hfp hsl)).1
    have hchd := h.cached old hold fp hfp hnot
    rw [jailState_eventsAbout] at hchd
    refine ⟨fp, hfp, hnot, ?_, ?_⟩
    · simpa using h.unslashed old hold
    · rw [← hchd]
      refine (withState_isJailed old _).trans ?_
      rw [hsts, if_neg hnoEvent, jailState_initial, hin old hold]
      cases hlast : jailState old.btcPk none events with
      | some state => rfl
      | none => cases old.isJailed <;> rfl
  · rw [newFp_key hk hadd]
    obtain ⟨fp, hfp, hnot, -, rfl⟩ := newFp_eq_some_iff.mp hadd
    have hsto := h.stored pk fp hfp hnot
    rw [jailState_eventsAbout] at hsto
    refine ⟨fp, hfp, hnot, ?_, ?_⟩
    · simpa [new] using hnot
    · refine (withState_isJailed _ _).trans ?_
      rw [hsts, if_neg (hnone pk hstate), jailState_initial, hout pk hnew, Option.or_none]
      exact hsto

end Labelled

/-! ## Pending events -/

/-- All events about providers are due at the next block, and with them the cache is
labelled. -/
structure Tracks (processed tip : Nat) (bs : BTCStaking.State) (dc : VotingPowerDistCache) :
    Prop where
  processed_le : processed ≤ tip
  located : ∀ pk height, bs.providerEvents pk height ≠ [] → processed ≤ height ∧ height ≤ tip
  labelled : Labelled bs dc fun pk => eventsAbout pk (bs.eventsIn (btcHeightRange processed tip))

namespace Tracks

variable {processed tip : Nat}

/-- The tip is the last height that is processed. -/
theorem eventsAbout_window (pk : BIP340PubKey) (hle : processed ≤ tip) :
    eventsAbout pk (bs.eventsIn (btcHeightRange processed tip))
      = (range' processed (tip - processed)).flatMap (bs.providerEvents pk)
        ++ bs.providerEvents pk tip := by
  have hrng : btcHeightRange processed tip = range' processed (tip - processed) ++ [tip] := by
    have hcnt : tip + 1 - processed = (tip - processed) + 1 := by omega
    rw [btcHeightRange, hcnt, range'_concat, Nat.one_mul]
    congr 2
    omega
  rw [eventsAbout_eventsIn, hrng, flatMap_append, flatMap_singleton]

theorem change {prim : BtcPrimitives} {t : BTCStaking.State}
    {requests : BTCStaking.State → Request → Prop} (h : Tracks processed env.lc.tipHeight bs dc)
    (hk : bs.ProvidersKeyed) (hht : 0 < env.header.height)
    (hchg : Change prim env requests bs t) : Tracks processed env.lc.tipHeight t dc := by
  have hst := hchg.status hk
  refine ⟨h.processed_le, ?_, ?_⟩
  · intro pk height hne
    by_cases hold : bs.providerEvents pk height = []
    · have htip : height = env.lc.tipHeight := by
        by_contra ho
        cases hst pk with
        | kept provider events => exact hne (by rw [events, hold])
        | moved stored notSlashed moves next events =>
          exact hne (by rw [events, hold, if_neg ho]; rfl)
      rw [htip]
      exact ⟨h.processed_le, le_refl _⟩
    · exact h.located pk height hold
  · refine h.labelled.change hk hht hst ?_
    intro pk extra hextra
    rw [eventsAbout_window pk h.processed_le, eventsAbout_window pk h.processed_le, hextra,
      if_pos rfl, ← append_assoc]
    congr 2
    refine flatMap_congr fun height hmem => ?_
    have hlt := mem_range'_1.mp hmem
    rw [hextra, if_neg (by omega), append_nil]

/-- A higher tip brings no events. -/
theorem mono (h : Tracks processed tip bs dc) {tip' : Nat} (hle : tip ≤ tip') :
    Tracks processed tip' bs dc := by
  have hsame : ∀ pk, eventsAbout pk (bs.eventsIn (btcHeightRange processed tip'))
      = eventsAbout pk (bs.eventsIn (btcHeightRange processed tip)) := by
    intro pk
    have hsplit : btcHeightRange processed tip'
        = btcHeightRange processed tip ++ range' (tip + 1) (tip' - tip) := by
      have hle' := h.processed_le
      have hcnt : tip' + 1 - processed = (tip + 1 - processed) + (tip' - tip) := by omega
      rw [btcHeightRange, btcHeightRange, hcnt, ← range'_append_1]
      congr 2
      omega
    rw [eventsAbout_eventsIn, eventsAbout_eventsIn, hsplit, flatMap_append]
    refine (congrArg _ ?_).trans (append_nil _)
    refine flatMap_eq_nil_iff.mpr fun height hmem => ?_
    by_contra hne
    have hbelow := (h.located pk height hne).2
    have habove := (mem_range'_1.mp hmem).1
    omega
  refine ⟨h.processed_le.trans hle, ?_, ?_⟩
  · intro pk height hne
    obtain ⟨hlow, hhigh⟩ := h.located pk height hne
    exact ⟨hlow, hhigh.trans hle⟩
  · simp only [hsame]
    exact h.labelled

end Tracks

section Update

variable {I : Type} {ext : External I} {env : Env} {w w' : Stores I}

/-- The cache that `UpdatePowerDist` records has the flags of the store. -/
theorem updatePowerDist_labelled (hk : w.btcStaking.ProvidersKeyed)
    (hnd : ((previousCache env w.finality).finalityProviders.map (·.btcPk)).Nodup)
    (hlab : Labelled w.btcStaking (previousCache env w.finality) fun pk =>
      eventsAbout pk (w.btcStaking.eventsIn (eventWindow env w.btcStaking)))
    (h : updatePowerDist ext env w = .ok w') :
    ∃ dc, w'.finality.votingPowerDistCache.get env.header.height = some dc ∧
      ∀ info ∈ dc.finalityProviders, ∃ fp,
        w.btcStaking.finalityProviders.get info.btcPk = some fp ∧ fp.isSlashed = false ∧
          info.isSlashed = false ∧ info.isJailed = fp.jailed := by
  obtain ⟨newDc, state, hpr, ⟨tracker, bitmap, hfin⟩, -⟩ := updatePowerDist_ok h
  obtain ⟨ps, hps, -, rfl, -⟩ := (processAllPowerDistUpdateEvents_ok_iff hnd).mp hpr
  rw [State.recordVotingPowerAndCache_fst] at hfin
  refine ⟨_, by rw [hfin]; exact KVStore.get_set_self _ _ _, ?_⟩
  intro info hinfo
  obtain ⟨old, hold, rfl⟩ := mem_map.mp (VotingPowerDistCache.applyActive_perm.mem_iff.mp hinfo)
  obtain ⟨fp, hfp, hnot, hsl, hj⟩ := hlab.of_next hk hnd
    (processed_of_processAllEvents hps).states hold
  exact ⟨fp, hfp, hnot, hsl, hj⟩

end Update

end Babylon.Finality
