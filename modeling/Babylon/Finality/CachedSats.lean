/-
  The sats of providers in a distribution cache.

  A cache is funded if the sats of every provider in it are what its delegations
  have added less what they have subtracted.  Processing the pending events of a
  lawful ledger never fails on a funded cache, and the next cache is funded with
  the new counts.
-/
import Babylon.BTCStaking.Reports
import Babylon.Finality.Processing

set_option autoImplicit false

namespace Babylon.Finality

open Lib BTCStaking KVStore FinalityProviderDistInfo List

/-! ## Sats of a provider -/

/-- The sats of a provider in a list of entries, 0 if it is absent. -/
def satsIn (fps : List FinalityProviderDistInfo) (pk : BIP340PubKey) : Nat :=
  (fps.map fun fp => if fp.btcPk = pk then fp.totalBondedSat else 0).sum

variable {fps : List FinalityProviderDistInfo} {pk : BIP340PubKey}

theorem satsIn_eq_zero (h : pk ∉ fps.map (·.btcPk)) : satsIn fps pk = 0 := by
  refine sum_eq_zero fun x hx => ?_
  obtain ⟨fp, hfp, rfl⟩ := mem_map.mp hx
  exact if_neg fun heq => h (mem_map.mpr ⟨fp, hfp, heq⟩)

theorem satsIn_of_mem (hnd : (fps.map (·.btcPk)).Nodup) {fp : FinalityProviderDistInfo}
    (hfp : fp ∈ fps) : satsIn fps fp.btcPk = fp.totalBondedSat := by
  induction fps with
  | nil => cases hfp
  | cons first rest ih =>
    obtain ⟨hfirst, hrest⟩ := nodup_cons.mp hnd
    show (if first.btcPk = fp.btcPk then first.totalBondedSat else 0) + satsIn rest fp.btcPk = _
    rcases mem_cons.mp hfp with rfl | hmem
    · rw [if_pos rfl, satsIn_eq_zero hfirst, Nat.add_zero]
    · have hne : first.btcPk ≠ fp.btcPk := fun heq =>
        hfirst (mem_map.mpr ⟨fp, hmem, heq.symm⟩)
      rw [if_neg hne, ih hrest hmem, Nat.zero_add]

/-- The bonded sats of a provider in a cache, 0 if it is absent. -/
def VotingPowerDistCache.bondedSat (dc : VotingPowerDistCache) (pk : BIP340PubKey) : Nat :=
  ((dc.finalityProviders.find? fun fp => fp.btcPk = pk).map (·.totalBondedSat)).getD 0

theorem VotingPowerDistCache.bondedSat_eq_satsIn {dc : VotingPowerDistCache}
    (hnd : (dc.finalityProviders.map (·.btcPk)).Nodup) (pk : BIP340PubKey) :
    dc.bondedSat pk = satsIn dc.finalityProviders pk := by
  unfold bondedSat
  cases hfind : dc.finalityProviders.find? fun fp => fp.btcPk = pk with
  | none =>
    refine (satsIn_eq_zero fun hmem => ?_).symm
    obtain ⟨fp, hfp, hkey⟩ := mem_map.mp hmem
    exact absurd (find?_eq_none.mp hfind fp hfp) (by simp [hkey])
  | some fp =>
    have hkey : fp.btcPk = pk := by simpa using find?_some hfind
    rw [Option.map_some, Option.getD_some, ← hkey, satsIn_of_mem hnd (mem_of_find?_eq_some hfind)]

/-! ## Funded caches -/

variable {bs : BTCStaking.State} {dc : VotingPowerDistCache} {added subtracted : ChainHash → Nat}
  {prim : BtcPrimitives} {strict : Prop} {lastBTCTip curBTCTip : Nat}

/-- What the delegations to a provider have moved, given how often each was counted. -/
def movedSats (bs : BTCStaking.State) (times : ChainHash → Nat) (pk : BIP340PubKey) : Nat :=
  bs.btcDelegations.sumBy fun hash d => times hash * d.satsTo pk

theorem movedSats_add (bs : BTCStaking.State) (times more : ChainHash → Nat) (pk : BIP340PubKey) :
    movedSats bs (fun hash => times hash + more hash) pk
      = movedSats bs times pk + movedSats bs more pk := by
  unfold movedSats
  rw [← sumBy_add]
  exact sumBy_congr fun hash d _ => Nat.add_mul _ _ _

/-- Nobody has slashed a provider with this key. -/
def NotSlashed (bs : BTCStaking.State) (pk : BIP340PubKey) : Prop :=
  ∀ fp, bs.finalityProviders.get pk = some fp → fp.isSlashed = false

/-- The sats of every provider that is not slashed are those of its delegations, and the
providers of the cache are known. -/
structure Funded (bs : BTCStaking.State) (added subtracted : ChainHash → Nat)
    (dc : VotingPowerDistCache) : Prop where
  nodup : (dc.finalityProviders.map (·.btcPk)).Nodup
  sats : ∀ pk, NotSlashed bs pk →
    satsIn dc.finalityProviders pk + movedSats bs subtracted pk = movedSats bs added pk
  known : ∀ info ∈ dc.finalityProviders, ∃ fp, bs.finalityProviders.get info.btcPk = some fp ∧
    (fp.isSlashed = true → 0 < bs.pending (.slashedFp info.btcPk))
  unslashed : ∀ info ∈ dc.finalityProviders, info.isSlashed = false

theorem notSlashed_of_get {fp : FinalityProvider} (hfp : bs.finalityProviders.get pk = some fp)
    (hsl : fp.isSlashed = false) :
    NotSlashed bs pk := by
  intro fp' hfp'
  rw [hfp, Option.some.injEq] at hfp'
  rw [← hfp', hsl]

theorem jailState_ne_slashed {initial : Option FinalityProviderState} (h : initial ≠ some .slashed)
    (events : List EventPowerDistUpdate) :
    jailState pk initial events ≠ some .slashed := by
  induction events generalizing initial with
  | nil => exact h
  | cons event rest ih =>
    refine ih ?_
    cases event with
    | btcDelStateUpdate hash newState => exact h
    | slashedFp other => exact h
    | jailedFp other | unjailedFp other =>
      rw [jailStep]
      split
      · simp
      · exact h

theorem mem_btcHeightRange {height : Nat} (hle : lastBTCTip ≤ curBTCTip) :
    height ∈ btcHeightRange lastBTCTip curBTCTip ↔ lastBTCTip ≤ height ∧ height ≤ curBTCTip := by
  rw [btcHeightRange, mem_range'_1]
  omega

theorem nodup_btcHeightRange (last current : Nat) : (btcHeightRange last current).Nodup :=
  nodup_range'

variable {label : FinalityProviderDistInfo → FinalityProviderDistInfo}

/-- A relabelled cache is funded as before. -/
theorem Funded.relabel (hfunded : Funded bs added subtracted dc) {dc' : VotingPowerDistCache}
    (hperm : dc'.finalityProviders.Perm (dc.finalityProviders.map label))
    (hkey : ∀ fp, (label fp).btcPk = fp.btcPk)
    (hsats : ∀ fp, (label fp).totalBondedSat = fp.totalBondedSat)
    (hflag : ∀ fp, (label fp).isSlashed = fp.isSlashed) : Funded bs added subtracted dc' where
  nodup := by
    rw [(hperm.map _).nodup_iff, map_map]
    have hsame : ((·.btcPk) ∘ label : FinalityProviderDistInfo → BIP340PubKey) = (·.btcPk) :=
      funext hkey
    rw [hsame]
    exact hfunded.nodup
  sats := by
    intro pk hsl
    have hsame : satsIn dc'.finalityProviders pk = satsIn dc.finalityProviders pk := by
      rw [satsIn, (hperm.map _).sum_eq]
      simp only [satsIn, map_map, Function.comp_def, hkey, hsats]
    rw [hsame]
    exact hfunded.sats pk hsl
  known := by
    intro info hinfo
    obtain ⟨fp, hfp, rfl⟩ := mem_map.mp (hperm.mem_iff.mp hinfo)
    rw [hkey]
    exact hfunded.known fp hfp
  unslashed := by
    intro info hinfo
    obtain ⟨fp, hfp, rfl⟩ := mem_map.mp (hperm.mem_iff.mp hinfo)
    rw [hflag]
    exact hfunded.unslashed fp hfp

section Window

variable (hledger : Ledger prim strict lastBTCTip curBTCTip added subtracted bs)

include hledger

theorem mem_eventsIn_of_pending {event : EventPowerDistUpdate} {height : Nat}
    (hmem : event ∈ bs.eventsAt height) (ho : ∀ hash, event ≠ .btcDelStateUpdate hash .expired) :
    event ∈ bs.eventsIn (btcHeightRange lastBTCTip curBTCTip) := by
  refine mem_flatMap.mpr ⟨height, (mem_btcHeightRange hledger.processed_le).mpr ?_, hmem⟩
  have hat := hledger.located height event hmem
  cases event with
  | btcDelStateUpdate hash newState =>
    obtain ⟨d, -, hrng⟩ := hat
    split at hrng
    case isTrue hexpd => exact absurd (by rw [hexpd]) (ho hash)
    case isFalse => exact hrng
  | slashedFp pk => exact hat.2
  | jailedFp pk => exact hat
  | unjailedFp pk => exact hat

theorem stored_of_mem_eventsIn {event : EventPowerDistUpdate} {heights : List Nat}
    (hmem : event ∈ bs.eventsIn heights) : Stored bs event := by
  obtain ⟨height, -, hev⟩ := mem_flatMap.mp hmem
  have hat := hledger.located height event hev
  cases event with
  | btcDelStateUpdate hash newState =>
    obtain ⟨d, hd, -⟩ := hat
    exact ⟨d, hd⟩
  | slashedFp pk | jailedFp pk | unjailedFp pk => trivial

variable (hfunded : Funded bs added subtracted dc) {ps : ProcessingState}
  (hprocessed : Processed bs dc (bs.eventsIn (btcHeightRange lastBTCTip curBTCTip)) ps)

include hfunded hprocessed

omit hledger in
/-- A provider counts as slashed exactly if there is a SLASHED event about it. -/
theorem states_slashed_iff (pk : BIP340PubKey) :
    ps.fpStatesByBtcPk.get pk = some .slashed ↔
      .slashedFp pk ∈ bs.eventsIn (btcHeightRange lastBTCTip curBTCTip) := by
  rw [hprocessed.states pk]
  constructor
  · intro h
    by_contra hnot
    rw [if_neg hnot] at h
    refine jailState_ne_slashed ?_ _ h
    obtain ⟨hin, hout⟩ := get_cachedStates hfunded.unslashed hfunded.nodup
    by_cases hchd : pk ∈ dc.finalityProviders.map (·.btcPk)
    · obtain ⟨info, hinfo, rfl⟩ := mem_map.mp hchd
      rw [hin info hinfo]
      split <;> simp
    · simp [hout pk hchd]
  · exact fun h => if_pos h

omit hledger in
/-- The sats of a provider after the events. -/
theorem Funded.total_eq (hsl : NotSlashed bs pk) :
    (satsIn dc.finalityProviders pk : Int) + ps.delta pk
        + movedSats bs (fun hash => subtracted hash
          + bs.removals (bs.eventsIn (btcHeightRange lastBTCTip curBTCTip)) hash) pk
      = movedSats bs (fun hash => added hash + (bs.eventsIn
          (btcHeightRange lastBTCTip curBTCTip)).count (.btcDelStateUpdate hash .active)) pk := by
  have hsats := hfunded.sats pk hsl
  have hdelta := hprocessed.balanced.delta pk
  rw [hprocessed.active, hprocessed.unbonding, satsFor_activations, satsFor_departures] at hdelta
  have hact : (bs.btcDelegations.sumBy fun hash d => (bs.eventsIn
      (btcHeightRange lastBTCTip curBTCTip)).count (.btcDelStateUpdate hash .active) * d.satsTo pk)
      = movedSats bs (fun hash => (bs.eventsIn
        (btcHeightRange lastBTCTip curBTCTip)).count (.btcDelStateUpdate hash .active)) pk := rfl
  have hrmv : (bs.btcDelegations.sumBy fun hash d =>
      bs.removals (bs.eventsIn (btcHeightRange lastBTCTip curBTCTip)) hash * d.satsTo pk)
      = movedSats bs (bs.removals (bs.eventsIn (btcHeightRange lastBTCTip curBTCTip))) pk := rfl
  rw [hact, hrmv] at hdelta
  rw [movedSats_add, movedSats_add, hdelta]
  push_cast
  omega

/-- No provider is left with a negative amount. -/
theorem Funded.total_nonneg (hsl : NotSlashed bs pk) :
    0 ≤ (satsIn dc.finalityProviders pk : Int) + ps.delta pk := by
  have htot := hfunded.total_eq hprocessed hsl
  have hclr := hledger.process (fun _ => mem_btcHeightRange hledger.processed_le)
    (t := { bs with powerDistUpdateEvents :=
      (btcHeightRange lastBTCTip curBTCTip).foldl delete bs.powerDistUpdateEvents })
    rfl (nodup_btcHeightRange _ _) rfl rfl rfl
  have hle : movedSats bs (fun hash => subtracted hash
      + bs.removals (bs.eventsIn (btcHeightRange lastBTCTip curBTCTip)) hash) pk
      ≤ movedSats bs (fun hash => added hash + (bs.eventsIn
        (btcHeightRange lastBTCTip curBTCTip)).count (.btcDelStateUpdate hash .active)) pk :=
    sumBy_le fun hash d hd => Nat.mul_le_mul_right _ (hclr.lawful hash d hd).subtracted_le
  omega

/-- A provider of the cache that does not count as slashed is not slashed. -/
theorem Funded.notSlashed_of_cached {info : FinalityProviderDistInfo}
    (hinfo : info ∈ dc.finalityProviders)
    (hstate : ps.fpStatesByBtcPk.get info.btcPk ≠ some .slashed) :
    ∃ fp, bs.finalityProviders.get info.btcPk = some fp ∧ fp.isSlashed = false := by
  obtain ⟨fp, hfp, hpend⟩ := hfunded.known info hinfo
  refine ⟨fp, hfp, ?_⟩
  cases hsl : fp.isSlashed with
  | false => rfl
  | true =>
    obtain ⟨height, hmem⟩ := exists_of_queued_pos (hpend hsl)
    refine absurd ((states_slashed_iff hfunded hprocessed info.btcPk).mpr ?_) hstate
    exact mem_eventsIn_of_pending hledger hmem (by simp)

omit hfunded in
/-- The provider of a delegation that is reported to the hooks is stored. -/
theorem provider_of_reported {info : DelegationInfo}
    (hmem : info ∈ ps.activeDelegations ++ ps.unbondingDelegations) :
    ∃ fp, bs.finalityProviders.get info.fpBtcPk = some fp := by
  rw [hprocessed.active, hprocessed.unbonding, ← flatMap_append] at hmem
  obtain ⟨d, hd, hinfo⟩ := mem_flatMap.mp hmem
  have hsto : ∃ hash, bs.btcDelegations.get hash = some d := by
    have hev : ∃ newState condition, ∃ event : EventPowerDistUpdate,
        eventDelegation bs newState condition event = some d := by
      simp only [activations, departures, mem_append, mem_filterMap] at hd
      rcases hd with ⟨event, -, hev⟩ | ⟨event, -, hev⟩ | ⟨event, -, hev⟩
      · exact ⟨_, _, event, hev⟩
      · exact ⟨_, _, event, hev⟩
      · exact ⟨_, _, event, hev⟩
    obtain ⟨newState, condition, event, hev⟩ := hev
    cases event with
    | btcDelStateUpdate hash state =>
      rw [eventDelegation] at hev
      split at hev
      case isTrue => exact ⟨hash, (Option.filter_eq_some_iff.mp hev).1⟩
      case isFalse => cases hev
    | slashedFp other | jailedFp other | unjailedFp other => cases hev
  obtain ⟨hash, hd⟩ := hsto
  obtain ⟨provider, fp, hlist, hfp⟩ := (hledger.wellFormed.settled hash d hd).provider
  rw [delegationInfos, hlist, map_singleton, mem_singleton] at hinfo
  rw [hinfo]
  exact ⟨fp, hfp⟩

/-- Processing never runs into a negative amount or an unknown provider. -/
theorem Funded.applicable : Applicable bs ps dc where
  cached := by
    intro info hinfo hstate
    obtain ⟨fp, hfp, hsl⟩ := hfunded.notSlashed_of_cached hledger hprocessed hinfo hstate
    have hnn := hfunded.total_nonneg hledger hprocessed (notSlashed_of_get hfp hsl)
    rw [satsIn_of_mem hfunded.nodup hinfo] at hnn
    exact hnn
  added := by
    intro pk hpk
    obtain ⟨hnew, hstate, sats, hsats⟩ := mem_newFpKeys.mp hpk
    obtain ⟨info, hinfo, rfl⟩ := hprocessed.balanced.touched pk sats hsats
    obtain ⟨fp, hfp⟩ := provider_of_reported hledger hprocessed hinfo
    refine ⟨fp, hfp, fun hsl => ?_⟩
    have hnn := hfunded.total_nonneg hledger hprocessed (notSlashed_of_get hfp hsl)
    rw [satsIn_eq_zero hnew, Nat.cast_zero, zero_add] at hnn
    exact hnn

/-- The providers of the next cache are stored and not slashed. -/
theorem Funded.notSlashed_of_next {info : FinalityProviderDistInfo}
    (hinfo : info ∈ nextFps bs ps dc) :
    ∃ fp, bs.finalityProviders.get info.btcPk = some fp ∧ fp.isSlashed = false ∧
      info.isSlashed = false := by
  rcases mem_nextFps.mp hinfo with ⟨old, hold, hupd⟩ | ⟨pk, -, -, hadd⟩
  · obtain ⟨hstate, -, rfl⟩ := updatedFp_eq_some_iff.mp hupd
    obtain ⟨fp, hfp, hsl⟩ := hfunded.notSlashed_of_cached hledger hprocessed hold hstate
    exact ⟨fp, by simpa using hfp, hsl, by simpa using hfunded.unslashed old hold⟩
  · rw [newFp_key hledger.wellFormed.providers hadd]
    obtain ⟨fp, hfp, hsl, -, rfl⟩ := newFp_eq_some_iff.mp hadd
    exact ⟨fp, hfp, hsl, by simpa [new] using hsl⟩

/-- Who is not slashed does not count as slashed. -/
theorem states_ne_slashed (hsl : NotSlashed bs pk) : ps.fpStatesByBtcPk.get pk ≠ some .slashed := by
  intro hstate
  have hev := (states_slashed_iff hfunded hprocessed pk).mp hstate
  obtain ⟨height, -, hev⟩ := mem_flatMap.mp hev
  obtain ⟨fp, hfp, hbad⟩ := (hledger.located height _ hev).1
  rw [hsl fp hfp] at hbad
  cases hbad

/-- The sats of a provider in the next cache. -/
theorem Funded.satsIn_next (hsl : NotSlashed bs pk) :
    (satsIn (nextFps bs ps dc) pk : Int) = satsIn dc.finalityProviders pk + ps.delta pk := by
  have hk := hledger.wellFormed.providers
  have hnn := hfunded.total_nonneg hledger hprocessed hsl
  by_cases hin : pk ∈ (nextFps bs ps dc).map (·.btcPk)
  · obtain ⟨info, hinfo, rfl⟩ := mem_map.mp hin
    rw [satsIn_of_mem (nextFps_nodup hk hfunded.nodup) hinfo]
    rcases mem_nextFps.mp hinfo with ⟨old, hold, hupd⟩ | ⟨pk, hnew, -, hadd⟩
    · rw [updatedFp_key hupd, satsIn_of_mem hfunded.nodup hold]
      obtain ⟨-, hpos, rfl⟩ := updatedFp_eq_some_iff.mp hupd
      exact Int.toNat_of_nonneg hpos.le
    · rw [newFp_key hk hadd, satsIn_eq_zero hnew, Nat.cast_zero, zero_add]
      obtain ⟨-, -, -, hpos, rfl⟩ := newFp_eq_some_iff.mp hadd
      exact Int.toNat_of_nonneg hpos.le
  · -- a provider with sats would have an entry
    rw [satsIn_eq_zero hin, Nat.cast_zero]
    by_contra hne
    have hpos := lt_of_le_of_ne hnn hne
    have hstate := states_ne_slashed hledger hfunded hprocessed hsl
    refine hin (mem_map.mpr ?_)
    by_cases hchd : pk ∈ dc.finalityProviders.map (·.btcPk)
    · obtain ⟨old, hold, rfl⟩ := mem_map.mp hchd
      rw [satsIn_of_mem hfunded.nodup hold] at hpos
      have hupd := updatedFp_eq_some_iff.mpr ⟨hstate, hpos, rfl⟩
      exact ⟨_, mem_nextFps.mpr (.inl ⟨old, hold, hupd⟩), updatedFp_key hupd⟩
    · rw [satsIn_eq_zero hchd, Nat.cast_zero, zero_add] at hpos
      have htouched : ∃ sats, ps.deltaSatsByFpBtcPk.get pk = some sats := by
        cases hget : ps.deltaSatsByFpBtcPk.get pk with
        | none => simp [ProcessingState.delta, hget] at hpos
        | some sats => exact ⟨sats, rfl⟩
      obtain ⟨sats, hsats⟩ := htouched
      obtain ⟨info, hinfo, rfl⟩ := hprocessed.balanced.touched pk sats hsats
      obtain ⟨fp, hfp⟩ := provider_of_reported hledger hprocessed hinfo
      refine ⟨_, mem_nextFps.mpr (.inr ⟨_, hchd, hstate,
        newFp_eq_some_iff.mpr ⟨fp, hfp, hsl fp hfp, hpos, rfl⟩⟩), ?_⟩
      simpa [new] using hk _ fp hfp

/-- The next cache is funded by the counts after the events. -/
theorem Funded.next {t : BTCStaking.State} {newDc : VotingPowerDistCache}
    (hdels : t.btcDelegations = bs.btcDelegations)
    (hprov : t.finalityProviders = bs.finalityProviders)
    (hnext : newDc.finalityProviders.Perm ((nextFps bs ps dc).map label))
    (hkey : ∀ fp, (label fp).btcPk = fp.btcPk)
    (hsats : ∀ fp, (label fp).totalBondedSat = fp.totalBondedSat)
    (hflag : ∀ fp, (label fp).isSlashed = fp.isSlashed) :
    Funded t
      (fun hash => added hash + (bs.eventsIn (btcHeightRange lastBTCTip curBTCTip)).count
        (.btcDelStateUpdate hash .active))
      (fun hash => subtracted hash
        + bs.removals (bs.eventsIn (btcHeightRange lastBTCTip curBTCTip)) hash) newDc := by
  suffices hsame : Funded t _ _ (.withFinalityProviders (nextFps bs ps dc)) from
    hsame.relabel hnext hkey hsats hflag
  refine ⟨nextFps_nodup hledger.wellFormed.providers hfunded.nodup, ?_, ?_, ?_⟩
  · intro pk hsl
    have hsl' : NotSlashed bs pk := by
      unfold NotSlashed at hsl
      rwa [hprov] at hsl
    have htot := hfunded.total_eq hprocessed hsl'
    have hnextSats := hfunded.satsIn_next hledger hprocessed hsl'
    unfold movedSats at htot ⊢
    rw [hdels]
    show satsIn (nextFps bs ps dc) pk + _ = _
    omega
  · intro info hinfo
    obtain ⟨provider, hpvd, hnot, -⟩ := hfunded.notSlashed_of_next hledger hprocessed hinfo
    refine ⟨provider, by rw [hprov, hpvd], fun hsl => ?_⟩
    rw [hnot] at hsl
    cases hsl
  · intro info hinfo
    obtain ⟨-, -, -, hnot⟩ := hfunded.notSlashed_of_next hledger hprocessed hinfo
    exact hnot

end Window

/-! ## Messages -/

section Messages

variable {t : BTCStaking.State} {env : BTCStaking.Env}
  {requests : BTCStaking.State → BTCStaking.Request → Prop}

/-- Delegations that are added, or written with the terms they had, move no sats. -/
theorem movedSats_of_extends {times : ChainHash → Nat}
    (hunseen : ∀ hash, bs.btcDelegations.get hash = none → times hash = 0) (h : bs.Extends t)
    (pk : BIP340PubKey) : movedSats t times pk = movedSats bs times pk := by
  refine sumBy_eq_sumBy fun hash => ?_
  cases hget : bs.btcDelegations.get hash with
  | none => cases t.btcDelegations.get hash <;> simp [hunseen hash hget]
  | some d =>
    obtain ⟨d', hget', hterms⟩ := h.delegations hash d hget
    rw [hget', Option.elim_some, Option.elim_some, BTCDelegation.satsTo, BTCDelegation.satsTo,
      hterms.fpBtcPkList, hterms.totalSat]

/-- A message keeps a cache funded. -/
theorem Funded.change {tip : Nat} (hledger : Ledger prim strict lastBTCTip tip added subtracted bs)
    (hfunded : Funded bs added subtracted dc) (h : Change prim env requests bs t) :
    Funded t added subtracted dc where
  nodup := hfunded.nodup
  sats := by
    intro pk hsl
    have hevo := h.providersEvolve hledger.wellFormed.providers
    have hext := (h.wellFormed hledger.wellFormed).2
    rw [movedSats_of_extends (fun hash hnone => (hledger.unseen hash hnone).2) hext,
      movedSats_of_extends (fun hash hnone => (hledger.unseen hash hnone).1) hext]
    refine hfunded.sats pk ?_
    intro fp hfp
    obtain ⟨fp', hfp', hkept⟩ := hevo.kept pk fp hfp
    cases hbad : fp.isSlashed with
    | false => rfl
    | true =>
      rw [hsl fp' hfp'] at hkept
      exact absurd (hkept hbad) (by simp)
  known := by
    intro info hinfo
    obtain ⟨fp, hfp, hpend⟩ := hfunded.known info hinfo
    obtain ⟨fp', hfp', -⟩ := (h.providersEvolve hledger.wellFormed.providers).kept _ fp hfp
    refine ⟨fp', hfp', fun hsl => ?_⟩
    rcases h.slashingReported hledger.wellFormed.providers _ fp' hfp' hsl with
      ⟨old, hold, hbef⟩ | hrpt
    · rw [hfp, Option.some.injEq] at hold
      exact Nat.lt_of_lt_of_le (hpend (hold ▸ hbef)) (h.pending_le _)
    · exact hrpt
  unslashed := hfunded.unslashed

end Messages

end Babylon.Finality
