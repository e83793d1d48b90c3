/-
  The status of finality providers.

  Slashing, jailing and unjailing set a flag of the stored provider and queue an
  event about it at the BTC tip.  Nothing else touches the flags or queues events
  about providers.
-/
import Babylon.BTCStaking.Ledger

set_option autoImplicit false

namespace Babylon.BTCStaking

open Lib KVStore List

variable {prim : BtcPrimitives} {env : Env} {s t : State} {requests : State → Request → Prop}

/-! ## Events about providers -/

/-- The provider that an event is about. -/
def EventPowerDistUpdate.provider : EventPowerDistUpdate → Option BIP340PubKey
  | .btcDelStateUpdate _ _ => none
  | .slashedFp pk => some pk
  | .jailedFp pk => some pk
  | .unjailedFp pk => some pk

variable (pk : BIP340PubKey)

/-- The events about a provider among some events. -/
def eventsAbout (events : List EventPowerDistUpdate) : List EventPowerDistUpdate :=
  events.filter fun event => event.provider = some pk

theorem mem_eventsAbout {pk : BIP340PubKey} {events : List EventPowerDistUpdate}
    {event : EventPowerDistUpdate} :
    event ∈ eventsAbout pk events ↔ event ∈ events ∧ event.provider = some pk := by
  rw [eventsAbout, mem_filter, decide_eq_true_eq]

/-- The events about a provider at a BTC height. -/
def State.providerEvents (s : State) (pk : BIP340PubKey) (height : Nat) :
    List EventPowerDistUpdate :=
  eventsAbout pk (s.eventsAt height)

theorem eventsAbout_eventsIn (s : State) (heights : List Nat) :
    eventsAbout pk (s.eventsIn heights) = heights.flatMap (s.providerEvents pk) :=
  filter_flatMap

/-- Queueing an event adds it to the events about its provider. -/
theorem State.providerEvents_add (height : Nat) (event : EventPowerDistUpdate) (pk : BIP340PubKey)
    (other : Nat) :
    (s.addPowerDistUpdateEvent height event).providerEvents pk other = s.providerEvents pk other
      ++ if other = height then eventsAbout pk [event] else [] := by
  have hqueue := queue_enqueue s.powerDistUpdateEvents height other event
  show eventsAbout pk ((s.powerDistUpdateEvents.enqueue height event).queue other) = _
  rw [hqueue]
  split
  case isTrue heq =>
    rw [eventsAbout, filter_append, heq]
    rfl
  case isFalse =>
    rw [append_nil]
    rfl

theorem State.WritesDelegations.providerEvents (h : s.WritesDelegations t) (pk : BIP340PubKey)
    (height : Nat) : t.providerEvents pk height = s.providerEvents pk height := by
  induction h with
  | refl => rfl
  | set _ _ _ ih => exact ih
  | queue _ _ _ _ ih =>
    rw [State.providerEvents_add, ← ih]
    split <;> exact List.append_nil _

/-! ## Changes -/

/-- What a change of the store does to the status of one provider: nothing, or it moves a
provider that is not slashed and queues the event at the tip. -/
inductive StatusChange (env : Env) (pk : BIP340PubKey) (s t : State) : Prop
  | kept
      (provider : ∀ fp, s.finalityProviders.get pk = some fp → ∃ fp',
        t.finalityProviders.get pk = some fp' ∧ fp'.isSlashed = fp.isSlashed ∧
          fp'.jailed = fp.jailed)
      (events : ∀ height, t.providerEvents pk height = s.providerEvents pk height)
  | moved {fp fp' : FinalityProvider} {event : EventPowerDistUpdate}
      (stored : s.finalityProviders.get pk = some fp) (notSlashed : fp.isSlashed = false)
      (moves : Moves env fp event fp') (next : t.finalityProviders.get pk = some fp')
      (events : ∀ height, t.providerEvents pk height = s.providerEvents pk height
        ++ if height = env.lc.tipHeight then [event] else [])

theorem StatusChange.of_eq (hprov : t.finalityProviders = s.finalityProviders)
    (hevs : ∀ height, t.providerEvents pk height = s.providerEvents pk height) :
    StatusChange env pk s t := by
  refine .kept ?_ hevs
  intro fp hfp
  exact ⟨fp, by rw [hprov, hfp], rfl, rfl⟩

variable {key : BIP340PubKey}

/-- A provider is overwritten and an event about it queued. -/
theorem StatusChange.of_moves (hk : s.ProvidersKeyed) {fp fp' : FinalityProvider}
    {event : EventPowerDistUpdate} (hfp : s.finalityProviders.get key = some fp)
    (hnot : fp.isSlashed = false) (hkey : fp'.btcPk = fp.btcPk) (hmoves : Moves env fp event fp')
    (h : t = (s.setFinalityProvider fp').addPowerDistUpdateEvent env.lc.tipHeight event)
    (pk : BIP340PubKey) : StatusChange env pk s t := by
  have hsame : fp.btcPk = key := hk key fp hfp
  have hpvd : event.provider = some key := by
    rw [← hsame]
    cases hmoves <;> rfl
  have habout : eventsAbout pk [event] = if pk = key then [event] else [] := by
    unfold eventsAbout
    by_cases heq : pk = key
    · simp [hpvd, heq]
    · simp [hpvd, heq, Ne.symm heq]
  have hevs : ∀ height, t.providerEvents pk height = s.providerEvents pk height
      ++ if height = env.lc.tipHeight then eventsAbout pk [event] else [] := by
    intro height
    rw [h, State.providerEvents_add]
    rfl
  have hget : t.finalityProviders.get pk
      = if pk = key then some fp' else s.finalityProviders.get pk := by
    rw [h]
    show (s.finalityProviders.set fp'.btcPk fp').get pk = _
    rw [hkey, hsame, get_set]
  by_cases heq : pk = key
  · subst heq
    rw [habout, if_pos rfl] at hevs
    rw [if_pos rfl] at hget
    exact .moved hfp hnot hmoves hget hevs
  · rw [habout, if_neg heq] at hevs
    rw [if_neg heq] at hget
    refine .kept (fun other ho => ⟨other, by rw [hget, ho], rfl, rfl⟩) ?_
    intro height
    rw [hevs]
    split
    · exact append_nil _
    · exact append_nil _

theorem RegistryChange.status (hk : s.ProvidersKeyed)
    (h : RegistryChange prim env requests s t) (pk : BIP340PubKey) : StatusChange env pk s t := by
  cases h with
  | @register fp addrs unused notSlashed =>
    refine .kept ?_ fun _ => rfl
    intro old hold
    have hne : pk ≠ fp.btcPk := by
      rintro rfl
      rw [unused] at hold
      cases hold
    refine ⟨old, ?_, rfl, rfl⟩
    show (s.finalityProviders.set fp.btcPk fp).get pk = _
    rw [get_set_of_ne _ _ hne, hold]
  | @update key fp fp' stored btcPk slashed jailed =>
    refine .kept ?_ fun _ => rfl
    intro old hold
    show ∃ new, (s.finalityProviders.set fp'.btcPk fp').get pk = some new ∧ _
    rw [btcPk, hk key fp stored, get_set]
    split
    case isTrue heq =>
      rw [heq, stored] at hold
      cases hold
      exact ⟨fp', rfl, by simp only [FinalityProvider.isSlashed, slashed], jailed⟩
    case isFalse => exact ⟨old, hold, rfl, rfl⟩
  | move stored notSlashed btcPk moves request =>
    exact .of_moves hk stored notSlashed btcPk moves rfl pk
  | params h =>
    obtain ⟨-, _, rfl⟩ := setParams_ok h
    exact .of_eq pk rfl fun _ => rfl

/-- Every message changes the status of a provider in one of these ways. -/
theorem Change.status (hk : s.ProvidersKeyed) (h : Change prim env requests s t)
    (pk : BIP340PubKey) : StatusChange env pk s t := by
  rcases h.writesDelegations_or_registry with hwr | hreg
  · exact .of_eq pk hwr.finalityProviders (hwr.providerEvents pk)
  · exact hreg.status hk pk

/-! ## Staying jailed -/

/-- A provider that is jailed stays so. -/
def KeepsJailed (s t : State) : Prop :=
  ∀ fp, s.finalityProviders.get pk = some fp → fp.jailed = true →
    ∃ fp', t.finalityProviders.get pk = some fp' ∧ fp'.jailed = true

namespace KeepsJailed

variable {pk : BIP340PubKey}

theorem of_eq (h : t.finalityProviders = s.finalityProviders) : KeepsJailed pk s t :=
  fun fp hfp hj => ⟨fp, by rw [h, hfp], hj⟩

theorem trans {u : State} (hst : KeepsJailed pk s t) (htu : KeepsJailed pk t u) :
    KeepsJailed pk s u := by
  intro fp hfp hj
  obtain ⟨fp', hfp', hj'⟩ := hst fp hfp hj
  exact htu fp' hfp' hj'

/-- A change of the registry keeps a provider jailed, unless it unjails it. -/
theorem of_registry (hk : s.ProvidersKeyed) (h : RegistryChange prim env requests s t) :
    KeepsJailed pk s t ∨ requests s (.unjailFinalityProvider pk) := by
  -- a provider that is overwritten
  have hset : ∀ {key fp fp'}, s.finalityProviders.get key = some fp → fp'.btcPk = fp.btcPk →
      t.finalityProviders = s.finalityProviders.set fp'.btcPk fp' →
      (pk = key → fp.jailed = true → fp'.jailed = true) → KeepsJailed pk s t := by
    intro key fp fp' hfp hkey heq hj old hold hwas
    rw [heq, hkey, hk key fp hfp, get_set]
    split
    case isTrue heq =>
      rw [heq, hfp] at hold
      cases hold
      exact ⟨fp', rfl, hj heq hwas⟩
    case isFalse => exact ⟨old, hold, hwas⟩
  cases h with
  | @register fp _ unused notSlashed =>
    refine .inl fun old hold hj => ⟨old, ?_, hj⟩
    have hne : pk ≠ fp.btcPk := by
      rintro rfl
      rw [unused] at hold
      cases hold
    exact (get_set_of_ne _ _ hne).trans hold
  | update stored btcPk slashed jailed => exact .inl (hset stored btcPk rfl fun _ => jailed.trans)
  | @move key _ _ _ stored notSlashed btcPk moves request =>
    cases moves with
    | slash slashed jailed => exact .inl (hset stored btcPk rfl fun _ => jailed.trans)
    | jail slashed jailed => exact .inl (hset stored btcPk rfl fun _ _ => jailed)
    | unjail slashed jailed =>
      by_cases heq : pk = key
      · exact .inr (heq ▸ request rfl)
      · exact .inl (hset stored btcPk rfl fun hsame => absurd hsame heq)
  | params h =>
    obtain ⟨-, _, rfl⟩ := setParams_ok h
    exact .inl (.of_eq rfl)

theorem of_changes (hk : s.ProvidersKeyed) (h : Changes prim env requests s t) :
    KeepsJailed pk s t ∨ ∃ s', requests s' (.unjailFinalityProvider pk) := by
  induction h with
  | refl => exact .inl (.of_eq rfl)
  | tail hch hchg ih =>
    rcases ih with hkeeps | hrequest
    · rcases hchg.writesDelegations_or_registry with hwr | hreg
      · exact .inl (hkeeps.trans (.of_eq hwr.finalityProviders))
      · exact (of_registry (Changes.providersEvolve hk hch).keyed hreg).imp hkeeps.trans
          fun hrequest => ⟨_, hrequest⟩
    · exact .inr hrequest

end KeepsJailed

end Babylon.BTCStaking
