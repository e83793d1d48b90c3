/-
  What the changes of the store of `x/btcstaking` tell the next block.

  Messages only add events, and every slashing is reported by an event.
-/
import Babylon.BTCStaking.Ledger

set_option autoImplicit false

namespace Babylon.BTCStaking

open Lib State

variable {prim : BtcPrimitives} {env : Env} {s t : State} {requests : State → Request → Prop}

/-! ## Events -/

theorem State.pending_le_add (s : State) (height : Nat) (event other : EventPowerDistUpdate) :
    s.pending other ≤ (s.addPowerDistUpdateEvent height event).pending other := by
  rw [pending_addPowerDistUpdateEvent]
  exact Nat.le_add_right _ _

theorem RegistryChange.pending_le (h : RegistryChange prim env requests s t)
    (event : EventPowerDistUpdate) : s.pending event ≤ t.pending event := by
  rcases h.frame with ⟨_, hset⟩ | ⟨_, _, rfl | ⟨_, rfl⟩⟩
  · obtain ⟨-, _, rfl⟩ := setParams_ok hset
    exact Nat.le_refl _
  · exact Nat.le_refl _
  · exact pending_le_add _ _ _ _

theorem State.WritesDelegations.pending_le (h : s.WritesDelegations t)
    (event : EventPowerDistUpdate) : s.pending event ≤ t.pending event := by
  induction h with
  | refl => exact Nat.le_refl _
  | set _ _ _ ih => exact ih
  | queue _ _ _ _ ih => exact ih.trans (pending_le_add _ _ _ _)

/-- A message removes no event. -/
theorem Change.pending_le (h : Change prim env requests s t) (event : EventPowerDistUpdate) :
    s.pending event ≤ t.pending event := by
  rcases h.writesDelegations_or_registry with hwr | hreg
  · exact hwr.pending_le event
  · exact hreg.pending_le event

/-- Only the beginning of a block indexes a BTC height. -/
theorem Change.btcHeights (h : Change prim env requests s t) : t.btcHeights = s.btcHeights := by
  rcases h.writesDelegations_or_registry with hwr | hreg
  · obtain ⟨_, _, _, rfl⟩ := hwr.frame
    rfl
  · rcases hreg.frame with ⟨_, hset⟩ | ⟨_, _, rfl | ⟨_, rfl⟩⟩
    · obtain ⟨-, _, rfl⟩ := setParams_ok hset
      rfl
    · rfl
    · rfl

theorem Changes.btcHeights (h : Changes prim env requests s t) : t.btcHeights = s.btcHeights := by
  induction h with
  | refl => rfl
  | tail _ hchg ih => exact hchg.btcHeights.trans ih

/-! ## Slashing -/

/-- Who is slashed was slashed before, or there is an event about it. -/
def SlashingReported (s t : State) : Prop :=
  ∀ pk fp', t.finalityProviders.get pk = some fp' → fp'.isSlashed = true →
    (∃ fp, s.finalityProviders.get pk = some fp ∧ fp.isSlashed = true) ∨
      0 < t.pending (.slashedFp pk)

theorem SlashingReported.of_eq (h : t.finalityProviders = s.finalityProviders) :
    SlashingReported s t := by
  intro pk fp' hfp' hsl
  exact .inl ⟨fp', h ▸ hfp', hsl⟩

/-- Writing a provider that is not newly slashed. -/
theorem SlashingReported.of_set (fp : FinalityProvider)
    (h : t.finalityProviders = s.finalityProviders.set fp.btcPk fp)
    (hsame : fp.isSlashed = true →
      ∃ old, s.finalityProviders.get fp.btcPk = some old ∧ old.isSlashed = true) :
    SlashingReported s t := by
  unfold SlashingReported
  rw [h]
  exact KVStore.forall_set (fun _ fp' hfp' hsl => .inl ⟨fp', hfp', hsl⟩) fun hsl => .inl (hsame hsl)

theorem RegistryChange.slashingReported (hs : s.ProvidersKeyed)
    (h : RegistryChange prim env requests s t) : SlashingReported s t := by
  cases h with
  | register unused notSlashed =>
    refine .of_set _ rfl fun hsl => ?_
    rw [notSlashed] at hsl
    cases hsl
  | @update pk fp fp' stored btcPk slashed jailed =>
    refine .of_set fp' rfl fun hsl => ?_
    refine ⟨fp, by rw [btcPk, hs pk fp stored, stored], ?_⟩
    simpa only [FinalityProvider.isSlashed, slashed] using hsl
  | move stored notSlashed btcPk moves request =>
    cases moves with
    | slash =>
      refine KVStore.forall_set (fun _ fp' hfp' hsl => .inl ⟨fp', hfp', hsl⟩) fun _ => .inr ?_
      rw [pending_addPowerDistUpdateEvent, if_pos (by rw [btcPk])]
      exact Nat.succ_pos _
    | jail slashed | unjail slashed =>
      exact .of_set _ rfl fun hsl => absurd (slashed.symm.trans hsl) (by simp)
  | params h =>
    obtain ⟨-, _, rfl⟩ := setParams_ok h
    exact .of_eq rfl

theorem Change.slashingReported (hs : s.ProvidersKeyed) (h : Change prim env requests s t) :
    SlashingReported s t := by
  rcases h.writesDelegations_or_registry with hwr | hreg
  · exact .of_eq hwr.finalityProviders
  · exact hreg.slashingReported hs

end Babylon.BTCStaking
