/-
  BLS keys of validators over whole runs.

  Keys are registered by the genesis state, by genesis transactions and by messages of
  later blocks.  Two stores are written after two different checks; they stay inverse to
  each other, and a validator keeps the key it has registered.
-/
import Babylon.Epoching.Effects
import Babylon.Epoching.StakingLaws

set_option autoImplicit false

namespace Babylon.Checkpointing

open Lib Epoching

/-! ## Genesis -/

/-- `GenesisKey`. -/
structure GenesisKey where
  validatorAddress : Bech32
  pubkey : BlsPublicKey
  pop : Bytes
  valPubkey : Bytes

/-- `SetGenBlsKeys`; `isValid` is the check of proofs of possession. -/
def Registration.setGenBlsKeys (isValid : Bytes → BlsPublicKey → Bytes → Bool) (rs : Registration)
    (genKeys : List GenesisKey) : Outcome Registration :=
  foldOutcome (fun rs key => do
      let addr ← valAddressFromBech32 key.validatorAddress
      ensure ((rs.addrToBlsKeys.get addr).isNone = true)
        (.errorf "a validator's BLS key has already been registered. Duplicate address: %s")
      ensure (isValid key.pop key.pubkey key.valPubkey = true)
        (.errorf "Proof-of-Possession is not valid. Pop: %s")
      (rs.createRegistration key.pubkey addr).orFail
        (.errorf "failed to register a BLS key. Val Addr: %s"))
    rs genKeys

variable {S : Type} {stk : StakingKeeper S} {authority : Bech32}
  {isValid : Bytes → BlsPublicKey → Bytes → Bool} {rs rs' : Registration}

theorem later_of_setGenBlsKeys {genKeys : List GenesisKey}
    (h : rs.setGenBlsKeys isValid genKeys = .ok rs') : rs.Later rs' := by
  refine foldOutcome_preserves rs.Later ?_ (.refl rs) h
  intro s key t _ hlater hnext
  simp only [ok_iff, Outcome.orFail_ok_iff] at hnext
  obtain ⟨addr, -, _, -, _, -, hcreate⟩ := hnext
  exact hlater.trans (Registration.later_of_createRegistration hcreate)

/-! ## Runs -/

/-- The genesis state, and the steps of the chain; block 0 has the genesis transactions. -/
inductive RegistrationLabel (S : Type) where
  | setGenBlsKeys (genKeys : List GenesisKey)
  | chain (l : Epoching.Label S)

/-- The chain from the empty registration on.  It does not start with a genesis state whose
keys are refused. -/
def registrationSystem (stk : StakingKeeper S) (authority : Bech32)
    (isValid : Bytes → BlsPublicKey → Bytes → Bool) :
    System (Epoching.Chain S) (RegistrationLabel S) where
  init c := c.registration = .blank
  step c
    | .setGenBlsKeys genKeys =>
      match c.registration.setGenBlsKeys isValid genKeys with
      | .ok registration => some { c with registration }
      | .error _ => none
    | .chain l => c.step stk authority l

variable {c t : Epoching.Chain S}

theorem later_of_handle {msg : Epoching.Msg} {w : Stores S}
    (h : c.handle stk authority msg = .ok (w, rs)) : c.registration.Later rs := by
  cases msg with
  | wrappedCreateValidator key msg =>
    unfold Epoching.Chain.handle at h
    simp only [Stores.wrappedCreateValidator, bind_ok_iff] at h
    obtain ⟨_, -, valAddr, -, registered, hregister, h⟩ := h
    have hlater := Registration.later_of_createRegistration hregister
    split at h
    case isTrue =>
      simp only [ok_iff, Prod.mk.injEq] at h
      obtain ⟨_, -, -, rfl⟩ := h
      exact hlater
    case isFalse =>
      simp only [ok_iff, Prod.mk.injEq] at h
      obtain ⟨_, -, _, -, -, rfl⟩ := h
      exact hlater
  | _ =>
    obtain ⟨-, rfl⟩ := Epoching.Chain.map_ok _ h
    exact .refl _

theorem later_of_step {l : Epoching.Label S} (h : c.step stk authority l = some t) :
    c.registration.Later t.registration := by
  cases l with
  | deliver msg =>
    obtain ⟨-, h⟩ := Option.ite_none_right_eq_some.mp h
    split at h
    case h_1 hhandle =>
      cases h
      exact later_of_handle hhandle
    case h_2 =>
      cases h
      exact .refl _
  | _ =>
    unfold Epoching.Chain.step at h
    grind [Registration.Later.refl]

theorem later_of_registrationStep {l : RegistrationLabel S}
    (h : (registrationSystem stk authority isValid).step c l = some t) :
    c.registration.Later t.registration := by
  cases l with
  | setGenBlsKeys genKeys =>
    simp only [registrationSystem] at h
    split at h
    case h_1 hkeys =>
      cases h
      exact later_of_setGenBlsKeys hkeys
    case h_2 => cases h
  | chain l => exact later_of_step h

/-- The two stores are inverse to each other after every run, a registered key is never
replaced, and a message that is refused changes neither store. -/
theorem bls_registration_injective {history : List (Epoching.Chain S × RegistrationLabel S)}
    (run : Run (registrationSystem stk authority isValid) history c) :
    (∀ addr key, c.registration.getBlsPubKey addr = .ok key ↔
      c.registration.getValAddr key = .ok addr) ∧
    (∀ past ∈ history, ∀ addr key, past.1.registration.getBlsPubKey addr = .ok key →
      c.registration.getBlsPubKey addr = .ok key) ∧
    ∀ msg fault, c.handle stk authority msg = .error fault →
      ∀ t, (registrationSystem stk authority isValid).step c (.chain (.deliver msg)) = some t →
        t.registration = c.registration := by
  refine ⟨?_, ?_, ?_⟩
  · have inv : c.registration.Inverse := by
      refine run.invariant (fun c => c.registration.Inverse) ?_ ?_ .trivial
      · intro s hinit
        rw [hinit]
        exact Registration.inverse_blank
      · exact fun _ _ _ hs _ hstep => (later_of_registrationStep hstep).inverse hs
    intro addr key
    simp only [Registration.getBlsPubKey, Registration.getValAddr, ok_iff]
    exact inv addr key
  · intro past hpast addr key hkey
    simp only [Registration.getBlsPubKey, ok_iff] at hkey ⊢
    exact run.established (fun c => c.registration.addrToBlsKeys.get addr = some key) .trivial hpast
      (fun t hstep => (later_of_registrationStep hstep).kept addr key hkey)
      fun _ _ _ _ _ _ hs hstep => (later_of_registrationStep hstep).kept addr key hs
  · intro msg fault hfault t hstep
    obtain ⟨-, hstep⟩ := Option.ite_none_right_eq_some.mp hstep
    rw [hfault] at hstep
    cases hstep
    rfl

/-- The genesis state has a key for validator 1; then validator 2 comes with another one, and
comes once more. -/
def twoKeys : List (RegistrationLabel LocalStaking) :=
  [.setGenBlsKeys [⟨.val 1 .lower, 5, [], []⟩], .chain (.beginBlock 1 [] []),
    .chain (.deliver (.wrappedCreateValidator 6 ⟨.val 2 .lower, ⟨0, 40⟩, []⟩)),
    .chain (.deliver (.wrappedCreateValidator 7 ⟨.val 2 .lower, ⟨0, 40⟩, []⟩))]

/-- The validators keep their keys, and so they do when the refused message is sent again. -/
theorem keys_kept_local :
    ∃ history c, Run (registrationSystem localStaking localAuthority fun _ _ _ => true) history c ∧
        c.registration.getValAddr 5 = .ok 1 ∧ c.registration.getValAddr 6 = .ok 2 ∧
        ∃ fault, c.handle localStaking localAuthority
            (.wrappedCreateValidator 7 ⟨.val 2 .lower, ⟨0, 40⟩, []⟩) = .error fault ∧
          ∀ t, (registrationSystem localStaking localAuthority fun _ _ _ => true).step c
              (.chain (.deliver (.wrappedCreateValidator 7 ⟨.val 2 .lower, ⟨0, 40⟩, []⟩))) =
            some t → t.registration = c.registration := by
  obtain ⟨history, c, run, hfive, hsix, fault, hfault, -⟩ := Run.reaching
    (registrationSystem localStaking localAuthority fun _ _ _ => true)
    (s := localChain (KVStore.empty.set 2 (KVStore.empty.set 0 100)))
    (P := fun c => c.registration.addrToBlsKeys.get 1 = some 5 ∧
      c.registration.addrToBlsKeys.get 2 = some 6 ∧
      ∃ fault, c.handle localStaking localAuthority
        (.wrappedCreateValidator 7 ⟨.val 2 .lower, ⟨0, 40⟩, []⟩) = .error fault ∧ True) rfl
    twoKeys (by decide +kernel)
  obtain ⟨hinverse, -, hrefused⟩ := bls_registration_injective run
  refine ⟨history, c, run, (hinverse 1 5).mp ?_, (hinverse 2 6).mp ?_, fault, hfault,
    hrefused _ fault hfault⟩
  · rw [Registration.getBlsPubKey, hfive]
    rfl
  · rw [Registration.getBlsPubKey, hsix]
    rfl

end Babylon.Checkpointing
