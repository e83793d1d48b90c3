/-
  `RegistrationState` of `x/checkpointing`: the BLS keys of validators.

  A key is a string of 96 bytes; the model keeps the number it spells.
-/
import Babylon.Lib.KVStore
import Babylon.Types.Basic

set_option autoImplicit false

namespace Babylon.Checkpointing

open Lib

def errBlsKeyDoesNotExist : RegisteredError :=
  ⟨"checkpointing", 1209, "BLS public key does not exist"⟩
def errBlsKeyAlreadyExist : RegisteredError :=
  ⟨"checkpointing", 1210, "BLS public key already exists"⟩
def errValAddrDoesNotExist : RegisteredError :=
  ⟨"checkpointing", 1216, "Validator address does not exist"⟩

/-- BLS public keys. -/
abbrev BlsPublicKey := Nat

/-- `RegistrationState`. -/
structure Registration where
  addrToBlsKeys : KVStore ValAddress BlsPublicKey
  blsKeysToAddr : KVStore BlsPublicKey ValAddress

namespace Registration

/-- The store at genesis. -/
def blank : Registration := ⟨KVStore.empty, KVStore.empty⟩

/-- `GetBlsPubKey`. -/
def getBlsPubKey (rs : Registration) (addr : ValAddress) : Outcome BlsPublicKey :=
  orThrow (rs.addrToBlsKeys.get addr)
    (.wrapf errBlsKeyDoesNotExist "BLS public key does not exist with address %s")

/-- `GetValAddr`. -/
def getValAddr (rs : Registration) (key : BlsPublicKey) : Outcome ValAddress :=
  orThrow (rs.blsKeysToAddr.get key)
    (.wrapf errValAddrDoesNotExist "validator address does not exist with BLS public key %s")

/-- `CreateRegistration`. -/
def createRegistration (rs : Registration) (key : BlsPublicKey) (valAddr : ValAddress) :
    Outcome Registration := do
  ensure ((rs.addrToBlsKeys.get valAddr).all (· == key) = true)
    (.wrapf errBlsKeyAlreadyExist "the validator has registered a BLS public key")
  ensure ((rs.blsKeysToAddr.get key).all (· == valAddr) = true)
    (.wrapf errBlsKeyAlreadyExist "same BLS public key is registered by another validator")
  return ⟨rs.addrToBlsKeys.set valAddr key, rs.blsKeysToAddr.set key valAddr⟩

/-! ## One key for each validator -/

/-- The two maps are inverse to each other. -/
def Inverse (rs : Registration) : Prop :=
  ∀ addr key, rs.addrToBlsKeys.get addr = some key ↔ rs.blsKeysToAddr.get key = some addr

theorem inverse_blank : blank.Inverse := fun _ _ => iff_of_false nofun nofun

variable {rs rs' : Registration}

theorem Inverse.createRegistration (h : rs.Inverse) {key : BlsPublicKey}
    {valAddr : ValAddress} (hcreate : rs.createRegistration key valAddr = .ok rs') :
    rs'.Inverse := by
  simp only [Registration.createRegistration, ok_iff, Option.all_eq_true, beq_iff_eq] at hcreate
  obtain ⟨_, hkey, _, haddr, rfl⟩ := hcreate
  intro addr other
  rw [KVStore.get_set, KVStore.get_set]
  by_cases hsame : addr = valAddr <;> by_cases ho : other = key
  · simp [hsame, ho]
  · -- the validator has no other key
    rw [if_pos hsame, if_neg ho]
    refine iff_of_false (fun heq => ho (Option.some.inj heq).symm) fun heq => ho ?_
    rw [hsame] at heq
    exact hkey other ((h valAddr other).mpr heq)
  · -- the key has no other validator
    rw [if_neg hsame, if_pos ho]
    refine iff_of_false (fun heq => hsame ?_) fun heq => hsame (Option.some.inj heq).symm
    rw [ho] at heq
    exact haddr addr ((h addr key).mp heq)
  · rw [if_neg hsame, if_neg ho]
    exact h addr other

/-- What registrations do to the stores: the maps stay inverse, and no key is replaced. -/
structure Later (rs rs' : Registration) : Prop where
  inverse : rs.Inverse → rs'.Inverse
  kept : ∀ addr key, rs.addrToBlsKeys.get addr = some key → rs'.addrToBlsKeys.get addr = some key

theorem Later.refl (rs : Registration) : rs.Later rs := ⟨id, fun _ _ => id⟩

theorem Later.trans {rs'' : Registration} (h : rs.Later rs') (h' : rs'.Later rs'') :
    rs.Later rs'' :=
  ⟨fun inv => h'.inverse (h.inverse inv),
    fun addr key hkey => h'.kept addr key (h.kept addr key hkey)⟩

theorem later_of_createRegistration {key : BlsPublicKey}
    {valAddr : ValAddress} (hcreate : rs.createRegistration key valAddr = .ok rs') :
    rs.Later rs' where
  inverse := fun inv => inv.createRegistration hcreate
  kept := by
    simp only [Registration.createRegistration, ok_iff, Option.all_eq_true, beq_iff_eq] at hcreate
    obtain ⟨_, hkey, _, -, rfl⟩ := hcreate
    intro addr other hother
    by_cases hsame : addr = valAddr
    · -- the validator registers the key that it has
      subst hsame
      rw [KVStore.get_set_self, hkey other hother]
    · rw [KVStore.get_set_of_ne _ _ hsame, hother]

end Registration

end Babylon.Checkpointing
