/-
  `VerifyVoteExtension` of `x/checkpointing`.

  An extension carries two addresses: the operator address of its signer, under whose
  BLS key the signature is verified, and the consensus address of its sender.  Nothing
  relates the two, so that a validator passes with the signature of another one.
-/
import Babylon.Checkpointing.Registration
import Babylon.Epoching.Keeper

set_option autoImplicit false

namespace Babylon.Checkpointing

open Lib

def errInvalidBlsSignature : RegisteredError :=
  ⟨"checkpointing", 1212, "BLS signature is invalid"⟩

/-- Consensus addresses of validators. -/
abbrev ConsAddress := Nat

/-! ## Extensions -/

/-- `BlsSig`, with its pointers followed. -/
structure BlsSig where
  epochNum : Nat
  blockHash : Bytes
  blsSig : Bytes
  signerAddress : Bech32
  validatorAddress : Bech32

/-- `VoteExtension`, without the height, which nothing reads. -/
structure VoteExtension where
  signer : Bech32
  validatorAddress : Bech32
  blockHash : Option Bytes
  epochNum : Nat
  blsSig : Option Bytes

namespace VoteExtension

/-- `Validate`. -/
def validate (ve : VoteExtension) : Outcome Unit := do
  ensure (ve.signer ≠ .other "") (.errorf "empty signer address")
  ensure (ve.validatorAddress ≠ .other "") (.errorf "empty validator address")
  ensure (ve.blockHash ≠ none) (.errorf "empty block hash")
  ensure (ve.blsSig ≠ none) (.errorf "empty BLS signature")

/-- `ToBLSSig`. -/
def toBLSSig (ve : VoteExtension) : Option BlsSig := do
  return ⟨ve.epochNum, ← ve.blockHash, ← ve.blsSig, ve.signer, ve.validatorAddress⟩

end VoteExtension

/-- `GetSignBytes`. -/
def getSignBytes (epoch : Nat) (hash : Bytes) : Bytes :=
  ((List.range 8).reverse.map fun i => UInt8.ofNat (epoch / 256 ^ i)) ++ hash

/-- What is used of other libraries: protobuf and BLS12-381. -/
structure ExtensionPrimitives where
  unmarshal : Bytes → Option VoteExtension
  verify : Bytes → BlsPublicKey → Bytes → Bool

/-- A BLS signature of a message determines the key: the pairing with the hash of the message
is injective. -/
def ExtensionPrimitives.Unambiguous (prim : ExtensionPrimitives) : Prop :=
  ∀ sig msg key other, prim.verify sig key msg = true → prim.verify sig other msg = true →
    key = other

/-! ## The handler -/

/-- `RequestVerifyVoteExtension`. -/
structure RequestVerifyVoteExtension where
  hash : Bytes
  validatorAddress : ConsAddress
  height : Nat
  voteExtension : Bytes

/-- The status of `ResponseVerifyVoteExtension`. -/
inductive VerifyStatus where
  | accept
  | reject
deriving DecidableEq

/-- The stores of the handler, and the operators by consensus address in `x/staking`, which it
does not read. -/
structure ExtensionStores where
  epoching : Epoching.State
  registration : Registration
  validatorsByConsAddr : KVStore ConsAddress ValAddress

variable (prim : ExtensionPrimitives) (s : ExtensionStores) (req : RequestVerifyVoteExtension)

/-- `VerifyBLSSig`. -/
def verifyBLSSig (sig : BlsSig) : Outcome Unit := do
  let signerAddr ← valAddressFromBech32 sig.signerAddress
  let signerBlsKey ← s.registration.getBlsPubKey signerAddr
  ensure (prim.verify sig.blsSig signerBlsKey (getSignBytes sig.epochNum sig.blockHash) = true)
    (.registered errInvalidBlsSignature)

/-- The checks of `VerifyVoteExtension`, which logs the errors. -/
def checkVoteExtension : Outcome Unit := do
  ensure (req.voteExtension ≠ []) (.errorf "received empty vote extension")
  let ve ← orThrow (prim.unmarshal req.voteExtension)
    (.errorf "failed to unmarshal vote extension")
  ve.validate
  ensure (s.epoching.getEpoch.epochNumber = ve.epochNum)
    (.errorf "invalid epoch number in the vote extension")
  let blsSig ← orThrow ve.toBLSSig (.panic "invalid memory address or nil pointer dereference")
  ensure (valAddressString req.validatorAddress = blsSig.validatorAddress)
    (.errorf "the vote extension signer does not match the BLS signature signer")
  ensure (blsSig.blockHash = req.hash) (.errorf "invalid BlockHash BLS sig")
  verifyBLSSig prim s blsSig

/-- `VerifyVoteExtension`. -/
def verifyVoteExtension : Outcome VerifyStatus :=
  if s.epoching.getEpoch.isLastBlock req.height = false then .ok .accept
  else
    match checkVoteExtension prim s req with
    | .ok _ => .ok .accept
    | .error fault => if fault.isError = true then .ok .reject else .error fault

/-! ## Who signed -/

/-- The key is registered for the validator with the consensus address of the sender. -/
def SenderKey (key : BlsPublicKey) : Prop :=
  ∃ operator, s.validatorsByConsAddr.get req.validatorAddress = some operator ∧
    s.registration.addrToBlsKeys.get operator = some key

/-- The extension contains a signature that verifies under the key of the sender. -/
def Authentic : Prop :=
  ∃ ve sig key, prim.unmarshal req.voteExtension = some ve ∧ ve.toBLSSig = some sig ∧
    SenderKey s req key ∧
    prim.verify sig.blsSig key (getSignBytes sig.epochNum sig.blockHash) = true

/-- The extension is made out for the sender, the block and the epoch, and contains a signature
of the signer it names, whose key is `key`. -/
structure SignedBy (ve : VoteExtension) (sig : BlsSig) (key : BlsPublicKey) : Prop where
  decoded : prim.unmarshal req.voteExtension = some ve
  nonempty : req.voteExtension ≠ []
  valid : ve.validate = .ok ()
  toBLSSig : ve.toBLSSig = some sig
  epoch : s.epoching.getEpoch.epochNumber = ve.epochNum
  sender : valAddressString req.validatorAddress = sig.validatorAddress
  block : sig.blockHash = req.hash
  signer : ∃ operator, valAddressFromBech32 sig.signerAddress = .ok operator ∧
    s.registration.addrToBlsKeys.get operator = some key
  verified : prim.verify sig.blsSig key (getSignBytes sig.epochNum sig.blockHash) = true

/-- The key registered for the operator that the extension names as its signer is that of the
sender. -/
def NamesSender : Prop :=
  ∃ ve sig operator key, prim.unmarshal req.voteExtension = some ve ∧ ve.toBLSSig = some sig ∧
    valAddressFromBech32 sig.signerAddress = .ok operator ∧
    s.registration.addrToBlsKeys.get operator = some key ∧ SenderKey s req key

variable {prim s req}

theorem checkVoteExtension_ok_iff : checkVoteExtension prim s req = .ok () ↔
    ∃ ve sig key, SignedBy prim s req ve sig key := by
  simp only [checkVoteExtension, verifyBLSSig, Registration.getBlsPubKey, ok_iff]
  constructor
  · rintro ⟨_, hne, ve, hdecode, _, hval, _, hep, sig, hsig, _, hsender, _, hblk, operator,
      hsigner, key, hkey, hver⟩
    exact ⟨ve, sig, key, hdecode, hne, hval, hsig, hep, hsender, hblk,
      ⟨operator, hsigner, hkey⟩, hver⟩
  · rintro ⟨ve, sig, key, h⟩
    obtain ⟨operator, hsigner, hkey⟩ := h.signer
    exact ⟨(), h.nonempty, ve, h.decoded, (), h.valid, (), h.epoch, sig, h.toBLSSig, (), h.sender,
      (), h.block, operator, hsigner, key, hkey, h.verified⟩

theorem verifyVoteExtension_accept_iff (hlast : s.epoching.getEpoch.isLastBlock req.height = true) :
    verifyVoteExtension prim s req = .ok .accept ↔
      ∃ ve sig key, SignedBy prim s req ve sig key := by
  rw [← checkVoteExtension_ok_iff, verifyVoteExtension, hlast, if_neg (by decide)]
  cases checkVoteExtension prim s req with
  | ok => exact iff_of_true rfl rfl
  | error fault =>
    refine iff_of_false ?_ nofun
    dsimp only
    split <;> nofun

/-- An extension that is accepted at the last block of an epoch contains a signature under the
key of its sender, if and only if the signer that it names has that key. -/
theorem extension_authentic_iff (hprim : prim.Unambiguous)
    (hlast : s.epoching.getEpoch.isLastBlock req.height = true)
    (haccept : verifyVoteExtension prim s req = .ok .accept) :
    Authentic prim s req ↔ NamesSender prim s req := by
  obtain ⟨ve, sig, key, hsigned⟩ := (verifyVoteExtension_accept_iff hlast).mp haccept
  obtain ⟨operator, hsigner, hkey⟩ := hsigned.signer
  constructor
  · rintro ⟨ve', sig', key', hdecoded, hsig, hsender, hverify⟩
    obtain rfl : ve = ve' := Option.some.inj (hsigned.decoded.symm.trans hdecoded)
    obtain rfl : sig = sig' := Option.some.inj (hsigned.toBLSSig.symm.trans hsig)
    obtain rfl := hprim _ _ key key' hsigned.verified hverify
    exact ⟨ve, sig, operator, key, hdecoded, hsig, hsigner, hkey, hsender⟩
  · rintro ⟨ve', sig', operator', key', hdecoded, hsig, hsigner', hkey', hsender⟩
    obtain rfl : ve = ve' := Option.some.inj (hsigned.decoded.symm.trans hdecoded)
    obtain rfl : sig = sig' := Option.some.inj (hsigned.toBLSSig.symm.trans hsig)
    obtain rfl : operator = operator' := Except.ok.inj (hsigner.symm.trans hsigner')
    obtain rfl : key = key' := Option.some.inj (hkey.symm.trans hkey')
    exact ⟨ve, sig, key, hdecoded, hsig, hsender, hsigned.verified⟩

/-! ## Two extensions -/

/-- An extension of four bytes: its signer, its sender, the epoch and the length of the
signature, which is the key. -/
def simplePrimitives : ExtensionPrimitives where
  unmarshal
    | [signer, sender, epoch, key] => some ⟨.val signer.toNat .lower, .val sender.toNat .lower,
        some (List.replicate 32 0), epoch.toNat, some (List.replicate key.toNat 0)⟩
    | _ => none
  verify sig key _ := sig.length == key

theorem simplePrimitives_unambiguous : simplePrimitives.Unambiguous := by
  intro sig msg key other hkey ho
  exact (beq_iff_eq.mp hkey).symm.trans (beq_iff_eq.mp ho)

/-- Validators 1 and 2 with keys 5 and 6 and consensus addresses 11 and 12, in epoch 1 of ten
blocks. -/
def twoValidators : ExtensionStores where
  epoching :=
    { params := .default
      epochInfo := KVStore.empty.set 1 ⟨1, 10, 1, none⟩
      msgQueue := KVStore.empty
      queueLength := KVStore.empty
      valSets := KVStore.empty
      votingPower := KVStore.empty
      delegationLifecycle := KVStore.empty
      validatorLifecycle := KVStore.empty
      sealerAppHash := KVStore.empty
      sealerBlockHash := KVStore.empty }
  registration := ⟨(KVStore.empty.set 1 5).set 2 6, (KVStore.empty.set 5 1).set 6 2⟩
  validatorsByConsAddr := (KVStore.empty.set 11 1).set 12 2

/-- An extension that the validator with consensus address 11 sends in the last block. -/
def extensionOf (signer key : UInt8) : RequestVerifyVoteExtension :=
  ⟨List.replicate 32 0, 11, 10, [signer, 11, 1, key]⟩

/-- An extension with the signature of its sender is accepted. -/
theorem own_signature_authentic :
    verifyVoteExtension simplePrimitives twoValidators (extensionOf 1 5) = .ok .accept ∧
      Authentic simplePrimitives twoValidators (extensionOf 1 5) := by
  have haccept : verifyVoteExtension simplePrimitives twoValidators (extensionOf 1 5)
      = .ok .accept := rfl
  refine ⟨haccept, (extension_authentic_iff simplePrimitives_unambiguous
    (by decide +kernel) haccept).mpr ?_⟩
  exact ⟨_, _, 1, 5, rfl, rfl, rfl, by decide +kernel, 1, by decide +kernel, by decide +kernel⟩

/-- Validator 1 sends the signature of validator 2. -/
theorem copied_signature_accepted :
    verifyVoteExtension simplePrimitives twoValidators (extensionOf 2 6) = .ok .accept ∧
      ¬Authentic simplePrimitives twoValidators (extensionOf 2 6) := by
  refine ⟨rfl, ?_⟩
  rintro ⟨_, _, key, ⟨⟩, ⟨⟩, ⟨operator, hoperator, hkey⟩, hverify⟩
  obtain rfl : 1 = operator := Option.some.inj (hoperator.symm.trans (by decide +kernel)).symm
  obtain rfl : 5 = key := Option.some.inj (hkey.symm.trans (by decide +kernel)).symm
  exact absurd hverify (by decide)

end Babylon.Checkpointing
