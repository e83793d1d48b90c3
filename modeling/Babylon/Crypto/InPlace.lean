/-
  Scalars that are negated in place.

  `ModNScalar.Negate` writes to its receiver.  `crypto/eots/eots.go` applies it to the second
  signature that is given to `Extract`, and `crypto/schnorr-adaptor-signature/keys.go` to the
  private key that a decryption key is made from.  Pointers are numbers here, and a function
  returns the memory with its result.
-/
import Babylon.Crypto.Signing

set_option autoImplicit false

namespace Babylon.EOTS

open Lib

section Functions

variable (C : Curve)

/-- The scalars that pointers refer to. -/
abbrev Memory := Nat → C.Scalar

/-- `ModNScalar.Negate`. -/
def negate (mem : Memory C) (scalar : Nat) : Memory C := Function.update mem scalar (-mem scalar)

/-- `extractFromHashes`, with pointers to the signatures. -/
def extractFromHashesAt (pubKey : C.Point) (r : C.Coord) (hash1 : C.Digest) (sig1 : Nat)
    (hash2 : C.Digest) (sig2 : Nat) (mem : Memory C) : Outcome C.Scalar × Memory C :=
  let pBytes := C.serializePubKey pubKey
  if mem sig1 = mem sig2 then
    (.error (.errorf "The two signatures need to be different in order to extract"), mem)
  else
    match C.challenge r pBytes hash1, C.challenge r pBytes hash2 with
    | none, _ => (.error (.errorf "hash of (r || P || m1) too big"), mem)
    | some _, none => (.error (.errorf "hash of (r || P || m2) too big"), mem)
    | some e1, some e2 =>
      let mem := negate C mem sig2
      let x := (mem sig1 + mem sig2) * (e1 - e2)⁻¹
      let x := if C.isOdd pubKey then -x else x
      if x • C.base = pubKey then (.ok x, mem)
      else (.error (.errorf "Extracted private key does not match public key"), mem)

/-- `Extract`, with pointers to the signatures. -/
def extractAt (pubKey : C.Point) (r : C.Coord) (message1 : Bytes) (sig1 : Nat) (message2 : Bytes)
    (sig2 : Nat) (mem : Memory C) : Outcome C.Scalar × Memory C :=
  extractFromHashesAt C pubKey r (C.hash message1) sig1 (C.hash message2) sig2 mem

/-- `NewDecryptionKeyFromModNScalar`. -/
def newDecryptionKeyFromModNScalar (scalar : Nat) (blinding : Option C.Scalar) (mem : Memory C) :
    Outcome C.Scalar × Memory C :=
  if mem scalar = 0 then (.error (.errorf "the given scalar is zero"), mem)
  else
    match scalarBaseMultWithBlinding C (mem scalar) blinding with
    | .error fault => (.error fault, mem)
    | .ok ekPoint =>
      let mem := if C.isOdd ekPoint then negate C mem scalar else mem
      (.ok (mem scalar), mem)

/-- `NewDecryptionKeyFromBTCSK`. -/
def newDecryptionKeyFromBTCSK (btcSK : Nat) (blinding : Option C.Scalar) (mem : Memory C) :
    Outcome C.Scalar × Memory C :=
  newDecryptionKeyFromModNScalar C btcSK blinding mem

/-- `BuildSlashingTxWithWitness`: what follows the decryption key only reads it and `fpSK`. -/
def buildSlashingTxWithWitness {Tx : Type} (witness : C.Scalar → C.Scalar → Outcome Tx)
    (fpSK : Nat) (blinding : Option C.Scalar) (mem : Memory C) : Outcome Tx × Memory C :=
  let (decKey, mem) := newDecryptionKeyFromBTCSK C fpSK blinding mem
  (do witness (← decKey) (mem fpSK), mem)

variable {C}

theorem negate_eq_self_iff {mem : Memory C} {scalar : Nat} :
    negate C mem scalar = mem ↔ -mem scalar = mem scalar := Function.update_eq_self_iff

end Functions

/-- `Extract` keeps the signatures exactly if it stops before the subtraction or the second one is
its own negation, and a decryption key is made without a change of the private key exactly if
that fails or the key is even or its own negation. -/
theorem arguments_kept_iff (C : PrimeOrderCurve) (mem : Memory C.toCurve) :
    (∀ pubKey r message1 sig1 message2 sig2,
      (extractAt C.toCurve pubKey r message1 sig1 message2 sig2 mem).2 = mem ↔
        mem sig1 = mem sig2 ∨ C.challenge r (C.serializePubKey pubKey) (C.hash message1) = none ∨
          C.challenge r (C.serializePubKey pubKey) (C.hash message2) = none ∨
          -mem sig2 = mem sig2) ∧
    ∀ (sk : Nat) (blinding : Option C.Scalar),
      ((newDecryptionKeyFromBTCSK C.toCurve sk blinding mem).2 = mem ↔ mem sk = 0 ∨
        blinding = none ∨ C.isOdd (mem sk • C.base) = false ∨ -mem sk = mem sk) ∧
      ∀ {Tx : Type} (witness : C.Scalar → C.Scalar → Outcome Tx),
        (buildSlashingTxWithWitness C.toCurve witness sk blinding mem).2
          = (newDecryptionKeyFromBTCSK C.toCurve sk blinding mem).2 := by
  refine ⟨fun pubKey r message1 sig1 message2 sig2 => ?_, fun sk blinding => ⟨?_, fun _ => rfl⟩⟩
  · simp only [extractAt, extractFromHashesAt]
    by_cases hsig : mem sig1 = mem sig2
    · simp [hsig]
    · cases C.challenge r (C.serializePubKey pubKey) (C.hash message1) with
      | none => simp [hsig]
      | some e1 =>
        cases C.challenge r (C.serializePubKey pubKey) (C.hash message2) with
        | none => simp [hsig]
        | some e2 =>
          simp only [hsig, if_false, apply_ite Prod.snd, ite_self, negate_eq_self_iff, reduceCtorEq,
            false_or]
  · simp only [newDecryptionKeyFromBTCSK, newDecryptionKeyFromModNScalar]
    by_cases hzero : mem sk = 0
    · simp [hzero]
    · cases blinding with
      | none => simp [hzero, scalarBaseMultWithBlinding, orThrow]
      | some blinding =>
        rw [scalarBaseMultWithBlinding_some]
        cases hodd : C.isOdd (mem sk • C.base) <;> simp [hzero, hodd, negate_eq_self_iff]

/-- An odd key gets another public key, and of two equal calls of `Extract` only the first one
finds it. -/
theorem arguments_negated : ∃ call mem,
    call = extractAt Curve.modThree (2 : ZMod 3) false [1] 0 [] 1 ∧
      (call mem).1.toOption = some (2 : Curve.modThree.Scalar) ∧ (call mem).2 1 ≠ mem 1 ∧
      (call (call mem).2).1.toOption = none ∧
      (newDecryptionKeyFromBTCSK Curve.modThree 1 (some (0 : ZMod 3)) mem).2 1
        • Curve.modThree.base ≠ mem 1 • Curve.modThree.base := by
  refine ⟨_, fun pointer => if pointer = 0 then (0 : ZMod 3) else (2 : ZMod 3), rfl, ?_⟩
  decide +kernel

end Babylon.EOTS
