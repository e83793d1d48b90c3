/-
  `crypto/eots/eots.go`: making extractable one-time signatures.

  Signing normalises the private key and the nonce by the parities of their points,
  verification lifts the key from its x coordinate, and extraction undoes the
  normalisation of the key.  Here the three fit together over a curve whose encoding of
  points is the one of BIP-340.
-/
import Mathlib.Algebra.Field.ZMod
import Babylon.Crypto.EOTS

set_option autoImplicit false

namespace Babylon.EOTS

open Lib

/-! ## Signing -/

section Signing

variable (C : Curve)

/-- `ScalarBaseMultWithBlinding`: `none` when no randomness can be read. -/
def scalarBaseMultWithBlinding (k : C.Scalar) (blinding : Option C.Scalar) : Outcome C.Point := do
  let r ← orThrow blinding (.errorf "failed to generate random input")
  let krG := (k + r) • C.base
  let rNegG := (-r) • C.base
  return krG + rNegG

/-- `signHash`. -/
def signHash (sk privateRand : C.Scalar) (blinding : Option C.Scalar) (hash : C.Digest) :
    Outcome C.Scalar := do
  ensure (sk ≠ 0) (.errorf "private key is zero")
  let pubKey := sk • C.base
  let isPyOdd := C.isOdd pubKey
  let R ← scalarBaseMultWithBlinding C privateRand blinding
  let isRyOdd := C.isOdd R
  let e ← orThrow (C.challenge (C.xCoord R) (C.serializePubKey pubKey) hash)
    (.errorf "hash of (r || P || m) too big")
  return match isPyOdd, isRyOdd with
    | true, true => e * -sk + -privateRand
    | true, false => e * -sk + privateRand
    | false, true => e * sk + -privateRand
    | false, false => e * sk + privateRand

/-- `Sign`. -/
def sign (sk privateRand : C.Scalar) (blinding : Option C.Scalar) (message : Bytes) :
    Outcome C.Scalar :=
  signHash C sk privateRand blinding (C.hash message)

end Signing

/-! ## Points and their encoding -/

/-- A group of prime order: its scalars form a field, its generator is not zero, a point and
its negation share their x coordinate, and the encoding of a point stands for the one of the
two that is even.  The bytes of the point at infinity are no encoding. -/
structure PrimeOrderCurve extends Curve where
  base_ne_zero : base ≠ 0
  xCoord_neg : ∀ P, xCoord (-P) = xCoord P
  parsePubKey_serializePubKey : ∀ P, P ≠ 0 →
    parsePubKey (serializePubKey P) = some (if isOdd P then -P else P)
  parsePubKey_zero : parsePubKey (serializePubKey 0) = none

namespace PrimeOrderCurve

variable (C : PrimeOrderCurve)

/-- The multiple of a point that its x coordinate stands for. -/
def normalise (odd : Bool) (x : C.Scalar) : C.Scalar := if odd then -x else x

theorem normalise_smul (x : C.Scalar) (P : C.Point) (odd : Bool) :
    C.normalise odd x • P = if odd then -(x • P) else x • P := by
  cases odd with
  | true => exact neg_smul x P
  | false => rfl

theorem smul_base_ne_zero {x : C.Scalar} (h : x ≠ 0) : x • C.base ≠ 0 := by
  intro hzero
  refine C.base_ne_zero ?_
  calc C.base = x⁻¹ • x • C.base := by rw [smul_smul, inv_mul_cancel₀ h, one_smul]
    _ = 0 := by rw [hzero, smul_zero]

/-- A point normalised by its own parity is even, and keeps its x coordinate. -/
theorem normalised_spec {P : C.Point} (h : P ≠ 0) :
    (if C.isOdd P then -P else P) ≠ 0 ∧ C.isOdd (if C.isOdd P then -P else P) = false ∧
      C.xCoord (if C.isOdd P then -P else P) = C.xCoord P := by
  cases hodd : C.isOdd P with
  | true =>
    refine ⟨neg_ne_zero.mpr h, ?_, C.xCoord_neg P⟩
    rw [if_pos rfl, C.isOdd_neg P h, hodd]
    rfl
  | false => exact ⟨h, hodd, rfl⟩

end PrimeOrderCurve

/-! ## Correctness -/

variable {C : PrimeOrderCurve}

/-- Blinding does not change the nonce point. -/
theorem scalarBaseMultWithBlinding_some (k blinding : C.Scalar) :
    scalarBaseMultWithBlinding C.toCurve k (some blinding) = .ok (k • C.base) := by
  unfold scalarBaseMultWithBlinding
  rw [orThrow_some, ok_bind]
  dsimp only
  rw [← add_smul, add_neg_cancel_right]
  rfl

/-- The signature of a challenge: the normalised key answers it over the normalised nonce. -/
theorem signHash_eq {sk : C.Scalar} (hsk : sk ≠ 0) (privateRand blinding : C.Scalar)
    (hash : C.Digest) :
    signHash C.toCurve sk privateRand (some blinding) hash =
      match C.challenge (C.xCoord (privateRand • C.base))
        (C.serializePubKey (sk • C.base)) hash with
      | none => .error (.errorf "hash of (r || P || m) too big")
      | some e => .ok (e * C.normalise (C.isOdd (sk • C.base)) sk
          + C.normalise (C.isOdd (privateRand • C.base)) privateRand) := by
  unfold signHash
  rw [ensure_of _ hsk, ok_bind, scalarBaseMultWithBlinding_some, ok_bind]
  cases C.challenge (C.xCoord (privateRand • C.base)) (C.serializePubKey (sk • C.base)) hash with
  | none => rfl
  | some e =>
    rw [orThrow_some, ok_bind]
    cases C.isOdd (sk • C.base) <;> cases C.isOdd (privateRand • C.base) <;> rfl

/-- An answer of the normalised key over the normalised nonce is accepted. -/
theorem verifyHash_answer {sk k e : C.Scalar} (hsk : sk ≠ 0) (hk : k ≠ 0) {hash : C.Digest}
    (he : C.challenge (C.xCoord (k • C.base)) (C.serializePubKey (sk • C.base)) hash = some e) :
    verifyHash C.toCurve (C.serializePubKey (sk • C.base)) (C.xCoord (k • C.base)) hash
      (e * C.normalise (C.isOdd (sk • C.base)) sk + C.normalise (C.isOdd (k • C.base)) k)
      = true := by
  have hparse := C.parsePubKey_serializePubKey _ (C.smul_base_ne_zero hsk)
  have hser := (C.parsePubKey_spec _ _ hparse).2.2
  -- subtracting the challenge times the lifted key leaves the normalised nonce point
  have hnonce : (e * C.normalise (C.isOdd (sk • C.base)) sk
        + C.normalise (C.isOdd (k • C.base)) k) • C.base
      - e • (if C.isOdd (sk • C.base) then -(sk • C.base) else sk • C.base)
      = if C.isOdd (k • C.base) then -(k • C.base) else k • C.base := by
    rw [← C.normalise_smul, ← C.normalise_smul, add_smul, mul_smul, add_sub_cancel_left]
  obtain ⟨hne, heven, hcoord⟩ := C.normalised_spec (C.smul_base_ne_zero hk)
  unfold verifyHash
  rw [hparse]
  dsimp only
  rw [hser, he]
  dsimp only
  rw [hnonce, decide_eq_true hne, heven, hcoord, decide_eq_true rfl]
  rfl

variable {pubKey : C.Point}

/-- Every accepted signature is about a public key that can be lifted. -/
theorem ne_zero_of_verify {r : C.Coord} {message : Bytes} {sig : C.Scalar}
    (h : verify C.toCurve pubKey r message sig = true) : pubKey ≠ 0 := by
  rintro rfl
  unfold verify verifyHash at h
  rw [C.parsePubKey_zero] at h
  cases h

/-- Extraction negates what it extracts from the lifted key, when the key itself is odd. -/
theorem extract_of_lifted (hzero : pubKey ≠ 0) (hodd : C.isOdd pubKey = true) {r : C.Coord}
    {message1 message2 : Bytes} {sig1 sig2 x : C.Scalar}
    (h : extract C.toCurve (-pubKey) r message1 sig1 message2 sig2 = .ok x)
    (hser : C.serializePubKey (-pubKey) = C.serializePubKey pubKey) :
    extract C.toCurve pubKey r message1 sig1 message2 sig2 = .ok (-x) := by
  have heven : C.isOdd (-pubKey) = false := by
    rw [C.isOdd_neg pubKey hzero, hodd]
    rfl
  simp only [extract, extractFromHashes, hser, heven, hodd, ok_iff, Bool.false_eq_true, if_false,
    if_true] at h ⊢
  obtain ⟨-, hsig, e1, he1, e2, he2, -, hx, rfl⟩ := h
  refine ⟨(), hsig, e1, he1, e2, he2, (), ?_, rfl⟩
  rw [neg_smul, hx, neg_neg]

theorem smul_base_of_extract {r : C.Coord} {message1 message2 : Bytes} {sig1 sig2 x : C.Scalar}
    (h : extract C.toCurve pubKey r message1 sig1 message2 sig2 = .ok x) : x • C.base = pubKey := by
  simp only [extract, extractFromHashes, ok_iff] at h
  obtain ⟨-, -, e1, -, e2, -, -, hkey, heq⟩ := h
  rwa [heq] at hkey

/-- A signature made by `Sign` is accepted, for every parity of the key and of the nonce, and
none is made only for a challenge that is not below the order; two accepted signatures with one
public randomness and different challenges reveal the private key. -/
theorem sign_verify_extract (C : PrimeOrderCurve) :
    (∀ (sk privateRand blinding : C.Scalar) (message : Bytes), sk ≠ 0 → privateRand ≠ 0 →
      (∃ sig, sign C.toCurve sk privateRand (some blinding) message = .ok sig ∧
        verify C.toCurve (sk • C.base) (C.xCoord (privateRand • C.base)) message sig = true) ∨
      C.challenge (C.xCoord (privateRand • C.base)) (C.serializePubKey (sk • C.base))
          (C.hash message) = none ∧
        sign C.toCurve sk privateRand (some blinding) message
          = .error (.errorf "hash of (r || P || m) too big")) ∧
    ∀ (pubKey : C.Point) (r : C.Coord) (message1 message2 : Bytes) (sig1 sig2 : C.Scalar),
      verify C.toCurve pubKey r message1 sig1 = true →
      verify C.toCurve pubKey r message2 sig2 = true →
      C.challenge r (C.serializePubKey pubKey) (C.hash message1)
        ≠ C.challenge r (C.serializePubKey pubKey) (C.hash message2) →
      ∃ x, extract C.toCurve pubKey r message1 sig1 message2 sig2 = .ok x ∧
        C.serializePubKey (x • C.base) = C.serializePubKey pubKey := by
  constructor
  · intro sk privateRand blinding message hsk hrand
    have hsign := signHash_eq hsk privateRand blinding (C.hash message)
    cases hchallenge : C.challenge (C.xCoord (privateRand • C.base))
        (C.serializePubKey (sk • C.base)) (C.hash message) with
    | none =>
      rw [hchallenge] at hsign
      exact .inr ⟨rfl, hsign⟩
    | some e =>
      rw [hchallenge] at hsign
      exact .inl ⟨_, hsign, verifyHash_answer hsk hrand hchallenge⟩
  · intro pubKey r message1 message2 sig1 sig2 h1 h2 hne
    have hzero := ne_zero_of_verify h1
    have hparse := C.parsePubKey_serializePubKey pubKey hzero
    cases hodd : C.isOdd pubKey with
    | false =>
      rw [hodd] at hparse
      exact extract_of_verify hparse h1 h2 hne
    | true =>
      -- verification sees the lifted key, whose bytes are those of the key
      rw [hodd, if_pos rfl] at hparse
      have hserialize := (C.parsePubKey_spec _ _ hparse).2.2
      have hsame : ∀ message sig, verify C.toCurve pubKey r message sig
          = verify C.toCurve (-pubKey) r message sig := by
        intro message sig
        unfold verify
        rw [hserialize]
      rw [hsame] at h1 h2
      obtain ⟨x, hextract, -⟩ := extract_of_verify hparse h1 h2 hne
      have hnegated := extract_of_lifted hzero hodd hextract hserialize
      exact ⟨-x, hnegated, by rw [smul_base_of_extract hnegated]⟩

/-! ## An instance to evaluate the scheme on concrete inputs -/

/-- The integers modulo 3, with the even point 1 and the odd point 2. -/
def Curve.modThree : Curve where
  Scalar := ZMod 3
  Point := ZMod 3
  Coord := Bool
  base := 1
  xCoord P := decide (P = 0)
  isOdd P := decide (P = 2)
  eq_or_eq_neg := by decide
  isOdd_neg := by decide
  Digest := Bytes
  parsePubKey pk := if pk = 1 then some 1 else none
  serializePubKey P := if P = 0 then 0 else 1
  toFieldVal r := decide (r = 0)
  toModNScalar s := s.val
  hash message := message
  challenge _ _ message := some (messageNumber message)
  parsePubKey_spec := by
    intro pk P h
    split at h
    case isFalse => cases h
    case isTrue hone =>
      obtain rfl := Option.some.inj h
      exact ⟨by decide, by decide, hone.symm⟩

def PrimeOrderCurve.modThree : PrimeOrderCurve where
  toCurve := Curve.modThree
  base_ne_zero := one_ne_zero (α := ZMod 3)
  xCoord_neg := (by decide : ∀ P : ZMod 3, decide (-P = 0) = decide (P = 0))
  parsePubKey_serializePubKey := (by decide +kernel : ∀ P : ZMod 3, P ≠ 0 →
    (if (if P = 0 then (0 : BIP340PubKey) else 1) = 1 then some (1 : ZMod 3) else none)
      = some (if decide (P = 2) then -P else P))
  parsePubKey_zero := rfl

/-- A key and a nonce that are both odd sign two messages, and the two signatures reveal the
key. -/
theorem sign_verify_extract_modThree : ∃ sk k sig1 sig2 x : Curve.modThree.Scalar,
    Curve.modThree.isOdd (sk • Curve.modThree.base) = true ∧
    Curve.modThree.isOdd (k • Curve.modThree.base) = true ∧
    sign Curve.modThree sk k (some 0) [] = .ok sig1 ∧
    sign Curve.modThree sk k (some 1) [1] = .ok sig2 ∧
    extract Curve.modThree (sk • Curve.modThree.base)
      (Curve.modThree.xCoord (k • Curve.modThree.base)) [] sig1 [1] sig2 = .ok x ∧
    Curve.modThree.serializePubKey (x • Curve.modThree.base)
      = Curve.modThree.serializePubKey (sk • Curve.modThree.base) := by
  have hodd : (2 : ZMod 3) ≠ 0 := by decide
  obtain ⟨hsigns, hextracts⟩ := sign_verify_extract PrimeOrderCurve.modThree
  rcases hsigns (2 : ZMod 3) (2 : ZMod 3) 0 [] hodd hodd with ⟨sig1, hsig1, hverify1⟩ | ⟨hnone, -⟩
  case inr => cases hnone
  rcases hsigns (2 : ZMod 3) (2 : ZMod 3) 1 [1] hodd hodd with ⟨sig2, hsig2, hverify2⟩ | ⟨hnone, -⟩
  case inr => cases hnone
  have hne : (some (messageNumber [] : ZMod 3)) ≠ some (messageNumber [1] : ZMod 3) := by decide
  obtain ⟨x, hx, hkey⟩ := hextracts _ _ [] [1] sig1 sig2 hverify1 hverify2 hne
  exact ⟨(2 : ZMod 3), (2 : ZMod 3), sig1, sig2, x, rfl, rfl, hsig1, hsig2, hx, hkey⟩

end Babylon.EOTS
