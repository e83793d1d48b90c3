/-
  `crypto/eots/eots.go`: extractable one-time signatures over secp256k1.

  A signature is the `s` part of a BIP-340 signature whose `R` part is the
  committed public randomness.  Two signatures with one public randomness over
  different messages reveal the private key.
-/
import Mathlib.Algebra.Order.Ring.Rat
import Mathlib.Data.Nat.Digits.Lemmas
import Babylon.Lib.XOnlyGroup
import Babylon.Types.Basic

set_option autoImplicit false

namespace Babylon.EOTS

open Lib

/-- `bbn.SchnorrEOTSSig`: 32 bytes, as the number they spell. -/
abbrev SchnorrEOTSSig := Fin (2 ^ 256)

/-- `bbn.SchnorrPubRand`: 32 bytes, as the number they spell. -/
abbrev SchnorrPubRand := Fin (2 ^ 256)

/-- The curve with the encodings and hashes of `btcec` that the scheme uses. -/
structure Curve extends XOnlyGroup where
  Digest : Type
  /-- `schnorr.ParsePubKey`: the point of even parity with this x coordinate -/
  parsePubKey : BIP340PubKey → Option Point
  /-- `schnorr.SerializePubKey` -/
  serializePubKey : Point → BIP340PubKey
  /-- `SchnorrPubRand.ToFieldValNormalized` -/
  toFieldVal : SchnorrPubRand → Coord
  /-- `SchnorrEOTSSig.ToModNScalar` -/
  toModNScalar : SchnorrEOTSSig → Scalar
  /-- `hash`: SHA-256 of the message -/
  hash : Bytes → Digest
  /-- the BIP-340 challenge of `(r, P, m)`; `none` when it is not below the order -/
  challenge : Coord → BIP340PubKey → Digest → Option Scalar
  parsePubKey_spec : ∀ pk P, parsePubKey pk = some P →
    P ≠ 0 ∧ isOdd P = false ∧ serializePubKey P = pk

variable (C : Curve)

/-- `verifyHash`. -/
def verifyHash (pubKeyBytes : BIP340PubKey) (r : C.Coord) (hash : C.Digest) (sig : C.Scalar) :
    Bool :=
  match C.parsePubKey pubKeyBytes with
  | none => false
  | some pubKey =>
    match C.challenge r (C.serializePubKey pubKey) hash with
    | none => false
    | some e =>
      let R := sig • C.base - e • pubKey
      decide (R ≠ 0) && !C.isOdd R && decide (r = C.xCoord R)

/-- `Verify`. -/
def verify (pubKey : C.Point) (r : C.Coord) (message : Bytes) (sig : C.Scalar) : Bool :=
  verifyHash C (C.serializePubKey pubKey) r (C.hash message) sig

/-- `extractFromHashes`: the private key, or an error. -/
def extractFromHashes (pubKey : C.Point) (r : C.Coord) (hash1 : C.Digest) (sig1 : C.Scalar)
    (hash2 : C.Digest) (sig2 : C.Scalar) : Outcome C.Scalar := do
  let pBytes := C.serializePubKey pubKey
  ensure (sig1 ≠ sig2) (.errorf "The two signatures need to be different in order to extract")
  let e1 ← orThrow (C.challenge r pBytes hash1) (.errorf "hash of (r || P || m1) too big")
  let e2 ← orThrow (C.challenge r pBytes hash2) (.errorf "hash of (r || P || m2) too big")
  let x := (sig1 - sig2) * (e1 - e2)⁻¹
  let x := if C.isOdd pubKey then -x else x
  ensure (x • C.base = pubKey) (.errorf "Extracted private key does not match public key")
  return x

/-- `Extract`. -/
def extract (pubKey : C.Point) (r : C.Coord) (message1 : Bytes) (sig1 : C.Scalar) (message2 : Bytes)
    (sig2 : C.Scalar) : Outcome C.Scalar :=
  extractFromHashes C pubKey r (C.hash message1) sig1 (C.hash message2) sig2

variable {C}

/-- What an accepted signature proves about its nonce point. -/
theorem verify_spec {pk : BIP340PubKey} {pubKey : C.Point} {r : C.Coord} {message : Bytes}
    {sig : C.Scalar} (hpk : C.parsePubKey pk = some pubKey)
    (h : verify C pubKey r message sig = true) :
    ∃ e, C.challenge r pk (C.hash message) = some e ∧ sig • C.base - e • pubKey ≠ 0 ∧
      C.isOdd (sig • C.base - e • pubKey) = false ∧ r = C.xCoord (sig • C.base - e • pubKey) := by
  obtain ⟨-, -, hser⟩ := C.parsePubKey_spec pk pubKey hpk
  simp only [verify, verifyHash, hser, hpk] at h
  split at h
  case h_1 => cases h
  case h_2 e he =>
    simp only [Bool.and_eq_true, decide_eq_true_eq, Bool.not_eq_true'] at h
    exact ⟨e, he, h.1.1, h.1.2, h.2⟩

/-- Extraction succeeds on two accepted signatures with one public randomness
whose challenges differ, and the extracted key belongs to the public key. -/
theorem extract_of_verify {pk : BIP340PubKey} {pubKey : C.Point} {r : C.Coord}
    {message1 message2 : Bytes} {sig1 sig2 : C.Scalar} (hpk : C.parsePubKey pk = some pubKey)
    (h1 : verify C pubKey r message1 sig1 = true) (h2 : verify C pubKey r message2 sig2 = true)
    (hne : C.challenge r pk (C.hash message1) ≠ C.challenge r pk (C.hash message2)) :
    ∃ x, extract C pubKey r message1 sig1 message2 sig2 = .ok x ∧
      C.serializePubKey (x • C.base) = pk := by
  obtain ⟨hzero, heven, hser⟩ := C.parsePubKey_spec pk pubKey hpk
  obtain ⟨e1, he1, hR1, hodd1, hr1⟩ := verify_spec hpk h1
  obtain ⟨e2, he2, hR2, hodd2, hr2⟩ := verify_spec hpk h2
  have he : e1 ≠ e2 := by
    rintro rfl
    exact hne (he1.trans he2.symm)
  -- both nonce points have x coordinate `r` and even parity
  have hR : sig1 • C.base - e1 • pubKey = sig2 • C.base - e2 • pubKey :=
    C.eq_of_xCoord_eq_of_even hR1 hR2 (hr1.symm.trans hr2) hodd1 hodd2
  have hx := C.discreteLog_of_two_responses he hR
  have hsig := C.response_ne_of_challenge_ne he hR hzero
  refine ⟨(sig1 - sig2) * (e1 - e2)⁻¹, ?_, by rw [hx, hser]⟩
  simp only [extract, extractFromHashes, hser, he1, he2, orThrow_some, ok_bind, heven,
    Bool.false_eq_true, if_false]
  rw [ensure_of _ hsig, ensure_of _ hx]
  rfl

/-! ## An instance to evaluate the scheme on concrete inputs -/

/-- A message as a number: its bytes in base 256, closed by a digit 1. -/
def messageNumber (message : Bytes) : Nat :=
  Nat.ofDigits 256 (message.map UInt8.toNat ++ [1])

theorem messageNumber_injective : Function.Injective messageNumber := by
  have hdigits : ∀ message : Bytes,
      Nat.digits 256 (messageNumber message) = message.map UInt8.toNat ++ [1] := by
    intro message
    refine Nat.digits_ofDigits 256 (by norm_num) _ ?_ (by simp)
    intro d hd
    rcases List.mem_append.mp hd with hd | hd
    · obtain ⟨b, -, rfl⟩ := List.mem_map.mp hd
      exact b.toNat_lt
    · obtain rfl := List.mem_singleton.mp hd
      norm_num
  intro a b h
  have hmap := hdigits a
  rw [h, hdigits b] at hmap
  exact List.map_injective_iff.mpr (fun _ _ => UInt8.toNat_inj.mp)
    (List.append_cancel_right hmap).symm

/-- The rational line: the x coordinate is the absolute value, and negative points are
odd.  The key `pk` is the point `pk + 1`.  A scalar is shifted by the number that
closes a vote, so that the signatures of votes fit into 32 bytes. -/
def Curve.rational : Curve where
  Scalar := ℚ
  Point := ℚ
  Coord := ℚ
  base := 1
  xCoord P := if P < 0 then -P else P
  isOdd P := decide (P < 0)
  eq_or_eq_neg := by
    intro P Q _ _ h
    have habs : ∀ R : ℚ, (if R < 0 then -R else R) = |R| := by
      intro R
      split_ifs with hneg
      · exact (abs_of_neg hneg).symm
      · exact (abs_of_nonneg (not_lt.mp hneg)).symm
    rw [habs, habs] at h
    exact abs_eq_abs.mp h
  isOdd_neg := by
    intro P hP
    rcases lt_or_gt_of_ne hP with hneg | hpos
    · simp [hneg, hneg.le]
    · simp [hpos, hpos.le]
  Digest := Bytes
  parsePubKey pk := some (pk.val + 1)
  serializePubKey P := Fin.ofNat _ (P - 1).num.toNat
  toFieldVal r := r.val
  toModNScalar s := s.val + 256 ^ 40
  hash message := message
  challenge _ _ message := some (messageNumber message)
  parsePubKey_spec := by
    rintro pk P ⟨⟩
    have hpos : (0 : ℚ) < pk.val + 1 := by positivity
    refine ⟨hpos.ne', by simpa using hpos.le, ?_⟩
    have hnum : ((pk.val : ℚ) + 1 - 1).num.toNat = pk.val := by simp
    rw [hnum]
    exact Fin.ext (Nat.mod_eq_of_lt pk.isLt)

end Babylon.EOTS
