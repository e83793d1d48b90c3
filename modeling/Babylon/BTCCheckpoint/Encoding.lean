/-
  Encoding a checkpoint: the writing half of `btctxformatter/formatter.go`.

  `EncodeCheckpointData` lays a raw checkpoint out in two OP_RETURN payloads.  The
  functions of `Submission` that read payloads are characterised here by the byte
  strings they accept, and the round trips compare the two layouts.
-/
import Babylon.BTCCheckpoint.MsgServer

set_option autoImplicit false

namespace Babylon.BTCCheckpoint

open Lib List

variable {ext : Externals} {tag data body f s first second : Bytes} {version : UInt8}
  {partIndex : Nat} {ckpt : RawBtcCheckpoint}

/-! ## Writing the parts -/

def currentVersion : UInt8 := 0

/-- `getVerHalf`: the version in the low half of the byte, the part in the high one. -/
def getVerHalf (version halfNumber : UInt8) : UInt8 :=
  let verHalf : UInt8 := (0 &&& 0xf0) ||| (version &&& 0xf)
  (verHalf &&& (0xf : UInt8)) ||| (halfNumber <<< (4 : UInt8))

def encodeHeader (tag : Bytes) (version halfNumber : UInt8) : Bytes :=
  tag ++ [getVerHalf version halfNumber]

/-- The lowest `n` bytes of a number, the highest of them first. -/
def lowBytes : Nat → Nat → Bytes
  | 0, _ => []
  | n + 1, u => lowBytes n (u / 256) ++ [UInt8.ofNat u]

def u64ToBEBytes (u : Nat) : Bytes := lowBytes epochLength u

def encodeFirstOpRetrun (tag : Bytes) (version : UInt8) (epoch : Nat)
    (appHash bitMap submitterAddress : Bytes) : Bytes :=
  encodeHeader tag version 0 ++ (u64ToBEBytes epoch ++ (appHash ++ (bitMap ++ submitterAddress)))

def getCheckSum (ext : Externals) (firstTxBytes : Bytes) : Bytes :=
  (ext.sha256 firstTxBytes).take firstPartHashLength

def encodeSecondOpReturn (ext : Externals) (tag : Bytes) (version : UInt8)
    (firstOpReturnBytes blsSig : Bytes) : Bytes :=
  encodeHeader tag version 1 ++ (blsSig ++ getCheckSum ext (firstOpReturnBytes.drop headerLength))

/-- `EncodeCheckpointData`. -/
def encodeCheckpointData (ext : Externals) (tag : Bytes) (version : UInt8)
    (ckpt : RawBtcCheckpoint) : Outcome (Bytes × Bytes) := do
  ensure (tag.length = tagLength) (.errorf "tag should have 4 bytes")
  ensure (version ≤ currentVersion) (.errorf "invalid format version")
  ensure (ckpt.blockHash.length = blockHashLength) (.errorf "appHash should have 32 bytes")
  ensure (ckpt.bitMap.length = bitMapLength) (.errorf "bitmap should have 13 bytes")
  ensure (ckpt.blsSig.length = blsSigLength) (.errorf "BlsSig should have 48 bytes")
  ensure (ckpt.submitterAddress.length = addressLength) (.errorf "address should have 20 bytes")
  let firstHalf := encodeFirstOpRetrun tag version ckpt.epoch ckpt.blockHash ckpt.bitMap
    ckpt.submitterAddress
  return (firstHalf, encodeSecondOpReturn ext tag version firstHalf ckpt.blsSig)

/-- What `ParseSubmission` does with the payloads of the two transactions. -/
def decodePayloads (ext : Externals) (tag first second : Bytes) : Outcome RawBtcCheckpoint := do
  let part1 ← getCheckpointData tag 0 first
  let part2 ← getCheckpointData tag 1 second
  let rawCkptData ← connectParts ext part1 part2
  decodeRawCheckpoint rawCkptData

/-! ## Numbers -/

theorem bigEndian_concat (bytes : Bytes) (byte : UInt8) :
    bigEndian (bytes ++ [byte]) = 256 * bigEndian bytes + byte.toNat := by
  simp [bigEndian]

theorem length_lowBytes (n u : Nat) : (lowBytes n u).length = n := by
  induction n generalizing u with
  | zero => rfl
  | succ n ih => simp [lowBytes, ih]

theorem bigEndian_lowBytes (n u : Nat) : bigEndian (lowBytes n u) = u % 256 ^ n := by
  induction n generalizing u with
  | zero => simp [lowBytes, bigEndian, Nat.mod_one]
  | succ n ih =>
    rw [lowBytes, bigEndian_concat, ih, UInt8.toNat_ofNat', Nat.add_comm, Nat.pow_succ' (n := n),
      Nat.mod_mul]

theorem lowBytes_bigEndian (bytes : Bytes) : lowBytes bytes.length (bigEndian bytes) = bytes := by
  induction bytes using reverseRecOn with
  | nil => rfl
  | append_singleton bytes byte ih =>
    have hbyte := byte.toNat_lt
    have hhigh : (256 * bigEndian bytes + byte.toNat) / 256 = bigEndian bytes := by omega
    have hlow : UInt8.ofNat (256 * bigEndian bytes + byte.toNat) = byte :=
      UInt8.toNat.inj (by rw [UInt8.toNat_ofNat']; omega)
    rw [length_append, length_singleton, lowBytes, bigEndian_concat, hhigh, hlow, ih]

theorem length_u64ToBEBytes (u : Nat) : (u64ToBEBytes u).length = epochLength :=
  length_lowBytes epochLength u

theorem bigEndian_u64ToBEBytes {u : Nat} (hu : u < 2 ^ 64) : bigEndian (u64ToBEBytes u) = u := by
  rw [u64ToBEBytes, bigEndian_lowBytes]
  exact Nat.mod_eq_of_lt hu

theorem u64ToBEBytes_bigEndian (hlen : data.length = epochLength) :
    u64ToBEBytes (bigEndian data) = data := by
  rw [u64ToBEBytes, ← hlen, lowBytes_bigEndian]

theorem bigEndian_lt (hlen : data.length = epochLength) : bigEndian data < 2 ^ 64 := by
  rw [← u64ToBEBytes_bigEndian hlen, u64ToBEBytes, bigEndian_lowBytes]
  exact Nat.mod_lt _ (by decide)

/-! ## What the reading functions accept -/

theorem eq_getVerHalf_iff (hpart : partIndex ≤ 1) {byte : UInt8} :
    byte = getVerHalf currentVersion (UInt8.ofNat partIndex) ↔
      byte.toNat % 16 = 0 ∧ byte.toNat / 16 = partIndex := by
  have hvalue : (getVerHalf currentVersion (UInt8.ofNat partIndex)).toNat = 16 * partIndex := by
    interval_cases partIndex <;> rfl
  rw [← UInt8.toNat_inj, hvalue]
  omega

/-- The length of a part without its header. -/
def payloadLength (partIndex : Nat) : Nat :=
  (if partIndex = 0 then firstPartLength else secondPartLength) - headerLength

theorem take_header (hlen : tagLength < data.length) :
    data.take tagLength ++ data.getD tagLength 0 :: data.drop headerLength = data := by
  rw [getD_eq_getElem?_getD, getElem?_eq_getElem hlen, Option.getD_some, headerLength,
    ← drop_eq_getElem_cons hlen, take_append_drop]

theorem getCheckpointData_ok_iff :
    getCheckpointData tag partIndex data = .ok body ↔
      partIndex ≤ 1 ∧ tag.length = tagLength ∧ body.length = payloadLength partIndex ∧
        data = encodeHeader tag currentVersion (UInt8.ofNat partIndex) ++ body := by
  simp only [getCheckpointData, ok_iff]
  constructor
  · rintro ⟨_, hpart, _, hfirst, _, hsecond, _, htag, _, hversion, _, hidx, rfl⟩
    have hlength : data.length = payloadLength partIndex + headerLength := by
      interval_cases partIndex
      · exact hfirst rfl
      · exact hsecond rfl
    have hlen : tagLength < data.length := hlength ▸ Nat.lt_add_left _ (Nat.lt_succ_self _)
    refine ⟨hpart, ?_, ?_, ?_⟩
    · rw [← htag, length_take, min_eq_left hlen.le]
    · rw [length_drop, hlength, Nat.add_sub_cancel]
    · rw [encodeHeader, ← (eq_getVerHalf_iff hpart).mpr ⟨hversion, hidx⟩, ← htag, append_assoc]
      exact (take_header hlen).symm
  · rintro ⟨hpart, htag, hbody, rfl⟩
    have hlength : (encodeHeader tag currentVersion (UInt8.ofNat partIndex) ++ body).length
        = payloadLength partIndex + headerLength := by
      simp [encodeHeader, htag, hbody, headerLength]
      omega
    have hbyte := (eq_getVerHalf_iff hpart).mp rfl
    have hget : (encodeHeader tag currentVersion (UInt8.ofNat partIndex) ++ body).getD tagLength 0
        = getVerHalf currentVersion (UInt8.ofNat partIndex) := by
      simp [encodeHeader, ← htag]
    refine ⟨(), hpart, (), ?_, (), ?_, (), ?_, (), hget ▸ hbyte.1, (), hget ▸ hbyte.2, ?_⟩
    · rintro rfl
      exact hlength
    · rintro rfl
      exact hlength
    · rw [encodeHeader, append_assoc, take_left' htag]
    · exact drop_left' (by simp [encodeHeader, htag, headerLength])

section Parts

variable (hsha : ∀ bytes, (ext.sha256 bytes).length = 32)
include hsha

theorem length_getCheckSum : (getCheckSum ext f).length = firstPartHashLength := by
  rw [getCheckSum, length_take, hsha]
  rfl

theorem connectParts_ok_iff {raw : Bytes} :
    connectParts ext f s = .ok raw ↔
      f.length = payloadLength 0 ∧ ∃ blsSig : Bytes, blsSig.length = blsSigLength ∧
        s = blsSig ++ getCheckSum ext f ∧ raw = f ++ blsSig := by
  simp only [connectParts, ok_iff]
  constructor
  · rintro ⟨_, hf, _, hs, _, hsum, rfl⟩
    refine ⟨hf, _, ?_, ?_, rfl⟩
    · rw [length_take, hs]
      rfl
    · rw [getCheckSum, hsum, take_append_drop]
  · rintro ⟨hf, blsSig, hsig, rfl, rfl⟩
    have hsum := length_getCheckSum hsha (f := f)
    have hstart : (blsSig ++ getCheckSum ext f).length - firstPartHashLength = blsSig.length := by
      rw [length_append, hsum, Nat.add_sub_cancel]
    refine ⟨(), hf, (), ?_, (), ?_, ?_⟩
    · rw [length_append, hsum, hsig]
      rfl
    · rw [hstart, drop_left]
      rfl
    · rw [hstart, take_left]

end Parts

/-- The lengths a checkpoint has in its payloads; `Epoch` is a 64-bit number. -/
structure RawBtcCheckpoint.Sized (ckpt : RawBtcCheckpoint) : Prop where
  epoch : ckpt.epoch < 2 ^ 64
  blockHash : ckpt.blockHash.length = blockHashLength
  bitMap : ckpt.bitMap.length = bitMapLength
  submitterAddress : ckpt.submitterAddress.length = addressLength
  blsSig : ckpt.blsSig.length = blsSigLength

/-- The first part without its header. -/
def RawBtcCheckpoint.payload (ckpt : RawBtcCheckpoint) : Bytes :=
  u64ToBEBytes ckpt.epoch ++ (ckpt.blockHash ++ (ckpt.bitMap ++ ckpt.submitterAddress))

theorem RawBtcCheckpoint.Sized.length_payload (h : ckpt.Sized) :
    ckpt.payload.length = payloadLength 0 := by
  simp only [payload, length_append, length_u64ToBEBytes, h.blockHash, h.bitMap, h.submitterAddress]
  rfl

theorem decodeRawCheckpoint_ok_iff :
    decodeRawCheckpoint data = .ok ckpt ↔ ckpt.Sized ∧ data = ckpt.payload ++ ckpt.blsSig := by
  simp only [decodeRawCheckpoint, ok_iff]
  constructor
  · rintro ⟨_, hlen, rfl⟩
    have hep : (data.take epochLength).length = epochLength := by
      rw [length_take, hlen]
      rfl
    refine ⟨⟨bigEndian_lt hep, ?_, ?_, ?_, ?_⟩, ?_⟩
    iterate 4
      · simp only [length_take, length_drop, hlen]
        rfl
    · rw [RawBtcCheckpoint.payload, u64ToBEBytes_bigEndian hep,
        take_of_length_le (i := blsSigLength)]
      · simp only [append_assoc, take_append_drop]
      · simp only [length_drop, hlen]
        decide
  · rintro ⟨hsz, rfl⟩
    have hep := length_u64ToBEBytes ckpt.epoch
    refine ⟨(), ?_, ?_⟩
    · rw [length_append, hsz.length_payload, hsz.blsSig]
      rfl
    · simp only [RawBtcCheckpoint.payload, append_assoc]
      rw [take_left' hep, drop_left' hep, bigEndian_u64ToBEBytes hsz.epoch,
        take_left' hsz.blockHash, drop_left' hsz.blockHash, take_left' hsz.bitMap,
        drop_left' hsz.bitMap, take_left' hsz.submitterAddress,
        drop_left' hsz.submitterAddress, take_of_length_le hsz.blsSig.le]

/-! ## Round trips -/

theorem encodeCheckpointData_ok_iff (hep : ckpt.epoch < 2 ^ 64) :
    encodeCheckpointData ext tag version ckpt = .ok (first, second) ↔
      tag.length = tagLength ∧ version = currentVersion ∧ ckpt.Sized ∧
        first = encodeHeader tag version 0 ++ ckpt.payload ∧
        second = encodeHeader tag version 1 ++ (ckpt.blsSig ++ getCheckSum ext ckpt.payload) := by
  have hdrop (htag : tag.length = tagLength) : (encodeFirstOpRetrun tag version ckpt.epoch
      ckpt.blockHash ckpt.bitMap ckpt.submitterAddress).drop headerLength = ckpt.payload :=
    drop_left' (by rw [encodeHeader, length_append, htag]; rfl)
  have hversion : version ≤ currentVersion ↔ version = currentVersion := by
    rw [UInt8.le_iff_toNat_le, ← UInt8.toNat_inj]
    exact Nat.le_zero
  simp only [encodeCheckpointData, ok_iff, Prod.mk.injEq, encodeSecondOpReturn, hversion]
  constructor
  · rintro ⟨_, htag, _, hv, _, hhash, _, hbits, _, hsig, _, haddress, rfl, rfl⟩
    exact ⟨htag, hv, ⟨hep, hhash, hbits, haddress, hsig⟩, rfl, by rw [hdrop htag]⟩
  · rintro ⟨htag, hv, hsz, rfl, rfl⟩
    exact ⟨(), htag, (), hv, (), hsz.blockHash, (), hsz.bitMap, (), hsz.blsSig, (),
      hsz.submitterAddress, rfl, by rw [hdrop htag]⟩

theorem decodePayloads_ok_iff (hsha : ∀ bytes, (ext.sha256 bytes).length = 32) :
    decodePayloads ext tag first second = .ok ckpt ↔ ckpt.epoch < 2 ^ 64 ∧
      encodeCheckpointData ext tag currentVersion ckpt = .ok (first, second) := by
  simp only [decodePayloads, bind_ok_iff, getCheckpointData_ok_iff, connectParts_ok_iff hsha,
    decodeRawCheckpoint_ok_iff]
  constructor
  · rintro ⟨part1, ⟨-, htag, -, rfl⟩, part2, ⟨-, -, -, rfl⟩, raw,
      ⟨-, blsSig, hsig, rfl, rfl⟩, hsz, hraw⟩
    obtain ⟨rfl, rfl⟩ := append_inj' hraw (hsig.trans hsz.blsSig.symm)
    exact ⟨hsz.epoch, (encodeCheckpointData_ok_iff hsz.epoch).mpr ⟨htag, rfl, hsz, rfl, rfl⟩⟩
  · rintro ⟨hep, hencode⟩
    obtain ⟨htag, -, hsz, rfl, rfl⟩ := (encodeCheckpointData_ok_iff hep).mp hencode
    refine ⟨_, ⟨by decide, htag, hsz.length_payload, rfl⟩, _, ⟨le_rfl, htag, ?_, rfl⟩, _,
      ⟨hsz.length_payload, _, hsz.blsSig, rfl, rfl⟩, hsz, rfl⟩
    rw [length_append, length_getCheckSum hsha, hsz.blsSig]
    rfl

/-- Encoding and decoding a checkpoint are inverse to each other.  What
`EncodeCheckpointData` writes is read back as the same checkpoint, and the payloads of a
checkpoint that was read are the only ones it is written as. -/
theorem checkpoint_encoding_bijective (hsha : ∀ bytes, (ext.sha256 bytes).length = 32)
    (tag : Bytes) :
    (∀ version ckpt first second, ckpt.epoch < 2 ^ 64 →
      encodeCheckpointData ext tag version ckpt = .ok (first, second) →
        decodePayloads ext tag first second = .ok ckpt) ∧
    ∀ first second ckpt, decodePayloads ext tag first second = .ok ckpt →
      encodeCheckpointData ext tag currentVersion ckpt = .ok (first, second) := by
  refine ⟨fun version ckpt first second hepoch hencode => ?_, fun first second ckpt hdecode =>
    ((decodePayloads_ok_iff hsha).mp hdecode).2⟩
  obtain ⟨-, rfl, -⟩ := (encodeCheckpointData_ok_iff hepoch).mp hencode
  exact (decodePayloads_ok_iff hsha).mpr ⟨hepoch, hencode⟩

/-- A checkpoint of epoch 5 is written and read back, with a constant hash. -/
theorem checkpoint_read_back :
    let ext : Externals := { Sample.ext with sha256 := fun _ => .replicate 32 0 }
    let ckpt : RawBtcCheckpoint :=
      ⟨5, .replicate 32 1, .replicate 13 2, .replicate 20 3, .replicate 48 4⟩
    ∃ first second,
      encodeCheckpointData ext Sample.params.checkpointTag 0 ckpt = .ok (first, second) ∧
      decodePayloads ext Sample.params.checkpointTag first second = .ok ckpt :=
  ⟨_, _, rfl, (checkpoint_encoding_bijective (fun _ => rfl) _).1 0 _ _ _ (by decide) rfl⟩

end Babylon.BTCCheckpoint
