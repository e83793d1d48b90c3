/-
  `x/btccheckpoint/types/btcutils.go`: the data of an OP_RETURN output.

  `txscript.IsNullData` belongs to btcd; what is assumed of it stands in `RecognisesNullData`: it
  admits every push of at most 80 bytes.  `ExtractStandardOpReturnData` cuts the script at a fixed
  place, which is right for direct pushes and for OP_PUSHDATA1.
-/
import Mathlib.Data.Nat.Digits.Defs
import Babylon.BTCCheckpoint.MsgServer

set_option autoImplicit false

namespace Babylon

/-! ## Scripts -/

def opPushData1 : UInt8 := 0x4c

def opPushData2 : UInt8 := 0x4d

def opPushData4 : UInt8 := 0x4e

def opReturn : UInt8 := 0x6a

/-- The bytes after an opcode that hold the length of its data. -/
def lengthBytes (opcode : UInt8) : Nat :=
  if opcode = opPushData1 then 1 else if opcode = opPushData2 then 2
  else if opcode = opPushData4 then 4 else 0

/-- `ScriptTokenizer.Next`: the opcode, its data and the rest of the script.  OP_DATA_n pushes the
`n` bytes that follow; a length that does not fit into 31 bits is refused. -/
def nextToken : Bytes → Option (UInt8 × Bytes × Bytes)
  | [] => none
  | opcode :: script =>
    let dataLen := if opcode < opPushData1 then opcode.toNat
      else Nat.ofDigits 256 ((script.take (lengthBytes opcode)).map UInt8.toNat)
    let data := script.drop (lengthBytes opcode)
    if script.length < lengthBytes opcode ∨ data.length < dataLen ∨ 2 ^ 31 ≤ dataLen then none
    else some (opcode, data.take dataLen, data.drop dataLen)

/-- `txscript.IsSmallInt`. -/
def isSmallInt (opcode : UInt8) : Bool := opcode = 0 || 0x51 ≤ opcode && opcode ≤ 0x60

/-- `txscript.IsNullData`. -/
def isNullData (script : Bytes) : Bool :=
  match script with
  | [] => false
  | [opcode] => opcode = opReturn
  | opcode :: script => opcode = opReturn && (nextToken script).any fun (opcode, data, rest) =>
      rest = [] && (isSmallInt opcode || opcode ≤ opPushData4) && data.length ≤ 80

/-- The bytes that an OP_RETURN output pushes.  OP_1 to OP_16 stand for numbers and have none. -/
def pushedData (script : Bytes) : Bytes := (nextToken script.tail).elim [] fun token => token.2.1

/-- A token that ends the script pushes all bytes after its length. -/
theorem nextToken_data {opcode read : UInt8} {script data : Bytes}
    (h : nextToken (opcode :: script) = some (read, data, [])) :
    data = script.drop (lengthBytes opcode) ∧ lengthBytes opcode ≤ script.length := by
  simp only [nextToken, Option.ite_none_left_eq_some, not_or, Option.some.injEq, Prod.mk.injEq,
    List.drop_eq_nil_iff] at h
  obtain ⟨⟨hlen, -⟩, -, rfl, hall⟩ := h
  exact ⟨List.take_of_length_le hall, not_lt.mp hlen⟩

namespace BTCCheckpoint

open Lib

/-! ## Extraction -/

/-- The assumption on btcd. -/
def Externals.RecognisesNullData (ext : Externals) : Prop :=
  ∀ script, ext.isNullData script = Babylon.isNullData script

/-- The scripts of a transaction that are recognised. -/
def nullDataScripts (ext : Externals) (tx : MsgTx) : List Bytes :=
  (tx.txOut.map TxOut.pkScript).filter ext.isNullData

/-- For which outputs the cut is exact. -/
theorem opReturnDataOf_eq_iff {script : Bytes} (h : isNullData script = true) :
    opReturnDataOf script = pushedData script ↔
      script[1]? ≠ some opPushData2 ∧ script[1]? ≠ some opPushData4 := by
  match script with
  | [] => cases h
  | [_] => exact iff_of_true rfl ⟨by simp, by simp⟩
  | first :: opcode :: script =>
    simp only [isNullData, Bool.and_eq_true, Option.any_eq_true, Prod.exists] at h
    obtain ⟨-, read, data, rest, htoken, ⟨hrest, -⟩, -⟩ := h
    obtain rfl := of_decide_eq_true hrest
    obtain ⟨rfl, hlen⟩ := nextToken_data htoken
    have hne : ∀ n, 0 < n → n ≤ script.length → script ≠ script.drop n := by
      intro n hpos hle heq
      have hsame := congrArg List.length heq
      rw [List.length_drop] at hsame
      omega
    have hcut : opReturnDataOf (first :: opcode :: script)
        = if opcode = opPushData1 then script.drop 1 else script := if_neg (by simp)
    simp only [hcut, pushedData, List.tail_cons, htoken, Option.elim_some, List.getElem?_cons_succ,
      List.getElem?_cons_zero, Option.some.injEq, ne_eq]
    unfold lengthBytes at hlen ⊢
    split_ifs at hlen ⊢ with hone htwo hfour
    · simp [hone, opPushData1, opPushData2, opPushData4]
    · exact iff_of_false (hne 2 (by omega) hlen) fun h => h.1 htwo
    · exact iff_of_false (hne 4 (by omega) hlen) fun h => h.2 hfour
    · exact iff_of_true rfl ⟨htwo, hfour⟩

/-- The data of the only recognised output is exact unless it is pushed with OP_PUSHDATA2 or
OP_PUSHDATA4, and there is an error exactly if more than one output is recognised. -/
theorem extractStandardOpReturnData_exact_iff {ext : Externals} (hext : ext.RecognisesNullData)
    (tx : MsgTx) :
    ((∀ script, nullDataScripts ext tx = [script] →
        extractStandardOpReturnData ext tx = .ok (pushedData script)) ∧
      ((∃ fault, extractStandardOpReturnData ext tx = .error fault) ↔
        1 < (nullDataScripts ext tx).length)) ↔
    ∀ script, nullDataScripts ext tx = [script] →
      script[1]? ≠ some opPushData2 ∧ script[1]? ≠ some opPushData4 := by
  have hsame : (tx.txOut.map TxOut.pkScript).filter ext.isNullData = nullDataScripts ext tx := rfl
  simp only [extractStandardOpReturnData, hsame]
  cases hscripts : nullDataScripts ext tx with
  | nil =>
    rw [ensure_of _ (by simp), ok_bind]
    simp [pure, Except.pure]
  | cons script rest =>
    cases rest with
    | nil =>
      have hmem : script ∈ nullDataScripts ext tx := by simp [hscripts]
      have hnull := (hext script).symm.trans (List.mem_filter.mp hmem).2
      rw [ensure_of _ (by simp), ok_bind]
      simpa [pure, Except.pure] using opReturnDataOf_eq_iff hnull
    | cons =>
      rw [ensure_of_not _ (by simp), error_bind]
      simp

/-- A byte that is pushed directly is returned alone. -/
theorem direct_push_exact :
    extractStandardOpReturnData { Sample.ext with isNullData }
      (Sample.opReturnTx [opReturn, 1, 7] 0) = .ok [7] := by
  have hrecognises : Externals.RecognisesNullData { Sample.ext with isNullData } := fun _ => rfl
  refine ((extractStandardOpReturnData_exact_iff hrecognises _).mpr ?_).1 [opReturn, 1, 7] rfl
  rintro script ⟨⟩
  decide

/-- A byte that is pushed with OP_PUSHDATA2 comes with the bytes of its length. -/
theorem pushData2_not_exact :
    ∃ ext tx script, Externals.RecognisesNullData ext ∧ nullDataScripts ext tx = [script] ∧
      pushedData script = [7] ∧ extractStandardOpReturnData ext tx = .ok [1, 0, 7] :=
  ⟨{ Sample.ext with isNullData }, Sample.opReturnTx [opReturn, opPushData2, 1, 0, 7] 0, _,
    fun _ => rfl, rfl, rfl, rfl⟩

end BTCCheckpoint

end Babylon
