/-
  Common types of the modules: errors, addresses, decimals, the block header a
  message is executed under, and BIP-340 public keys with their hex spelling.

  Babylon heights, Bitcoin heights and satoshi amounts are natural numbers (a
  difference of amounts is an integer).  The code holds them in `uint64`,
  `int64` and `uint32`; a height grows by one per block and an amount is bounded
  by the Bitcoin supply, so none of that arithmetic wraps.  Where a sender
  chooses a number freely, and the code tests for a wrap-around, the model keeps
  the width of the type.
-/
import Mathlib.Order.Fin.Basic
import Mathlib.Tactic.Ring
import Mathlib.Tactic.NormNum
import Mathlib.Tactic.IntervalCases
import Babylon.Lib.Outcome

set_option autoImplicit false

namespace Babylon

open Lib

/-- Byte strings. -/
abbrev Bytes := List UInt8

/-- Account addresses, already decoded from their bech32 spelling. -/
abbrev AccAddress := Nat

/-- Addresses of validators. -/
abbrev ValAddress := Nat

/-- `LegacyDec`: a decimal with 18 fractional digits, as its scaled integer. -/
abbrev Dec := Int

/-- The scaled representation of one. -/
def Dec.one : Dec := 10 ^ 18

/-- `LegacyDec.TruncateInt`. -/
def Dec.truncateInt (a : Dec) : Int := a.tdiv (10 ^ 18)

/-- Points in time and durations, in nanoseconds. -/
abbrev Time := Int

/-- An error registered by a module: its codespace, code and description. -/
structure RegisteredError where
  codespace : String
  code : Nat
  description : String

/-- How a call fails.  A message handler that returns `error` or `panic` leaves
no trace in the state; in `BeginBlock` and `EndBlock` a panic halts the chain. -/
inductive Fault where
  /-- a returned error: the registered error it wraps, if any, and its format text -/
  | error (registered : Option RegisteredError) (text : String)
  /-- a Go panic -/
  | panic (text : String)
  /-- a panic raised because a hook registered by another module returned an error -/
  | hookFailed (text : String)

namespace Fault

/-- `fmt.Errorf` and `status.Errorf`. -/
def errorf (text : String) : Fault := .error none text

/-- `err.Wrapf` of a registered error. -/
def wrapf (err : RegisteredError) (text : String) : Fault := .error (some err) text

/-- A registered error returned as it is. -/
def registered (err : RegisteredError) : Fault := .error (some err) err.description

/-- Whether the failure is a panic of the code itself. -/
def isPanic : Fault → Bool
  | .error _ _ => false
  | .panic _ => true
  | .hookFailed _ => false

/-- Whether the failure is a returned error. -/
def isError : Fault → Bool
  | .error _ _ => true
  | .panic _ => false
  | .hookFailed _ => false

end Fault

/-- Results of keeper calls. -/
abbrev Outcome (A : Type) := Except Fault A

/-- The call panics. -/
def Outcome.panics {A : Type} : Outcome A → Bool
  | .ok _ => false
  | .error fault => fault.isPanic

/-- A call whose error the caller turns into a panic. -/
def Outcome.orPanic {A : Type} (call : Outcome A) (text : String) : Outcome A :=
  match call with
  | .ok a => .ok a
  | .error _ => .error (.panic text)

variable {text : String}

theorem Outcome.orPanic_ok_iff {A : Type} {call : Outcome A} {a : A} :
    call.orPanic text = .ok a ↔ call = .ok a := by
  cases call <;> simp [Outcome.orPanic]

theorem Outcome.orPanic_map {A B : Type} (call : Outcome A) (f : A → B) (text : String) :
    Outcome.orPanic (call.map f) text = (call.orPanic text).map f := by
  cases call <;> rfl

theorem Lib.FailsOnly.orPanic {A : Type} {allowed : Fault → Prop} {call : Outcome A}
    (h : allowed (.panic text)) : FailsOnly allowed (call.orPanic text) := by
  intro fault hfault
  cases call with
  | ok a => cases hfault
  | error _ =>
    cases hfault
    exact h

/-- A call whose error the caller wraps in a registered one. -/
def Outcome.orWrapf {A : Type} (call : Outcome A) (err : RegisteredError) (text : String) :
    Outcome A :=
  match call with
  | .error (.error _ _) => .error (.wrapf err text)
  | other => other

theorem Outcome.orWrapf_ok_iff {A : Type} {call : Outcome A} {err : RegisteredError} {a : A} :
    call.orWrapf err text = .ok a ↔ call = .ok a := by
  unfold Outcome.orWrapf
  split <;> simp

/-- A call whose error the caller wraps with a text, keeping the registered error. -/
def Outcome.orWrap {A : Type} (call : Outcome A) (text : String) : Outcome A :=
  match call with
  | .error (.error registered _) => .error (.error registered text)
  | other => other

theorem Outcome.orWrap_ok_iff {A : Type} {call : Outcome A} {a : A} :
    call.orWrap text = .ok a ↔ call = .ok a := by
  unfold Outcome.orWrap
  split <;> simp

/-- A call whose failure the caller replaces by its own. -/
def Outcome.orFail {A : Type} (call : Outcome A) (failure : Fault) : Outcome A :=
  match call with
  | .ok a => .ok a
  | .error _ => .error failure

theorem Outcome.orFail_ok_iff {A : Type} {call : Outcome A} {failure : Fault} {a : A} :
    call.orFail failure = .ok a ↔ call = .ok a := by
  cases call <;> simp [Outcome.orFail]

/-! ## Calls that may fail half-way

A caller that only logs the error of a call keeps what the call had written.  The
failure of an `Attempt` therefore carries the state it leaves behind. -/

/-- Results of calls that write to a state of type `S`. -/
abbrev Attempt (S A : Type) := Except (Fault × S) A

/-- A call made in state `s`, which remains if the call fails. -/
def Outcome.leaving {S A : Type} (call : Outcome A) (s : S) : Attempt S A :=
  match call with
  | .ok a => .ok a
  | .error fault => .error (fault, s)

/-- A call whose failure discards all that it wrote. -/
def Attempt.reverted {S A : Type} (call : Attempt S A) : Outcome A :=
  match call with
  | .ok a => .ok a
  | .error (fault, _) => .error fault

/-- A call that writes to a part of the state. -/
def Attempt.within {S T A : Type} (call : Attempt S A) (whole : S → T) : Attempt T A :=
  match call with
  | .ok a => .ok a
  | .error (fault, s) => .error (fault, whole s)

/-- The state after a call whose error is only logged. -/
def Attempt.logged {S : Type} (call : Attempt S S) : S :=
  match call with
  | .ok s => s
  | .error (_, s) => s

section Attempts

variable {S A : Type}

@[simp] theorem Outcome.leaving_ok (s : S) (a : A) :
    Outcome.leaving (.ok a : Outcome A) s = .ok a := rfl

@[simp] theorem Outcome.leaving_error (s : S) (fault : Fault) :
    Outcome.leaving (.error fault : Outcome A) s = .error (fault, s) := rfl

theorem Attempt.reverted_ok_iff {call : Attempt S A} {a : A} :
    call.reverted = .ok a ↔ call = .ok a := by
  cases call <;> simp [Attempt.reverted]

/-- A call that leaves `P` behind if it fails, and `Q` holds of its result. -/
def Attempt.Keeps {S A : Type} (P : S → Prop) (Q : A → Prop) (call : Attempt S A) : Prop :=
  match call with
  | .ok a => Q a
  | .error (_, s) => P s

namespace Attempt.Keeps

variable {S T A B : Type} {P : S → Prop} {Q : A → Prop}

theorem ok {a : A} (h : Q a) : Keeps P Q (.ok a) := h

variable {call : Attempt S A}

theorem bind {R : B → Prop} {next : A → Attempt S B} (h : Keeps P Q call)
    (hnext : ∀ a, Q a → Keeps P R (next a)) : Keeps P R (call >>= next) := by
  cases call with
  | ok a => exact hnext a h
  | error failure => exact h

theorem leaving {call : Outcome A} {s : S} (hs : P s) (h : ∀ a, call = .ok a → Q a) :
    Keeps P Q (call.leaving s) := by
  cases call with
  | ok a => exact h a rfl
  | error fault => exact hs

/-- A call that only reads keeps what held before it. -/
theorem reading {call : Outcome B} {s : S} {next : B → Attempt S A} (hs : P s)
    (hnext : ∀ b, Keeps P Q (next b)) : Keeps P Q (call.leaving s >>= next) :=
  bind (leaving hs fun _ _ => trivial) fun b (_ : True) => hnext b

theorem within {whole : S → T} {P' : T → Prop} (h : Keeps P Q call)
    (hwhole : ∀ s, P s → P' (whole s)) : Keeps P' Q (call.within whole) := by
  cases call with
  | ok a => exact h
  | error failure => exact hwhole failure.2 h

/-- The rule for loops. -/
theorem foldOutcome {f : S → A → Attempt S S} {items : List A}
    (hf : ∀ s, ∀ a ∈ items, P s → Keeps P P (f s a)) {s : S} (hs : P s) :
    Keeps P P (Lib.foldOutcome f s items) := by
  induction items generalizing s with
  | nil => exact hs
  | cons a rest ih =>
    exact (hf s a List.mem_cons_self hs).bind fun t ht =>
      ih (fun s b hb => hf s b (List.mem_cons_of_mem _ hb)) ht

theorem logged {call : Attempt S S} (h : Keeps P P call) : P call.logged := by
  cases call with
  | ok s => exact h
  | error failure => exact h

theorem of_ok (h : Keeps P Q call) {a : A} (hok : call = .ok a) : Q a := by
  rw [hok] at h
  exact h

end Attempt.Keeps

end Attempts

/-- The part of `ctx.HeaderInfo()` that the modules read. -/
structure HeaderInfo where
  height : Nat
  time : Time
  appHash : Bytes

/-! ## Public keys and their hex spelling

A `BIP340PubKey` is a string of 32 bytes.  The model keeps the number it spells
in big-endian order, so that the order of keys in a store, and the order of the
`MarshalHex` strings, is the order of the numbers. -/

/-- `bbn.BIP340PubKey`. -/
abbrev BIP340PubKey := Fin (2 ^ 256)

instance neZero_two_pow_256 : NeZero (2 ^ 256) := ⟨by norm_num⟩

instance BIP340PubKey.lawfulBEq : LawfulBEq BIP340PubKey := inferInstance

/-- Strings written by users in hex; Go compares them byte by byte. -/
abbrev HexString := List Char

/-- The digit that `hex.EncodeToString` writes for a half byte. -/
def hexDigit (d : Nat) : Char :=
  match d with
  | 0 => '0' | 1 => '1' | 2 => '2' | 3 => '3' | 4 => '4' | 5 => '5' | 6 => '6' | 7 => '7'
  | 8 => '8' | 9 => '9' | 10 => 'a' | 11 => 'b' | 12 => 'c' | 13 => 'd' | 14 => 'e' | _ => 'f'

/-- The half byte that `hex.DecodeString` reads from a digit, of either case. -/
def fromHexChar (c : Char) : Option Nat :=
  match c with
  | '0' => some 0 | '1' => some 1 | '2' => some 2 | '3' => some 3 | '4' => some 4
  | '5' => some 5 | '6' => some 6 | '7' => some 7 | '8' => some 8 | '9' => some 9
  | 'a' => some 10 | 'b' => some 11 | 'c' => some 12 | 'd' => some 13 | 'e' => some 14
  | 'f' => some 15
  | 'A' => some 10 | 'B' => some 11 | 'C' => some 12 | 'D' => some 13 | 'E' => some 14
  | 'F' => some 15
  | _ => none

/-- The `n` lowest hex digits of a number, most significant first. -/
def hexDigits : Nat → Nat → HexString
  | 0, _ => []
  | n + 1, v => hexDigits n (v / 16) ++ [hexDigit (v % 16)]

/-- The number spelled by hex digits, given the number read so far. -/
def hexValue : Nat → HexString → Option Nat
  | acc, [] => some acc
  | acc, c :: rest =>
    match fromHexChar c with
    | some d => hexValue (acc * 16 + d) rest
    | none => none

/-- `BIP340PubKey.MarshalHex`. -/
def BIP340PubKey.marshalHex (pk : BIP340PubKey) : HexString :=
  hexDigits 64 pk.val

/-- `NewBIP340PubKeyFromHex`: decode the string and require 32 bytes. -/
def newBIP340PubKeyFromHex (s : HexString) : Outcome BIP340PubKey := do
  let value ← orThrow (hexValue 0 s) (.errorf "encoding/hex: invalid byte")
  ensure (s.length % 2 = 0) (.errorf "encoding/hex: odd length hex string")
  ensure (s.length / 2 = 32) (.errorf "malformed data for BIP340 public key")
  return Fin.ofNat (2 ^ 256) value

theorem fromHexChar_hexDigit {d : Nat} (h : d < 16) : fromHexChar (hexDigit d) = some d := by
  interval_cases d <;> rfl

theorem hexValue_append (acc : Nat) (left right : HexString) :
    hexValue acc (left ++ right) = (hexValue acc left).bind fun v => hexValue v right := by
  induction left generalizing acc with
  | nil => rfl
  | cons c rest ih =>
    simp only [List.cons_append, hexValue]
    cases fromHexChar c with
    | none => rfl
    | some d => exact ih _

theorem hexValue_hexDigits (n acc v : Nat) (h : v < 16 ^ n) :
    hexValue acc (hexDigits n v) = some (acc * 16 ^ n + v) := by
  induction n generalizing v with
  | zero =>
    obtain rfl : v = 0 := by simpa using h
    simp [hexDigits, hexValue]
  | succ n ih =>
    have hdiv : v / 16 < 16 ^ n := by
      rw [Nat.div_lt_iff_lt_mul (by norm_num)]
      rwa [pow_succ] at h
    have hmod : v % 16 < 16 := Nat.mod_lt _ (by norm_num)
    have hsplit : 16 * (v / 16) + v % 16 = v := Nat.div_add_mod v 16
    simp only [hexDigits, hexValue_append, ih _ hdiv, Option.bind_some, hexValue,
      fromHexChar_hexDigit hmod]
    congr 1
    calc (acc * 16 ^ n + v / 16) * 16 + v % 16
        = acc * 16 ^ (n + 1) + (16 * (v / 16) + v % 16) := by ring
      _ = acc * 16 ^ (n + 1) + v := by rw [hsplit]

theorem length_hexDigits (n v : Nat) : (hexDigits n v).length = n := by
  induction n generalizing v with
  | zero => rfl
  | succ n ih => simp [hexDigits, ih]

/-- Decoding the canonical spelling gives the key back. -/
theorem newBIP340PubKeyFromHex_marshalHex (pk : BIP340PubKey) :
    newBIP340PubKeyFromHex pk.marshalHex = .ok pk := by
  have hlt : pk.val < 16 ^ 64 := by
    have := pk.isLt
    rwa [show (16 : Nat) ^ 64 = 2 ^ 256 by norm_num]
  have hvalue : hexValue 0 pk.marshalHex = some pk.val := by
    rw [BIP340PubKey.marshalHex, hexValue_hexDigits 64 0 pk.val hlt, Nat.zero_mul, Nat.zero_add]
  have hlen : pk.marshalHex.length = 64 := length_hexDigits 64 pk.val
  simp only [newBIP340PubKeyFromHex, hvalue, orThrow_some, ok_bind, hlen]
  rw [ensure_of _ (by norm_num), ensure_of _ (by norm_num)]
  exact congrArg Except.ok (Fin.ext (Nat.mod_eq_of_lt pk.isLt))

end Babylon
