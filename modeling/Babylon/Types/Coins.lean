/-
  Coins of the Cosmos SDK and the accounts of `x/bank` that rewards move between.

  `sdk.Coins` is a list of amounts, sorted by denomination.  `NewCoins`, `Add`, `Sub`
  and `TruncateDecimal` leave out amounts of zero; `MulInt` and `QuoInt` keep every
  denomination they are given, also one whose amount becomes zero.  Amounts are
  natural numbers: `NewCoin` refuses negative ones.  The limit of 256 bits is not
  modelled.
-/
import Babylon.Lib.KVStore
import Babylon.Types.Basic

set_option autoImplicit false

namespace Babylon

open Lib List

/-- Denominations, in the order of their names. -/
abbrev Denom := Nat

/-- `sdk.Coins`. -/
abbrev Coins := KVStore Denom Nat

variable {coins other : Coins}

namespace Coins

/-- `AmountOf`. -/
def amountOf (coins : Coins) (denom : Denom) : Nat := (coins.get denom).getD 0

/-- `IsAllPositive`: there is a coin, and no amount is zero. -/
def isAllPositive (coins : Coins) : Bool :=
  !coins.entries.isEmpty && coins.entries.all fun coin => decide (0 < coin.2)

/-- `IsZero`: all amounts are zero. -/
def isZero (coins : Coins) : Bool := coins.entries.all fun coin => decide (coin.2 = 0)

/-- `IsValid`: the list is sorted by its type, so that only amounts of zero are refused. -/
def isValid (coins : Coins) : Bool := coins.entries.all fun coin => decide (0 < coin.2)

/-- The given amounts of some denominations, without those that are zero. -/
def collect (denoms : List Denom) (amount : Denom → Nat) : Coins :=
  denoms.foldl (fun coins denom =>
    if amount denom = 0 then coins else coins.set denom (amount denom)) KVStore.empty

/-- `NewCoins`. -/
def newCoins (coins : Coins) : Coins := collect coins.keys coins.amountOf

/-- `Add`. -/
def add (coins other : Coins) : Coins :=
  collect (coins.keys ++ other.keys) fun denom => coins.amountOf denom + other.amountOf denom

/-- `Sub`, which panics if an amount becomes negative. -/
def sub (coins other : Coins) : Outcome Coins := do
  ensure (∀ denom ∈ other.keys, other.amountOf denom ≤ coins.amountOf denom)
    (.panic "negative coin amount")
  return collect coins.keys fun denom => coins.amountOf denom - other.amountOf denom

/-- `MulInt`.  No caller multiplies by zero, which would panic. -/
def mulInt (coins : Coins) (x : Nat) : Coins := coins.map (· * x)

/-- `QuoInt`, which truncates.  No caller divides by zero, which would panic. -/
def quoInt (coins : Coins) (x : Nat) : Coins := coins.map (· / x)

/-- `GetCoinsPortion`: `MulDecTruncate` by a portion and `TruncateDecimal`. -/
def portion (coins : Coins) (portion : Dec) : Coins :=
  collect coins.keys fun denom => coins.amountOf denom * portion.toNat / 10 ^ 18

/-! ## Amounts -/

theorem amountOf_empty (denom : Denom) : amountOf KVStore.empty denom = 0 := rfl

theorem amountOf_eq_zero_of_not_mem {denom : Denom} (h : denom ∉ coins.keys) :
    coins.amountOf denom = 0 := by
  unfold amountOf
  cases hget : coins.get denom with
  | none => rfl
  | some amount => exact absurd (KVStore.mem_keys.mpr ⟨amount, hget⟩) h

theorem get_collect (denoms : List Denom) (amount : Denom → Nat) (denom : Denom) :
    (collect denoms amount).get denom
      = if denom ∈ denoms ∧ amount denom ≠ 0 then some (amount denom) else none := by
  have hloop : ∀ coins : Coins, (denoms.foldl (fun coins denom =>
      if amount denom = 0 then coins else coins.set denom (amount denom)) coins).get denom
        = if denom ∈ denoms ∧ amount denom ≠ 0 then some (amount denom) else coins.get denom := by
    induction denoms with
    | nil =>
      intro coins
      rw [if_neg fun h => absurd h.1 not_mem_nil]
      rfl
    | cons first rest ih =>
      intro coins
      rw [foldl_cons, ih]
      by_cases hrest : denom ∈ rest ∧ amount denom ≠ 0
      · rw [if_pos hrest, if_pos ⟨mem_cons_of_mem _ hrest.1, hrest.2⟩]
      · rw [if_neg hrest]
        by_cases heq : denom = first
        · subst heq
          by_cases hzero : amount denom = 0 <;> simp [hzero]
        · have hmem : (denom ∈ first :: rest ∧ amount denom ≠ 0) ↔
              (denom ∈ rest ∧ amount denom ≠ 0) := by
            rw [mem_cons, or_iff_right heq]
          rw [if_neg (hmem.not.mpr hrest)]
          split
          case isTrue => rfl
          case isFalse => exact KVStore.get_set_of_ne _ _ heq
  exact hloop KVStore.empty

/-- Collecting loses nothing if it visits every amount that is not zero. -/
theorem amountOf_collect {denoms : List Denom} {amount : Denom → Nat}
    (h : ∀ denom, denom ∉ denoms → amount denom = 0) (denom : Denom) :
    (collect denoms amount).amountOf denom = amount denom := by
  unfold amountOf
  rw [get_collect]
  split
  case isTrue => rfl
  case isFalse hnot =>
    by_contra hne
    exact hnot ⟨not_imp_comm.mp (h denom) (Ne.symm hne), Ne.symm hne⟩

/-- No collected amount is zero. -/
theorem isValid_collect (denoms : List Denom) (amount : Denom → Nat) :
    (collect denoms amount).isValid = true := by
  refine all_eq_true.mpr fun coin hcoin => decide_eq_true ?_
  have hget := KVStore.mem_entries.mp hcoin
  rw [get_collect] at hget
  split at hget
  case isTrue hne =>
    rw [← Option.some.inj hget]
    exact Nat.pos_of_ne_zero hne.2
  case isFalse => cases hget

@[simp] theorem amountOf_newCoins (coins : Coins) (denom : Denom) :
    coins.newCoins.amountOf denom = coins.amountOf denom :=
  amountOf_collect (fun _ => amountOf_eq_zero_of_not_mem) denom

@[simp] theorem amountOf_add (coins other : Coins) (denom : Denom) :
    (coins.add other).amountOf denom = coins.amountOf denom + other.amountOf denom := by
  refine amountOf_collect (fun denom hnot => ?_) denom
  rw [mem_append, not_or] at hnot
  rw [amountOf_eq_zero_of_not_mem hnot.1, amountOf_eq_zero_of_not_mem hnot.2]

/-- Amounts are bounded if those of the keys are. -/
theorem forall_keys_le_iff {bound : Denom → Nat} :
    (∀ denom ∈ coins.keys, coins.amountOf denom ≤ bound denom) ↔
      ∀ denom, coins.amountOf denom ≤ bound denom := by
  refine ⟨fun h denom => ?_, fun h denom _ => h denom⟩
  by_cases hmem : denom ∈ coins.keys
  · exact h denom hmem
  · rw [amountOf_eq_zero_of_not_mem hmem]
    exact Nat.zero_le _

theorem sub_ok_iff {difference : Coins} :
    coins.sub other = .ok difference ↔
      (∀ denom, other.amountOf denom ≤ coins.amountOf denom) ∧
        difference = collect coins.keys fun denom =>
          coins.amountOf denom - other.amountOf denom := by
  simp only [sub, ok_iff, forall_keys_le_iff]
  simp [eq_comm]

theorem exists_sub (h : ∀ denom, other.amountOf denom ≤ coins.amountOf denom) :
    ∃ difference, coins.sub other = .ok difference ∧ difference.isValid = true :=
  ⟨_, sub_ok_iff.mpr ⟨h, rfl⟩, isValid_collect _ _⟩

theorem amountOf_sub {difference : Coins} (h : coins.sub other = .ok difference) (denom : Denom) :
    difference.amountOf denom + other.amountOf denom = coins.amountOf denom := by
  obtain ⟨hle, rfl⟩ := sub_ok_iff.mp h
  rw [amountOf_collect fun denom hnot => by
    rw [amountOf_eq_zero_of_not_mem hnot, Nat.zero_sub]]
  exact Nat.sub_add_cancel (hle denom)

theorem amountOf_map {f : Nat → Nat} (hf : f 0 = 0) (coins : Coins) (denom : Denom) :
    amountOf (coins.map f) denom = f (coins.amountOf denom) := by
  unfold amountOf
  rw [KVStore.get_map]
  cases coins.get denom with
  | none => exact hf.symm
  | some amount => rfl

@[simp] theorem amountOf_mulInt (coins : Coins) (x : Nat) (denom : Denom) :
    (coins.mulInt x).amountOf denom = coins.amountOf denom * x :=
  amountOf_map (f := (· * x)) (Nat.zero_mul x) coins denom

@[simp] theorem amountOf_quoInt (coins : Coins) (x : Nat) (denom : Denom) :
    (coins.quoInt x).amountOf denom = coins.amountOf denom / x :=
  amountOf_map (f := (· / x)) (Nat.zero_div x) coins denom

@[simp] theorem amountOf_portion (coins : Coins) (part : Dec) (denom : Denom) :
    (coins.portion part).amountOf denom = coins.amountOf denom * part.toNat / 10 ^ 18 :=
  amountOf_collect (fun denom hnot => by
    rw [amountOf_eq_zero_of_not_mem hnot, Nat.zero_mul, Nat.zero_div]) denom

theorem amountOf_eq_zero_of_isZero (h : coins.isZero = true) (denom : Denom) :
    coins.amountOf denom = 0 := by
  unfold amountOf
  cases hget : coins.get denom with
  | none => rfl
  | some amount =>
    exact of_decide_eq_true (all_eq_true.mp h (denom, amount) (KVStore.mem_entries.mpr hget))

theorem exists_pos_of_isAllPositive (h : coins.isAllPositive = true) :
    ∃ denom, 0 < coins.amountOf denom := by
  unfold isAllPositive at h
  rw [Bool.and_eq_true, Bool.not_eq_true', isEmpty_eq_false_iff, all_eq_true] at h
  obtain ⟨coin, hcoin⟩ := exists_mem_of_ne_nil _ h.1
  refine ⟨coin.1, ?_⟩
  rw [amountOf, KVStore.mem_entries.mp hcoin]
  exact of_decide_eq_true (h.2 coin hcoin)

/-- Coins that are valid and not zero are all positive. -/
theorem isAllPositive_of_isValid (h : coins.isValid = true) (hzero : ¬ coins.isZero = true) :
    coins.isAllPositive = true := by
  refine Bool.and_eq_true_iff.mpr ⟨?_, h⟩
  rw [Bool.not_eq_true', isEmpty_eq_false_iff]
  intro hnil
  exact hzero (by rw [isZero, hnil]; rfl)

end Coins

/-! ## Bank -/

/-- The module accounts that rewards pass through, and the one that holds the funds of
queued delegations. -/
inductive ModuleAccount where
  | feeCollector
  | incentive
  | costaking
  | distribution
  | delegatePool
deriving DecidableEq

/-- The balances of `x/bank`, and the accounts that may not receive funds, among them all
module accounts but the one of governance.  The bank is a module of the SDK; what is modelled is
the behaviour its keeper documents: a transfer of invalid coins, of more than the sender has or
from a module to a blocked account fails and changes nothing, any other takes the coins from the
sender and adds them to the recipient.  Locked coins, send restrictions and the supply are left
out. -/
structure Bank where
  modules : ModuleAccount → Coins
  accounts : KVStore AccAddress Coins
  blockedAddrs : List AccAddress

/-- Registered errors of the SDK. -/
def errInvalidCoins : RegisteredError := ⟨"sdk", 10, "invalid coins"⟩
def errInsufficientFunds : RegisteredError := ⟨"sdk", 5, "insufficient funds"⟩
def errUnauthorized : RegisteredError := ⟨"sdk", 4, "unauthorized"⟩
def errInvalidProposalMsg : RegisteredError := ⟨"gov", 12, "invalid proposal message"⟩

namespace Bank

/-- The account holds the coins. -/
def Holds (bank : Bank) (account : ModuleAccount) (amount : Coins) : Prop :=
  ∀ denom ∈ amount.keys, amount.amountOf denom ≤ (bank.modules account).amountOf denom

instance (bank : Bank) (account : ModuleAccount) (amount : Coins) :
    Decidable (bank.Holds account amount) :=
  inferInstanceAs (Decidable (∀ denom ∈ amount.keys, _))

/-- `subUnlockedCoins` of a module account, which has no locked coins. -/
def subUnlockedCoins (bank : Bank) (sender : ModuleAccount) (amount : Coins) : Outcome Bank := do
  ensure (amount.isValid = true) (.registered errInvalidCoins)
  ensure (bank.Holds sender amount)
    (.wrapf errInsufficientFunds "spendable balance %s is smaller than %s")
  let balance ← (bank.modules sender).sub amount
  return { bank with modules := Function.update bank.modules sender balance }

/-- `SendCoinsFromModuleToModule`. -/
def sendCoinsFromModuleToModule (bank : Bank) (sender recipient : ModuleAccount) (amount : Coins) :
    Outcome Bank := do
  let bank ← bank.subUnlockedCoins sender amount
  return { bank with
    modules := Function.update bank.modules recipient ((bank.modules recipient).add amount) }

/-- `SendCoinsFromModuleToAccount`. -/
def sendCoinsFromModuleToAccount (bank : Bank) (sender : ModuleAccount) (recipient : AccAddress)
    (amount : Coins) : Outcome Bank := do
  ensure (recipient ∉ bank.blockedAddrs)
    (.wrapf errUnauthorized "%s is not allowed to receive funds")
  let bank ← bank.subUnlockedCoins sender amount
  return { bank with
    accounts :=
      bank.accounts.set recipient (((bank.accounts.get recipient).getD KVStore.empty).add amount) }

/-- The balance of an account. -/
def balanceOf (bank : Bank) (account : AccAddress) : Coins :=
  (bank.accounts.get account).getD KVStore.empty

/-- `SendCoinsFromAccountToModule`, from an account without locked coins. -/
def sendCoinsFromAccountToModule (bank : Bank) (sender : AccAddress) (recipient : ModuleAccount)
    (amount : Coins) : Outcome Bank := do
  ensure (amount.isValid = true) (.registered errInvalidCoins)
  ensure (∀ denom ∈ amount.keys, amount.amountOf denom ≤ (bank.balanceOf sender).amountOf denom)
    (.wrapf errInsufficientFunds "spendable balance %s is smaller than %s")
  let balance ← (bank.balanceOf sender).sub amount
  return { bank with
    accounts := bank.accounts.set sender balance
    modules := Function.update bank.modules recipient ((bank.modules recipient).add amount) }

variable {bank bank' : Bank} {sender recipient : ModuleAccount} {amount : Coins}

theorem holds_iff : bank.Holds sender amount ↔
    ∀ denom, amount.amountOf denom ≤ (bank.modules sender).amountOf denom :=
  Coins.forall_keys_le_iff

theorem subUnlockedCoins_ok_iff :
    bank.subUnlockedCoins sender amount = .ok bank' ↔
      amount.isValid = true ∧ ∃ balance, (bank.modules sender).sub amount = .ok balance ∧
        bank' = { bank with modules := Function.update bank.modules sender balance } := by
  simp only [subUnlockedCoins, ok_iff]
  constructor
  · rintro ⟨_, hval, _, -, balance, hsub, rfl⟩
    exact ⟨hval, balance, hsub, rfl⟩
  · rintro ⟨hval, balance, hsub, rfl⟩
    exact ⟨(), hval, (), holds_iff.mpr (Coins.sub_ok_iff.mp hsub).1, balance, hsub, rfl⟩

theorem exists_subUnlockedCoins (hval : amount.isValid = true) (h : bank.Holds sender amount) :
    ∃ balance, (bank.modules sender).sub amount = .ok balance ∧
      bank.subUnlockedCoins sender amount
        = .ok { bank with modules := Function.update bank.modules sender balance } := by
  obtain ⟨balance, hsub, -⟩ := Coins.exists_sub (holds_iff.mp h)
  exact ⟨balance, hsub, subUnlockedCoins_ok_iff.mpr ⟨hval, balance, hsub, rfl⟩⟩

/-- Each amount is taken from the module, and no other balance changes. -/
theorem subUnlockedCoins_amounts (h : bank.subUnlockedCoins sender amount = .ok bank')
    (denom : Denom) :
    (bank'.modules sender).amountOf denom + amount.amountOf denom
        = (bank.modules sender).amountOf denom ∧
      ∀ other, other ≠ sender → bank'.modules other = bank.modules other := by
  obtain ⟨-, balance, hsub, rfl⟩ := subUnlockedCoins_ok_iff.mp h
  refine ⟨?_, fun other hne => Function.update_of_ne hne _ _⟩
  dsimp only
  rw [Function.update_self]
  exact Coins.amountOf_sub hsub denom

/-- A transfer between two modules moves each amount, and touches nothing else. -/
theorem sendCoinsFromModuleToModule_ok (hne : sender ≠ recipient)
    (h : bank.sendCoinsFromModuleToModule sender recipient amount = .ok bank') (denom : Denom) :
    (bank'.modules sender).amountOf denom + amount.amountOf denom
        = (bank.modules sender).amountOf denom ∧
      (bank'.modules recipient).amountOf denom
        = (bank.modules recipient).amountOf denom + amount.amountOf denom ∧
      ∀ other, other ≠ sender → other ≠ recipient →
        (bank'.modules other).amountOf denom = (bank.modules other).amountOf denom := by
  simp only [sendCoinsFromModuleToModule, ok_iff] at h
  obtain ⟨_, hsent, rfl⟩ := h
  obtain ⟨htaken, hkept⟩ := subUnlockedCoins_amounts hsent denom
  refine ⟨?_, ?_, fun other hsender hrecipient => ?_⟩
  · dsimp only
    rw [Function.update_of_ne hne, htaken]
  · dsimp only
    rw [Function.update_self, Coins.amountOf_add, hkept recipient hne.symm]
  · dsimp only
    rw [Function.update_of_ne hrecipient, hkept other hsender]

end Bank

end Babylon
