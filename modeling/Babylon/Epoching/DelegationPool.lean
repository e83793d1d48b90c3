/-
  The queue of an epoch and the delegation pool.

  Delegations and new validators pay when they are queued, and are paid back just before
  they are executed.  The pool therefore always covers what is pending, every message of
  an epoch is executed once and in order in its last block, and a message that fails
  leaves no trace, with one exception: after a new validator was created its address is
  read as the one of an account, which it never is, so that the message fails although
  `x/staking` has executed it.
-/
import Babylon.Epoching.Boundaries

set_option autoImplicit false

namespace Babylon.Epoching

open Lib KVStore List

/-! ## The queue -/

/-- The messages of each epoch are numbered from 0, and no later epoch has any. -/
structure State.Queued (s : State) : Prop where
  indices : ∀ number, (s.msgQueue.under number).keys = range (s.getQueueLength number)
  future : ∀ number, s.getEpoch.epochNumber < number → s.getQueueLength number = 0

namespace State

variable {s s' : State} {number : Nat}

theorem getQueueLength_enqueueMsg (s : State) (msg : QueuedMessage) (number : Nat) :
    (s.enqueueMsg msg).getQueueLength number =
      if number = s.getEpoch.epochNumber then s.getQueueLength number + 1
      else s.getQueueLength number := by
  unfold enqueueMsg getQueueLength
  rw [get_set]
  split
  case isTrue h => rw [h, Option.getD_some]
  case isFalse => rfl

theorem Queued.keys_lt (h : s.Queued) :
    ∀ key ∈ (s.msgQueue.under number).keys, key < s.getQueueLength number := by
  intro key hkey
  rw [h.indices number] at hkey
  exact mem_range.mp hkey

/-- A new message comes last. -/
theorem Queued.getEpochMsgs_enqueueMsg (h : s.Queued) (msg : QueuedMessage) (number : Nat) :
    (s.enqueueMsg msg).getEpochMsgs number =
      if number = s.getEpoch.epochNumber then s.getEpochMsgs number ++ [msg]
      else s.getEpochMsgs number := by
  unfold getEpochMsgs enqueueMsg
  rw [under_setUnder]
  split
  case isTrue heq =>
    rw [heq, entries_set_of_forall_lt h.keys_lt, map_append]
    rfl
  case isFalse => rfl

theorem Queued.enqueueMsg (h : s.Queued) (msg : QueuedMessage) : (s.enqueueMsg msg).Queued := by
  constructor
  · intro number
    rw [getQueueLength_enqueueMsg]
    unfold State.enqueueMsg
    rw [under_setUnder]
    split
    case isTrue heq =>
      rw [heq, keys_set_of_forall_lt h.keys_lt, h.indices, range_succ]
    case isFalse => exact h.indices number
  · intro number hlt
    have hlater : s.getEpoch.epochNumber < number := hlt
    rw [getQueueLength_enqueueMsg, if_neg (by omega)]
    exact h.future number hlater

theorem Queued.of_eq (h : s.Queued) (hqueue : s'.msgQueue = s.msgQueue)
    (hlen : ∀ number, s'.getQueueLength number = s.getQueueLength number)
    (hep : s.getEpoch.epochNumber ≤ s'.getEpoch.epochNumber) : s'.Queued := by
  constructor
  · intro number
    rw [hqueue, hlen]
    exact h.indices number
  · intro number hlt
    rw [hlen]
    exact h.future number (Nat.lt_of_le_of_lt hep hlt)

theorem Queued.getEpochMsgs_future (h : s.Queued) (hlt : s.getEpoch.epochNumber < number) :
    s.getEpochMsgs number = [] := by
  have hkeys := h.indices number
  rw [h.future number hlt, range_zero] at hkeys
  unfold getEpochMsgs
  rw [map_eq_nil_iff.mp hkeys]
  rfl

/-- The queue when a block has begun. -/
theorem Queued.begun (powers : List (ValAddress × Nat)) (header : HeaderInfo) {height : Nat}
    (h : s.Queued) (htil : s.Tiled height) : (s.begun powers header).Queued ∧
      ∀ number, (s.begun powers header).getEpochMsgs number = s.getEpochMsgs number := by
  unfold State.begun
  split
  case isFalse => exact ⟨h, fun _ => rfl⟩
  case isTrue =>
    have hcur := getEpoch_incEpoch htil header
    refine ⟨h.of_eq rfl (fun number => ?_) ?_, fun _ => rfl⟩
    · -- the length of the new queue is written, but it was 0 before
      have hlen : ((s.incEpoch header).initMsgQueue).getQueueLength number =
          ((s.queueLength.set (s.incEpoch header).getEpoch.epochNumber 0).get number).getD 0 := rfl
      refine hlen.trans ?_
      rw [hcur, get_set]
      split
      case isTrue heq =>
        have hfuture := h.future number (by rw [heq]; exact Nat.lt_succ_self _)
        rw [hfuture, Option.getD_some]
      case isFalse => rfl
    · have hsame : (((s.incEpoch header).initMsgQueue).initValidatorSet powers).getEpoch =
          (s.incEpoch header).getEpoch := rfl
      rw [hsame, hcur]
      exact Nat.le_succ _

end State

/-! ## Locked funds -/

/-- What a message has in the delegation pool. -/
def lockedAmount (denom : Denom) (msg : QueuedMessage) : Nat :=
  match Stores.extractAddrAndCoinsFromMsg msg with
  | .ok (some (_, coins)) => coins.amountOf denom
  | _ => 0

variable {msg : QueuedMessage}

theorem lockedAmount_of_some {denom : Denom} {account : AccAddress} {coins : Coins}
    (h : Stores.extractAddrAndCoinsFromMsg msg = .ok (some (account, coins))) :
    lockedAmount denom msg = coins.amountOf denom := by
  unfold lockedAmount
  rw [h]

/-- The account of a message can be paid. -/
def Payable (bank : Bank) (msg : QueuedMessage) : Prop :=
  ∃ found, Stores.extractAddrAndCoinsFromMsg msg = .ok found ∧
    ∀ account coins, found = some (account, coins) →
      coins.isValid = true ∧ account ∉ bank.blockedAddrs

/-- The pool covers some messages, and their accounts can be paid. -/
structure Covers (bank : Bank) (msgs : List QueuedMessage) : Prop where
  funded : ∀ denom,
    (msgs.map (lockedAmount denom)).sum ≤ (bank.modules .delegatePool).amountOf denom
  payable : ∀ msg ∈ msgs, Payable bank msg

variable {S : Type} {stk : StakingKeeper S} {authority : Bech32} {c t : Chain S}

/-- The message that is queued locks the funds of the account that pays. -/
theorem payer_of_extract {msg : Msg} {stakingMsg : StakingMsg} {height : Nat} {time : Time}
    (hmsg : msg.stakingMsg = some stakingMsg) {account : AccAddress} {coins : Coins}
    (h : Stores.extractAddrAndCoinsFromMsg ⟨height, time, stakingMsg⟩ =
      .ok (some (account, coins))) :
    coins.isValid = true ∧ Chain.payer msg = some account := by
  cases msg with
  | wrappedCreateValidator key msg | wrappedDelegate msg =>
    cases hmsg
    simp only [Stores.extractAddrAndCoinsFromMsg, ok_iff, Option.some.injEq, Prod.mk.injEq] at h
    obtain ⟨addr, haddr, rfl, rfl⟩ := h
    exact ⟨Coins.isValid_collect _ _, congrArg Except.toOption haddr⟩
  | wrappedEditValidator | wrappedStakingUpdateParams | wrappedUndelegate
  | wrappedBeginRedelegate | wrappedCancelUnbondingDelegation => cases hmsg; cases h
  | updateParams => cases hmsg

variable {w : Stores S}

namespace Covers

variable {bank bank' : Bank} {msgs : List QueuedMessage}

theorem of_nil (h : msgs = []) : Covers bank msgs := by
  subst h
  exact ⟨fun _ => Nat.zero_le _, fun _ hmem => absurd hmem not_mem_nil⟩

theorem kept (h : Covers bank msgs) (hkept : PoolKept bank bank') : Covers bank' msgs := by
  constructor
  · intro denom
    exact (h.funded denom).trans (Bank.holds_iff.mp hkept.holds denom)
  · intro msg hmsg
    obtain ⟨found, hfnd, hpay⟩ := h.payable msg hmsg
    refine ⟨found, hfnd, ?_⟩
    rw [hkept.blockedAddrs]
    exact hpay

/-- The pool covers a message that was just locked, too. -/
theorem lock (h : Covers w.bank msgs)
    (hlock : w.lockFundsForDelegateMsgs msg = .ok { w with bank }) (hpayer : ∀ account coins,
      Stores.extractAddrAndCoinsFromMsg msg = .ok (some (account, coins)) →
        coins.isValid = true ∧ account ∉ w.bank.blockedAddrs) : Covers bank (msgs ++ [msg]) := by
  simp only [Stores.lockFundsForDelegateMsgs, bind_ok_iff] at hlock
  obtain ⟨found, hfnd, hlock⟩ := hlock
  have hpaid : bank.blockedAddrs = w.bank.blockedAddrs ∧ ∀ denom,
      (bank.modules .delegatePool).amountOf denom =
        (w.bank.modules .delegatePool).amountOf denom + lockedAmount denom msg := by
    cases found with
    | none =>
      have hsame : w.bank = bank := congrArg Stores.bank (pure_ok_iff.mp hlock)
      rw [← hsame]
      exact ⟨rfl, fun denom => by simp only [lockedAmount, hfnd, Nat.add_zero]⟩
    | some found =>
      obtain ⟨account, coins⟩ := found
      simp only [ok_iff, Outcome.orWrap_ok_iff, Stores.mk.injEq, true_and,
        Bank.sendCoinsFromAccountToModule] at hlock
      obtain ⟨_, ⟨_, -, _, -, _, -, rfl⟩, rfl⟩ := hlock
      refine ⟨rfl, fun denom => ?_⟩
      dsimp only
      rw [Function.update_self, Coins.amountOf_add, lockedAmount_of_some hfnd]
  constructor
  · intro denom
    have hfund := h.funded denom
    rw [map_append, sum_append, map_singleton, sum_singleton, hpaid.2 denom]
    omega
  · intro other ho
    rcases mem_append.mp ho with hmem | hmem
    · obtain ⟨known, hknown, hpay⟩ := h.payable other hmem
      refine ⟨known, hknown, ?_⟩
      rw [hpaid.1]
      exact hpay
    · obtain rfl := mem_singleton.mp hmem
      refine ⟨found, hfnd, fun account coins hsome => ?_⟩
      rw [hpaid.1]
      exact hpayer account coins (hsome ▸ hfnd)

end Covers

/-- The funds of a message are back where they came from. -/
structure Unlocked (w unlocked : Stores S) (msg : QueuedMessage) : Prop where
  only : unlocked = { w with bank := unlocked.bank }
  paid : ∀ account coins, Stores.extractAddrAndCoinsFromMsg msg = .ok (some (account, coins)) →
    unlocked.bank.accounts = w.bank.accounts.set account ((w.bank.balanceOf account).add coins)
  unpaid : Stores.extractAddrAndCoinsFromMsg msg = .ok none → unlocked.bank = w.bank

/-- What the pool covers can be unlocked, one message after another. -/
theorem Covers.unlock {rest : List QueuedMessage} (h : Covers w.bank (msg :: rest)) :
    ∃ unlocked, w.unlockFundsForDelegateMsgs msg = .ok unlocked ∧ Unlocked w unlocked msg ∧
      Covers unlocked.bank rest := by
  obtain ⟨found, hfnd, hpay⟩ := h.payable msg mem_cons_self
  have hrest : ∀ other ∈ rest, Payable w.bank other := fun other ho =>
    h.payable other (mem_cons_of_mem _ ho)
  have hfund : ∀ denom, lockedAmount denom msg + (rest.map (lockedAmount denom)).sum ≤
      (w.bank.modules .delegatePool).amountOf denom := by
    intro denom
    have hsum := h.funded denom
    rw [map_cons, sum_cons] at hsum
    exact hsum
  unfold Stores.unlockFundsForDelegateMsgs
  rw [hfnd, ok_bind]
  cases found with
  | none =>
    refine ⟨w, rfl, ⟨rfl, fun account coins hsome => ?_, fun _ => rfl⟩, fun denom => ?_, hrest⟩
    · rw [hfnd] at hsome
      cases hsome
    · exact (Nat.le_add_left _ _).trans (hfund denom)
  | some found =>
    obtain ⟨account, coins⟩ := found
    obtain ⟨hval, hal⟩ := hpay account coins rfl
    have hcoins : ∀ denom, coins.amountOf denom + (rest.map (lockedAmount denom)).sum ≤
        (w.bank.modules .delegatePool).amountOf denom := by
      intro denom
      rw [← lockedAmount_of_some hfnd]
      exact hfund denom
    have hholds : w.bank.Holds .delegatePool coins := by
      apply Bank.holds_iff.mpr
      intro denom
      exact (Nat.le_add_right _ _).trans (hcoins denom)
    obtain ⟨balance, hsub, hsent⟩ := Bank.exists_subUnlockedCoins hval hholds
    have hcall : w.bank.sendCoinsFromModuleToAccount .delegatePool account coins =
        .ok { w.bank with
          modules := Function.update w.bank.modules .delegatePool balance
          accounts := w.bank.accounts.set account ((w.bank.balanceOf account).add coins) } := by
      unfold Bank.sendCoinsFromModuleToAccount
      rw [ensure_of _ hal, ok_bind, hsent, ok_bind]
      rfl
    dsimp only
    rw [hcall]
    refine ⟨_, rfl, ⟨rfl, ?_, ?_⟩, ?_, hrest⟩
    · intro other coins' hsome
      rw [hfnd] at hsome
      cases hsome
      rfl
    · intro hnone
      rw [hfnd] at hnone
      cases hnone
    · intro denom
      have hmoved := Coins.amountOf_sub hsub denom
      have hsum := hcoins denom
      dsimp only
      rw [Function.update_self]
      omega

/-! ## The loop of `EndBlocker` -/

variable {header : HeaderInfo}

/-- A message that is forwarded takes nothing from the pool. -/
theorem Stores.Handled.poolKept (hcust : stk.Custodial) {msg : StakingMsg} {left : Stores S}
    (h : Handled stk header msg w left) :
    PoolKept w.bank left.bank := by
  rcases h.staking with ⟨-, hbank⟩ | hexec
  · rw [hbank]
    exact ⟨fun _ _ => Nat.le_refl _, rfl⟩
  · exact hcust.execute hexec

/-- Every message of a covered queue is unlocked and executed, and the rest stays covered. -/
theorem Covers.forwardMsgs (hcust : stk.Custodial) (header : HeaderInfo)
    {msgs rest : List QueuedMessage} (executed : List QueuedMessage)
    (h : Covers w.bank (msgs ++ rest)) :
    ∃ left, msgs.foldl (Stores.forwardMsg stk header) (w, executed) = (left, executed ++ msgs) ∧
      Covers left.bank rest := by
  induction msgs generalizing w executed with
  | nil => exact ⟨w, by rw [append_nil]; rfl, h⟩
  | cons msg later ih =>
    obtain ⟨unlocked, hunlock, -, hcovers⟩ := Covers.unlock h
    have hhdld := Stores.handleQueuedMsg_handled stk unlocked header msg
    obtain ⟨left, hfold, hleft⟩ := ih (executed ++ [msg]) (hcovers.kept (hhdld.poolKept hcust))
    refine ⟨left, ?_, hleft⟩
    have hround : Stores.forwardMsg stk header (w, executed) msg =
        ((unlocked.handleQueuedMsg stk header msg).logged, executed ++ [msg]) := by
      unfold Stores.forwardMsg
      rw [hunlock]
    rw [foldl_cons, hround, hfold, append_assoc]
    rfl

/-! ## Failures -/

/-- A message that fails changes nothing but the balances that were unlocked. -/
def FailsCleanly (stk : StakingKeeper S) (header : HeaderInfo) (unlocked : Stores S)
    (msg : QueuedMessage) : Prop :=
  ∀ fault left, unlocked.handleQueuedMsg stk header msg = .error (fault, left) → left = unlocked

/-- `x/staking` does not create the validator, or its creation has no effect. -/
def CreatesNothing (stk : StakingKeeper S) (header : HeaderInfo) (unlocked : Stores S)
    (msg : QueuedMessage) : Prop :=
  ∀ creation, msg.msg = .createValidator creation →
    ∀ result, stk.execute header msg.msg unlocked.staking unlocked.bank = .ok result →
      result = (unlocked.staking, unlocked.bank)

/-- Messages fail cleanly, except for the creation of a validator. -/
theorem failsCleanly_iff {unlocked : Stores S} (haddr : msg.msg.Addressed) :
    FailsCleanly stk header unlocked msg ↔ CreatesNothing stk header unlocked msg := by
  unfold FailsCleanly CreatesNothing Stores.handleQueuedMsg Stores.runUnwrappedMsg
  cases hexec : stk.execute header msg.msg unlocked.staking unlocked.bank with
  | error fault =>
    refine iff_of_true ?_ nofun
    intro failed left hfail
    cases hfail
    rfl
  | ok written =>
    rw [Outcome.leaving_ok, ok_bind]
    -- an execution that succeeded is only lost if the addresses cannot be read
    have hnever : ∀ call : Outcome (Stores S), (∃ left, call = .ok left) →
        ∀ (written : Stores S) fault left, call.leaving written ≠ .error (fault, left) := by
      rintro _ ⟨left, rfl⟩ written fault other hfail
      cases hfail
    cases hmsg : msg.msg with
    | createValidator creation =>
      rw [hmsg] at haddr
      obtain ⟨fault, hrec⟩ : ∃ fault, Stores.recordStates
          { unlocked with staking := written.1, bank := written.2 } header
          creation.validatorAddress creation.validatorAddress creation.value
          [.created, .bonded] = .error fault := by
        obtain ⟨addr, haddr⟩ := haddr
        cases hval : creation.validatorAddress with
        | val => exact ⟨_, rfl⟩
        | acc | other =>
          rw [hval] at haddr
          cases haddr
      dsimp only
      rw [hrec, Outcome.leaving_error]
      constructor
      · intro hclean _ _ result hres
        cases hres
        have hsame := hclean fault _ rfl
        rw [← hsame]
      · intro hnoth failed left hfail
        cases hfail
        have hsame := hnoth creation rfl written rfl
        rw [hsame]
    | delegate msg | undelegate msg | beginRedelegate msg | cancelUnbondingDelegation msg =>
      rw [hmsg] at haddr
      refine iff_of_true (fun fault left hfail => ?_) nofun
      obtain ⟨⟨del, val⟩, hprsd⟩ := haddr
      refine absurd hfail (hnever _ ?_ _ fault left)
      unfold Stores.recordStates
      rw [hprsd]
      exact ⟨_, rfl⟩
    | editValidator | updateParams => exact iff_of_true nofun nofun

/-! ## Whole runs -/

/-- The message that a step put into the queue of an epoch. -/
def queuedBy (stk : StakingKeeper S) (authority : Bech32) (number : Nat)
    (past : Chain S × Label S) : Option QueuedMessage :=
  match past.2 with
  | .deliver msg =>
    if past.1.epoching.getEpoch.epochNumber = number ∧
        (past.1.handle stk authority msg).isOk = true then
      msg.stakingMsg.map (⟨past.1.header.height, past.1.header.time, ·⟩)
    else none
  | _ => none

/-- The messages that were put into the queue of an epoch, the earliest first. -/
def queuedDuring (stk : StakingKeeper S) (authority : Bech32) (history : History S)
    (number : Nat) : List QueuedMessage :=
  history.reverse.filterMap (queuedBy stk authority number)

theorem queuedDuring_cons (past : Chain S × Label S) (history : History S) (number : Nat) :
    queuedDuring stk authority (past :: history) number =
      queuedDuring stk authority history number ++ (queuedBy stk authority number past).toList := by
  unfold queuedDuring
  rw [reverse_cons, filterMap_append]
  cases hqd : queuedBy stk authority number past with
  | none => simp [hqd]
  | some msg => simp [hqd]

/-- Every step appends the message it accepted to the queue of its epoch. -/
theorem Chain.step_queue (htil : c.Tiled) (h : c.epoching.Queued) {l : Label S}
    (hstep : c.step stk authority l = some t) :
    t.epoching.Queued ∧ ∀ number, t.epoching.getEpochMsgs number =
      c.epoching.getEpochMsgs number ++ (queuedBy stk authority number (c, l)).toList := by
  have hnone : ∀ number, c.epoching.getEpochMsgs number =
      c.epoching.getEpochMsgs number ++ (none : Option QueuedMessage).toList := fun _ =>
    (append_nil _).symm
  cases stepped htil.started hstep with
  | beginBlock _ _ _ _ _ hbegun =>
    subst hbegun
    obtain ⟨hqd, hmsgs⟩ := h.begun _ _ htil.epochs
    exact ⟨hqd.of_eq rfl (fun _ => rfl) (Nat.le_refl _),
      fun number => (hmsgs number).trans (hnone number)⟩
  | refused hhdl =>
    refine ⟨h, fun number => ?_⟩
    simp [queuedBy, hhdl, Except.isOk, Except.toBool]
  | delivered _ _ hhdl hdlv =>
    cases hdlv with
    | updated hmsg _ =>
      refine ⟨h.of_eq rfl (fun _ => rfl) (Nat.le_refl _), fun number => ?_⟩
      simp [queuedBy, hmsg, Msg.stakingMsg, State.getEpochMsgs]
    | @queued stakingMsg bank hmsg _ _ =>
      refine ⟨h.enqueueMsg _, fun number => (h.getEpochMsgs_enqueueMsg _ number).trans ?_⟩
      by_cases hnum : number = c.epoching.getEpoch.epochNumber
      · simp [queuedBy, hmsg, hhdl, hnum, Except.isOk, Except.toBool]
      · simp [queuedBy, hnum, Ne.symm hnum]
  | endBlock _ hend =>
    rcases hend.alike with ⟨-, hsame⟩ | ⟨-, _, _, hsame⟩
    · dsimp only
      rw [hsame]
      exact ⟨h, hnone⟩
    · dsimp only
      rw [hsame]
      refine ⟨h.of_eq rfl (fun _ => rfl) ?_, hnone⟩
      have hcur := State.getEpoch_closed htil.epochs c.header
      exact (congrArg Epoch.epochNumber hcur).ge
  | finalizeCheckpoint _ _ _ halike =>
    obtain ⟨_, _, rfl⟩ := halike
    exact ⟨h.of_eq rfl (fun _ => rfl) (Nat.le_refl _), hnone⟩
  | other => exact ⟨h, hnone⟩

/-- The queues hold the messages that were accepted. -/
structure Chain.Enqueued (stk : StakingKeeper S) (authority : Bech32)
    (history : History S) (c : Chain S) : Prop where
  tiled : c.Tiled
  queued : c.epoching.Queued
  queue : ∀ number,
    c.epoching.getEpochMsgs number = queuedDuring stk authority history number

theorem Chain.Genesis.enqueued (h : Genesis stk c) (authority : Bech32) :
    c.Enqueued stk authority [] := by
  have hlen : ∀ number, c.epoching.getQueueLength number = 0 := by
    intro number
    unfold State.getQueueLength
    rw [h.queueLength, get_set]
    split <;> rfl
  refine ⟨h.tiled, ⟨fun number => ?_, fun number _ => hlen number⟩, fun number => ?_⟩
  · rw [h.msgQueue, hlen, under_empty]
    rfl
  · unfold State.getEpochMsgs
    rw [h.msgQueue, under_empty]
    rfl

section

variable {history : History S}

theorem Chain.enqueued_of_run
    (run : Run (epochingSystem stk authority) history c) : c.Enqueued stk authority history := by
  refine run.historyInvariant (Enqueued stk authority) (fun _ hinit => Genesis.enqueued hinit _) ?_
    .trivial
  intro history c l t _ h _ hstep
  obtain ⟨hqd, hmsgs⟩ := step_queue h.tiled h.queued hstep
  refine ⟨h.tiled.step hstep, hqd, fun number => ?_⟩
  rw [hmsgs, queuedDuring_cons, h.queue number]

/-- A message in a queue was delivered, and its handler accepted it. -/
theorem mem_queuedDuring {number : Nat}
    (h : msg ∈ queuedDuring stk authority history number) :
    ∃ past delivered, (past, .deliver delivered) ∈ history ∧
      delivered.stakingMsg = some msg.msg ∧
      ∃ result, past.handle stk authority delivered = .ok result := by
  obtain ⟨⟨past, l⟩, hpast, hqd⟩ := mem_filterMap.mp h
  unfold queuedBy at hqd
  split at hqd
  case h_2 => cases hqd
  case h_1 delivered hl =>
    split at hqd
    case isFalse => cases hqd
    case isTrue hready =>
      obtain ⟨stakingMsg, hmsg, rfl⟩ := Option.map_eq_some_iff.mp hqd
      subst hl
      refine ⟨past, delivered, mem_reverse.mp hpast, hmsg, ?_⟩
      cases hhdl : past.handle stk authority delivered with
      | ok result => exact ⟨result, rfl⟩
      | error =>
        rw [hhdl] at hready
        cases hready.2

theorem addressed_of_run {number : Nat}
    (run : Run (epochingSystem stk authority) history c)
    (h : msg ∈ queuedDuring stk authority history number) : msg.msg.Addressed := by
  obtain ⟨past, delivered, hpast, hmsg, ⟨stores, registration⟩, hhdl⟩ := mem_queuedDuring h
  obtain ⟨earlier, hrun, -, next, hstep⟩ := run.of_mem hpast
  have hstep' : past.step stk authority (.deliver delivered) = some next := hstep
  cases Chain.stepped (Chain.tiled_of_run hrun).started hstep' with
  | refused hfail =>
    rw [hhdl] at hfail
    cases hfail
  | delivered _ _ _ hdlv =>
    cases hdlv with
    | updated hup =>
      rw [hup] at hmsg
      cases hmsg
    | queued hqd haddr =>
      rw [hqd] at hmsg
      cases hmsg
      exact haddr

end

/-! ## Executions -/

/-- The executions of an epoch that the module owes: none before its last block has ended. -/
def State.settled (s : State) (number : Nat) : List Execution :=
  match s.epochInfo.get number with
  | some e =>
    if e.lastBlockTime = none then []
    else (s.getEpochMsgs number).map (⟨number, e.getLastBlockHeight, ·⟩)
  | none => []

/-- The messages of the current epoch that are still to be executed. -/
def State.pending (s : State) : List QueuedMessage :=
  if s.getEpoch.lastBlockTime = none then s.getCurrentEpochMsgs else []

/-- The invariant. -/
structure Chain.Accounted (c : Chain S) : Prop where
  covers : Covers c.bank c.epoching.pending
  executed : ∀ number,
    c.executions.filter (fun execution => decide (execution.epoch = number)) =
      c.epoching.settled number

namespace State

variable {s s' : State} {number : Nat} {e : Epoch}

theorem settled_eq (hinfo : s'.epochInfo.get number = s.epochInfo.get number)
    (hmsgs : s'.getEpochMsgs number = s.getEpochMsgs number) :
    s'.settled number = s.settled number := by
  unfold settled
  rw [hinfo, hmsgs]

theorem settled_of_open (hopen : ∀ e, s.epochInfo.get number = some e → e.lastBlockTime = none) :
    s.settled number = [] := by
  unfold settled
  split
  case h_1 e hget => exact if_pos (hopen e hget)
  case h_2 => rfl

theorem settled_of_ended (hget : s.epochInfo.get number = some e)
    (hended : e.lastBlockTime ≠ none) :
    s.settled number = (s.getEpochMsgs number).map (⟨number, e.getLastBlockHeight, ·⟩) := by
  unfold settled
  rw [hget]
  exact if_neg hended

theorem pending_of_open (h : s.getEpoch.lastBlockTime = none) :
    s.pending = s.getCurrentEpochMsgs := if_pos h

theorem pending_nil (h : s.getCurrentEpochMsgs = []) : s.pending = [] := by
  unfold pending
  rw [h, ite_self]

/-- While the current epoch is open it owes nothing, nor does a later one. -/
theorem Tiled.settled_of_le {height : Nat} (h : s.Tiled height)
    (hopen : s.getEpoch.lastBlockTime = none) (hle : s.getEpoch.epochNumber ≤ number) :
    s.settled number = [] := by
  apply settled_of_open
  intro e hget
  obtain rfl := Nat.le_antisymm hle (h.last number e hget)
  rw [h.current] at hget
  cases hget
  exact hopen

end State

namespace Chain

variable {history : History S}

/-- While messages are delivered the current epoch is open. -/
theorem Tiled.open (h : c.Tiled) (hph : c.phase = .delivering) :
    c.epoching.getEpoch.lastBlockTime = none := by
  by_contra hended
  obtain ⟨hfits, hlast⟩ := (h.ended_iff _ _ h.epochs.current).mp hended
  have hle := h.epochs.le_last hfits
  rw [hph] at hlast
  rcases hlast with hlt | ⟨-, hph⟩
  · omega
  · cases hph

theorem Genesis.accounted (h : Genesis stk c) : c.Accounted := by
  have hmsgs : ∀ number, c.epoching.getEpochMsgs number = [] :=
    (h.enqueued localAuthority).queue
  constructor
  · exact .of_nil (State.pending_nil (hmsgs _))
  · intro number
    rw [h.executions]
    unfold State.settled
    split
    case h_1 =>
      rw [hmsgs, map_nil, ite_self]
      rfl
    case h_2 => rfl

namespace Accounted

/-- A step that leaves the module alone, and the pool covered. -/
theorem of_kept (h : c.Accounted) (halike : c.epoching.Alike t.epoching)
    (hexecutions : t.executions = c.executions) (hkept : PoolKept c.bank t.bank) :
    t.Accounted := by
  obtain ⟨_, _, hepg⟩ := halike
  constructor
  · rw [hepg]
    exact h.covers.kept hkept
  · rw [hepg, hexecutions]
    exact h.executed

/-- The queue of a new epoch is empty. -/
theorem beginBlock (h : c.Accounted) (htil : c.Tiled) (hqd : c.epoching.Queued)
    {powers : List (ValAddress × Nat)} {sealerAppHash sealerBlockHash : KVStore Nat Bytes} :
    Accounted { c with
      header, phase := .delivering, epoching := { c.epoching.begun powers header with
          sealerAppHash, sealerBlockHash } } := by
  unfold State.begun
  split
  case isFalse => exact ⟨h.covers, h.executed⟩
  case isTrue =>
    have hcur := State.getEpoch_incEpoch htil.epochs header
    constructor
    · have hemp : (c.epoching.incEpoch header).getCurrentEpochMsgs = [] := by
        unfold State.getCurrentEpochMsgs
        rw [hcur]
        exact hqd.getEpochMsgs_future (Nat.lt_succ_self _)
      exact .of_nil (State.pending_nil hemp)
    · intro number
      rw [h.executed number]
      by_cases hnew : number = c.epoching.getEpoch.epochNumber + 1
      · have habsent : c.epoching.settled number = [] := by
          apply State.settled_of_open
          intro e hget
          have hle := htil.epochs.last _ e hget
          omega
        rw [habsent]
        symm
        apply State.settled_of_open
        intro e hget
        rcases State.get_incEpoch htil.epochs hget with ⟨-, rfl⟩ | ⟨hle, -⟩
        · rfl
        · omega
      · symm
        apply State.settled_eq
        · exact get_set_of_ne _ _ hnew
        · rfl

/-- A message that is queued is pending. -/
theorem deliver (h : c.Accounted) (htil : c.Tiled) (hqd : c.epoching.Queued) {msg : Msg}
    {stores : Stores S} {registration : Checkpointing.Registration} (hph : c.phase = .delivering)
    (hpayer : ∀ account ∈ payer msg, account ∉ c.bank.blockedAddrs)
    (hdlv : Delivered stk authority c msg stores) :
    Accounted { c with toStores := stores, registration } := by
  have hopen := htil.open hph
  cases hdlv with
  | updated => exact ⟨h.covers, h.executed⟩
  | @queued stakingMsg bank hmsg haddr hlock =>
    have hmsgs := hqd.getEpochMsgs_enqueueMsg ⟨c.header.height, c.header.time, stakingMsg⟩
    constructor
    · have haft : (c.epoching.enqueueMsg
          ⟨c.header.height, c.header.time, stakingMsg⟩).pending =
            c.epoching.pending ++ [⟨c.header.height, c.header.time, stakingMsg⟩] := by
        rw [State.pending_of_open hopen]
        exact (if_pos hopen).trans ((hmsgs _).trans (if_pos rfl))
      rw [haft]
      refine h.covers.lock hlock fun account coins hextract => ?_
      obtain ⟨hval, hpays⟩ := payer_of_extract hmsg hextract
      exact ⟨hval, hpayer account hpays⟩
    · intro number
      rw [h.executed number]
      by_cases hcur : number = c.epoching.getEpoch.epochNumber
      · rw [htil.epochs.settled_of_le hopen hcur.ge]
        have htiled' : (c.epoching.enqueueMsg
            ⟨c.header.height, c.header.time, stakingMsg⟩).Tiled c.header.height :=
          htil.epochs.of_eq rfl htil.epochs.interval_le
        exact (htiled'.settled_of_le hopen hcur.ge).symm
      · symm
        apply State.settled_eq
        · rfl
        · exact (hmsgs number).trans (if_neg hcur)

/-- The messages of an epoch are executed in its last block. -/
theorem endBlock (hcust : stk.Custodial) (h : c.Accounted) (htil : c.Tiled) {stores : Stores S}
    {executed : List QueuedMessage} (hph : c.phase = .delivering)
    (hend : BlockEnd stk c.toStores c.header stores executed) :
    Accounted { c with
      phase := .ended
      toStores := stores
      executions := c.executions ++
        executed.map (⟨c.epoching.getEpoch.epochNumber, c.header.height, ·⟩) } := by
  have hopen := htil.open hph
  have halike := hend.alike
  cases hend with
  | within hlast =>
    refine ⟨h.covers, fun number => ?_⟩
    rw [map_nil, append_nil]
    exact h.executed number
  | @last forwarded hlast hforward =>
    obtain ⟨hfalse, -⟩ | ⟨-, _, _, hepg⟩ := halike
    · rw [hlast] at hfalse
      cases hfalse
    have hcur := State.getEpoch_closed htil.epochs c.header
    have hmsgs : (c.epoching.closed c.header).getCurrentEpochMsgs =
        c.epoching.getCurrentEpochMsgs := by
      unfold State.getCurrentEpochMsgs
      rw [hcur]
      rfl
    -- all messages are covered, hence executed
    have hcovers : Covers c.bank (c.epoching.getCurrentEpochMsgs ++ []) := by
      rw [append_nil, ← State.pending_of_open hopen]
      exact h.covers
    obtain ⟨left, hfold, -⟩ := Covers.forwardMsgs hcust c.header
      (w := { c.toStores with epoching := c.epoching.closed c.header }) [] hcovers
    rw [hmsgs, hfold] at hforward
    subst hforward
    rw [nil_append]
    constructor
    · have hended : left.epoching.getEpoch.lastBlockTime ≠ none := by
        have hsame : left.epoching.getEpoch = (c.epoching.closed c.header).getEpoch := by
          rw [hepg]
          rfl
        rw [hsame, hcur]
        nofun
      exact .of_nil (if_neg hended)
    · intro number
      rw [filter_append, h.executed number]
      have hleft : left.epoching.getEpochMsgs number = c.epoching.getEpochMsgs number := by
        rw [hepg]
        rfl
      by_cases hnum : number = c.epoching.getEpoch.epochNumber
      · have hget : left.epoching.epochInfo.get number =
            some { c.epoching.getEpoch with lastBlockTime := some c.header.time } := by
          rw [hepg, hnum]
          exact get_set_self ..
        have hht : c.epoching.getEpoch.getLastBlockHeight = c.header.height :=
          of_decide_eq_true hlast
        rw [htil.epochs.settled_of_le hopen hnum.ge, State.settled_of_ended hget nofun, hleft,
          nil_append, hnum, ← hht]
        exact filter_eq_self.mpr (by simp)
      · have hoth : (c.epoching.getCurrentEpochMsgs.map
            (⟨c.epoching.getEpoch.epochNumber, c.header.height, ·⟩ :
              QueuedMessage → Execution)).filter
              (fun execution => decide (execution.epoch = number)) = [] :=
          filter_eq_nil_iff.mpr (by simp [Ne.symm hnum])
        rw [hoth, append_nil]
        symm
        apply State.settled_eq
        · rw [hepg]
          exact get_set_of_ne _ _ hnum
        · exact hleft

end Accounted

theorem accounted_of_run (hcust : stk.Custodial)
    (run : Run (epochingSystem stk authority) history c) : c.Accounted := by
  refine run.historyInvariant (fun _ c => c.Accounted)
    (fun _ hinit => Genesis.accounted hinit) ?_ .trivial
  intro history c l t run h _ hstep
  obtain ⟨htil, hqd, -⟩ := enqueued_of_run run
  have hchain : c.step stk authority l = some t := hstep
  cases stepped htil.started hchain with
  | beginBlock _ _ _ _ _ hbegun =>
    subst hbegun
    exact h.beginBlock htil hqd
  | refused => exact h
  | delivered hph hpayer _ hdlv => exact h.deliver htil hqd hph hpayer hdlv
  | endBlock hph hend => exact h.endBlock hcust htil hph hend
  | finalizeCheckpoint _ _ _ halike => exact h.of_kept halike rfl (hcust.completeMature _ _ _)
  | other hundisturbed =>
    obtain ⟨hholds, hblocked, -, -⟩ := hundisturbed
    exact h.of_kept (.refl _) rfl ⟨hholds, hblocked⟩

end Chain

/-- The pool covers what is pending; the messages of an epoch are executed once and in order, in
its last block; and there every one is unlocked, and fails cleanly unless it creates a
validator. -/
theorem delegation_pool_conserved (hcustodial : stk.Custodial) {history : History S}
    (run : Run (epochingSystem stk authority) history c) :
    (∀ denom, (c.epoching.pending.map (lockedAmount denom)).sum ≤
        (c.bank.modules .delegatePool).amountOf denom) ∧
      (∀ number e, c.epoching.epochInfo.get number = some e → e.lastBlockTime ≠ none →
        c.executions.filter (fun execution => decide (execution.epoch = number)) =
          (queuedDuring stk authority history number).map (⟨number, e.getLastBlockHeight, ·⟩)) ∧
      (∀ number, (∀ e, c.epoching.epochInfo.get number = some e → e.lastBlockTime = none) →
        c.executions.filter (fun execution => decide (execution.epoch = number)) = []) ∧
      (c.phase = .delivering → c.epoching.getEpoch.isLastBlock c.header.height = true →
        ∀ before msg after, c.epoching.getCurrentEpochMsgs = before ++ msg :: after →
          ∃ unlocked,
            let w := (before.foldl (Stores.forwardMsg stk c.header)
              ({ c.toStores with epoching := c.epoching.closed c.header }, [])).1
            w.unlockFundsForDelegateMsgs msg = .ok unlocked ∧ Unlocked w unlocked msg ∧
              (FailsCleanly stk c.header unlocked msg ↔
                CreatesNothing stk c.header unlocked msg)) := by
  have h := Chain.accounted_of_run hcustodial run
  have hqueue := Chain.enqueued_of_run run
  refine ⟨h.covers.funded, fun number e hget hended => ?_, fun number hopen => ?_, ?_⟩
  · rw [h.executed number, State.settled_of_ended hget hended, hqueue.queue number]
  · rw [h.executed number, State.settled_of_open hopen]
  · intro hphase _ before msg after hsplit
    have hcovers : Covers c.bank (before ++ msg :: after) := by
      rw [← hsplit, ← State.pending_of_open (hqueue.tiled.open hphase)]
      exact h.covers
    obtain ⟨left, hfold, hleft⟩ := Covers.forwardMsgs hcustodial c.header
      (w := { c.toStores with epoching := c.epoching.closed c.header }) [] hcovers
    obtain ⟨unlocked, hunlock, hunlocked, -⟩ := hleft.unlock
    have haddressed : msg.msg.Addressed := by
      apply addressed_of_run run
      rw [← hqueue.queue c.epoching.getEpoch.epochNumber]
      have hmem : msg ∈ before ++ msg :: after := mem_append_right _ mem_cons_self
      rw [← hsplit] at hmem
      exact hmem
    refine ⟨unlocked, ?_⟩
    rw [hfold]
    exact ⟨hunlock, hunlocked, failsCleanly_iff haddressed⟩

/-- The message of account 2 that makes it a validator with 40 coins. -/
def newValidator : MsgCreateValidator := ⟨.val 2 .lower, ⟨0, 40⟩, []⟩

/-- This message in the queue. -/
def queuedValidator : QueuedMessage := ⟨1, 10, .createValidator newValidator⟩

/-- A chain on which account 2 has 100 coins, up to the last block of its first epoch. -/
def newValidatorBlocks : List (Label LocalStaking) :=
  blockAt 10 [.wrappedCreateValidator 5 newValidator] ++ [.beginBlock 20 [] []]

/-- The accounts of this chain. -/
def newValidatorAccounts : KVStore AccAddress Coins :=
  empty.set 2 (empty.set 0 100)

/-- The new validator is created and its coins are gone, and yet the message fails. -/
theorem created_validator_fails :
    ∃ history c unlocked failed, Run localSystem history c ∧ c.phase = .delivering ∧
      c.epoching.getEpoch.isLastBlock c.header.height = true ∧
      c.epoching.getCurrentEpochMsgs = [queuedValidator] ∧
      Stores.unlockFundsForDelegateMsgs { c.toStores with epoching := c.epoching.closed c.header }
        queuedValidator = .ok unlocked ∧
      unlocked.staking.validators = [1] ∧ (unlocked.bank.balanceOf 2).amountOf 0 = 100 ∧
      unlocked.handleQueuedMsg localStaking c.header queuedValidator = .error failed ∧
      failed.2.staking.validators = [2, 1] ∧ (failed.2.bank.balanceOf 2).amountOf 0 = 60 := by
  simp only [exists_and_left]
  exact reachingLocal newValidatorAccounts newValidatorBlocks (by decide +kernel)

/-- The coins of the new validator are in the pool while its message is pending. -/
theorem new_validator_pending :
    ∃ history c, Run localSystem history c ∧
      (c.epoching.pending.map (lockedAmount 0)).sum = 40 ∧
      40 ≤ (c.bank.modules .delegatePool).amountOf 0 := by
  obtain ⟨history, c, run, hpending⟩ := reachingLocal
    (P := fun c => (c.epoching.pending.map (lockedAmount 0)).sum = 40)
    newValidatorAccounts newValidatorBlocks (by decide +kernel)
  refine ⟨history, c, run, hpending, ?_⟩
  rw [← hpending]
  exact (delegation_pool_conserved localStaking_custodial run).1 0

end Babylon.Epoching
