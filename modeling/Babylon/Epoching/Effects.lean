/-
  What a step of the chain of epochs can do.

  The handlers come down to three effects: nothing, new parameters, or one more message
  in the queue, with its funds in the delegation pool.  The invariants of the modules
  that follow are derived from the lemmas below, which are the only ones to unfold the
  handlers and the steps.
-/
import Babylon.Epoching.Chain

set_option autoImplicit false

namespace Babylon.Epoching

open Lib Stores Option

/-! ## Messages -/

/-- The message that is queued. -/
def Msg.stakingMsg : Msg → Option StakingMsg
  | .wrappedCreateValidator _ msg => some (.createValidator msg)
  | .wrappedEditValidator msg => some (.editValidator msg)
  | .wrappedStakingUpdateParams msg => some (.updateParams msg)
  | .wrappedDelegate msg => some (.delegate msg)
  | .wrappedUndelegate msg => some (.undelegate msg)
  | .wrappedBeginRedelegate msg => some (.beginRedelegate msg)
  | .wrappedCancelUnbondingDelegation msg => some (.cancelUnbondingDelegation msg)
  | .updateParams _ _ => none

/-- The addresses of a message that the handlers decode. -/
def StakingMsg.Addressed : StakingMsg → Prop
  | .createValidator msg => ∃ addr, valAddressFromBech32 msg.validatorAddress = .ok addr
  | .delegate msg | .undelegate msg =>
    ∃ parsed, parseDelValAddr msg.delegatorAddress msg.validatorAddress = .ok parsed
  | .beginRedelegate msg =>
    ∃ parsed, parseDelValAddr msg.delegatorAddress msg.validatorSrcAddress = .ok parsed
  | .cancelUnbondingDelegation msg =>
    ∃ parsed, parseDelValAddr msg.delegatorAddress msg.validatorAddress = .ok parsed
  | .editValidator _ => True
  | .updateParams _ => True

theorem parseDelValAddr_of {delAddr valAddr : Bech32} {del : AccAddress} {val : ValAddress}
    (hdel : accAddressFromBech32 delAddr = .ok del)
    (hval : valAddressFromBech32 valAddr = .ok val) :
    parseDelValAddr delAddr valAddr = .ok (del, val) := by
  unfold parseDelValAddr
  rw [hdel, hval]
  rfl

variable {S : Type} {stk : StakingKeeper S} {authority : Bech32} {c t : Chain S}

/-- The effects of a message. -/
inductive Delivered (stk : StakingKeeper S) (authority : Bech32) (c : Chain S) (msg : Msg) :
    Stores S → Prop
  | queued {stakingMsg : StakingMsg} {bank : Bank} (hmsg : msg.stakingMsg = some stakingMsg)
      (haddressed : stakingMsg.Addressed)
      (hlock : c.lockFundsForDelegateMsgs ⟨c.header.height, c.header.time, stakingMsg⟩ =
        .ok { c.toStores with bank }) :
      Delivered stk authority c msg { c.toStores with
        epoching := c.epoching.enqueueMsg ⟨c.header.height, c.header.time, stakingMsg⟩
        bank }
  | updated {sender : Bech32} {params : Params} (hmsg : msg = .updateParams sender params)
      (hvalid : params.validate = .ok ()) :
      Delivered stk authority c msg { c.toStores with epoching := { c.epoching with params } }

variable {msg : QueuedMessage}

namespace Stores

variable {w w' : Stores S} {header : HeaderInfo}

theorem newQueuedMessage_ok {msg : StakingMsg} {queuedMsg : QueuedMessage}
    (h : newQueuedMessage header msg = .ok queuedMsg) :
    queuedMsg = ⟨header.height, header.time, msg⟩ := by
  simp only [newQueuedMessage, ok_iff] at h
  obtain ⟨_, -, rfl⟩ := h
  rfl

/-- Locking funds changes balances only. -/
theorem lockFundsForDelegateMsgs_ok (h : w.lockFundsForDelegateMsgs msg = .ok w') :
    w' = { w with bank := w'.bank } := by
  simp only [lockFundsForDelegateMsgs, bind_ok_iff] at h
  obtain ⟨found, -, h⟩ := h
  cases found with
  | none =>
    obtain rfl := pure_ok_iff.mp h
    rfl
  | some found =>
    simp only [ok_iff] at h
    obtain ⟨bank, -, rfl⟩ := h
    rfl

end Stores

variable {w : Stores S}

namespace Delivered

/-- A message without funds. -/
theorem of_queueMsg {msg : Msg} {stakingMsg : StakingMsg}
    (hmsg : msg.stakingMsg = some stakingMsg) (haddr : stakingMsg.Addressed)
    (hnone : ∀ height time, extractAddrAndCoinsFromMsg ⟨height, time, stakingMsg⟩ = .ok none)
    (h : c.queueMsg c.header stakingMsg = .ok w) : Delivered stk authority c msg w := by
  simp only [queueMsg, ok_iff] at h
  obtain ⟨queuedMsg, hqd, rfl⟩ := h
  obtain rfl := newQueuedMessage_ok hqd
  have hlock : c.lockFundsForDelegateMsgs ⟨c.header.height, c.header.time, stakingMsg⟩ =
      .ok { c.toStores with bank := c.bank } := by
    unfold lockFundsForDelegateMsgs
    rw [hnone]
    rfl
  exact .queued hmsg haddr hlock

/-- A message with funds. -/
theorem of_locked {msg : Msg} {stakingMsg : StakingMsg} {queuedMsg : QueuedMessage}
    (hmsg : msg.stakingMsg = some stakingMsg) (haddr : stakingMsg.Addressed)
    (hqd : newQueuedMessage c.header stakingMsg = .ok queuedMsg)
    (hlock : c.lockFundsForDelegateMsgs queuedMsg = .ok w) :
    Delivered stk authority c msg (w.enqueue queuedMsg) := by
  obtain rfl := newQueuedMessage_ok hqd
  have hbank := lockFundsForDelegateMsgs_ok hlock
  rw [hbank] at hlock ⊢
  exact .queued hmsg haddr hlock

end Delivered

/-- A handler that leaves the registrations alone. -/
theorem Chain.map_ok (call : Outcome (Stores S)) {rs rs' : Checkpointing.Registration}
    (h : call.map (·, rs) = .ok (w, rs')) : call = .ok w ∧ rs' = rs := by
  cases call with
  | error => cases h
  | ok result =>
    cases h
    exact ⟨rfl, rfl⟩

/-- The effect of a handler that succeeds. -/
theorem Chain.handle_ok {msg : Msg} {rs : Checkpointing.Registration}
    (hht : 0 < c.header.height) (h : c.handle stk authority msg = .ok (w, rs)) :
    Delivered stk authority c msg w := by
  cases msg with
  | wrappedCreateValidator key msg =>
    unfold Chain.handle at h
    simp only [wrappedCreateValidator, bind_ok_iff] at h
    obtain ⟨_, -, valAddr, haddr, registered, -, h⟩ := h
    rw [if_neg (by omega)] at h
    simp only [ok_iff, Prod.mk.injEq] at h
    obtain ⟨queuedMsg, hqd, locked, hlock, rfl, rfl⟩ := h
    exact .of_locked rfl ⟨valAddr, haddr⟩ hqd hlock
  | wrappedEditValidator msg =>
    obtain ⟨hcall, -⟩ := map_ok (c.wrappedEditValidator stk c.header msg) h
    simp only [wrappedEditValidator, bind_ok_iff] at hcall
    obtain ⟨_, -, _, -, _, -, _, -, _, -, hcall⟩ := hcall
    exact .of_queueMsg rfl trivial (fun _ _ => rfl) hcall
  | wrappedStakingUpdateParams msg =>
    obtain ⟨hcall, -⟩ := map_ok (c.wrappedStakingUpdateParams stk authority c.header msg) h
    simp only [wrappedStakingUpdateParams, bind_ok_iff] at hcall
    obtain ⟨_, -, _, -, hcall⟩ := hcall
    exact .of_queueMsg rfl trivial (fun _ _ => rfl) hcall
  | wrappedDelegate msg =>
    obtain ⟨hcall, -⟩ := map_ok (c.wrappedDelegate stk c.header msg) h
    simp only [wrappedDelegate, ok_iff, Outcome.orWrap_ok_iff] at hcall
    obtain ⟨_, hval, _, -, _, hdel, _, -, _, -, _, hqd, _, hlock, rfl⟩ := hcall
    exact .of_locked rfl ⟨_, parseDelValAddr_of hdel hval⟩ hqd hlock
  | wrappedUndelegate msg =>
    obtain ⟨hcall, -⟩ := map_ok (c.wrappedUndelegate stk c.header msg) h
    simp only [wrappedUndelegate, bind_ok_iff] at hcall
    obtain ⟨_, hval, _, hdel, _, -, _, -, _, -, _, -, hcall⟩ := hcall
    exact .of_queueMsg rfl ⟨_, parseDelValAddr_of hdel hval⟩ (fun _ _ => rfl) hcall
  | wrappedBeginRedelegate msg =>
    obtain ⟨hcall, -⟩ := map_ok (c.wrappedBeginRedelegate stk c.header msg) h
    simp only [wrappedBeginRedelegate, bind_ok_iff] at hcall
    obtain ⟨_, hval, _, -, _, hdel, _, -, _, -, _, -, _, -, _, -, hcall⟩ := hcall
    exact .of_queueMsg rfl ⟨_, parseDelValAddr_of hdel hval⟩ (fun _ _ => rfl) hcall
  | wrappedCancelUnbondingDelegation msg =>
    obtain ⟨hcall, -⟩ := map_ok (c.wrappedCancelUnbondingDelegation stk c.header msg) h
    simp only [wrappedCancelUnbondingDelegation, bind_ok_iff] at hcall
    obtain ⟨_, hdel, _, hval, _, -, _, -, _, -, _, -, hcall⟩ := hcall
    exact .of_queueMsg rfl ⟨_, parseDelValAddr_of hdel hval⟩ (fun _ _ => rfl) hcall
  | updateParams sender params =>
    obtain ⟨hcall, -⟩ := map_ok (c.updateParams authority sender params) h
    simp only [updateParams, ok_iff, Outcome.orFail_ok_iff] at hcall
    obtain ⟨_, -, _, hvalid, rfl⟩ := hcall
    exact .updated rfl hvalid

/-! ## The end of an epoch -/

/-- Two stores of the module that differ in the lifecycles only. -/
def State.Alike (s s' : State) : Prop :=
  ∃ delegationLifecycle validatorLifecycle,
    s' = { s with delegationLifecycle, validatorLifecycle }

namespace State.Alike

variable {s s' s'' : State}

theorem refl (s : State) : s.Alike s := ⟨_, _, rfl⟩

theorem trans (h : s.Alike s') (h' : s'.Alike s'') : s.Alike s'' := by
  obtain ⟨_, _, rfl⟩ := h
  obtain ⟨_, _, rfl⟩ := h'
  exact ⟨_, _, rfl⟩

theorem foldl {A : Type} {f : State → A → State} (hf : ∀ s a, Alike s (f s a)) (items : List A)
    (s : State) : s.Alike (items.foldl f s) := by
  induction items generalizing s with
  | nil => exact refl s
  | cons a rest ih => exact trans (hf s a) (ih _)

end State.Alike

namespace Stores

variable {w w' : Stores S} {header : HeaderInfo}

/-- What is left of a message that was forwarded: its execution, if `x/staking` succeeded, and
lifecycles. -/
structure Handled (stk : StakingKeeper S) (header : HeaderInfo) (msg : StakingMsg)
    (w left : Stores S) : Prop where
  alike : w.epoching.Alike left.epoching
  staking : (left.staking = w.staking ∧ left.bank = w.bank) ∨
    stk.execute header msg w.staking w.bank = .ok (left.staking, left.bank)

theorem handleQueuedMsg_handled (stk : StakingKeeper S) (w : Stores S) (header : HeaderInfo)
    (msg : QueuedMessage) :
    Handled stk header msg.msg w (w.handleQueuedMsg stk header msg).logged := by
  have hkeeps : Attempt.Keeps (Handled stk header msg.msg w) (Handled stk header msg.msg w)
      (w.handleQueuedMsg stk header msg) := by
    refine Attempt.Keeps.bind (.leaving ⟨.refl _, .inl ⟨rfl, rfl⟩⟩ fun _ hexec => hexec) ?_
    rintro ⟨staking, bank⟩ hexec
    have hrec : ∀ {delAddr valAddr : Bech32} {amount : Coin} {states : List BondState},
        Attempt.Keeps (Handled stk header msg.msg w) (Handled stk header msg.msg w)
          ((recordStates { w with staking, bank } header delAddr valAddr amount
            states).leaving { w with staking, bank }) := by
      intro delAddr valAddr amount states
      refine .leaving ⟨.refl _, .inr hexec⟩ fun left hrec => ?_
      simp only [recordStates, ok_iff] at hrec
      obtain ⟨⟨del, val⟩, -, rfl⟩ := hrec
      exact ⟨.foldl (fun _ _ => ⟨_, _, rfl⟩) states w.epoching, .inr hexec⟩
    dsimp only
    split
    case h_6 => exact .ok ⟨.refl _, .inr hexec⟩
    case h_7 => exact .ok ⟨.refl _, .inr hexec⟩
    all_goals exact hrec
  exact hkeeps.logged

/-- Unlocking funds changes balances only. -/
theorem unlockFundsForDelegateMsgs_ok (h : w.unlockFundsForDelegateMsgs msg = .ok w') :
    w' = { w with bank := w'.bank } := by
  simp only [unlockFundsForDelegateMsgs, bind_ok_iff] at h
  obtain ⟨found, -, h⟩ := h
  cases found with
  | none =>
    obtain rfl := pure_ok_iff.mp h
    rfl
  | some found =>
    simp only [ok_iff] at h
    obtain ⟨bank, -, rfl⟩ := h
    rfl

/-- The rule for the loop over the queue: what is kept by every message that is forwarded, whatever
happens to the balances before, holds when all are. -/
theorem forwardMsgs_keeps (stk : StakingKeeper S) (header : HeaderInfo) (P : Stores S → Prop)
    {msgs : List QueuedMessage} (hbank : ∀ w bank, P w → P { w with bank })
    (hhdld : ∀ w left, ∀ msg ∈ msgs, P w → Handled stk header msg.msg w left → P left)
    {forwarded : Stores S × List QueuedMessage} (h : P forwarded.1) :
    P (msgs.foldl (forwardMsg stk header) forwarded).1 := by
  induction msgs generalizing forwarded with
  | nil => exact h
  | cons msg rest ih =>
    refine ih (fun w left msg hmsg => hhdld w left msg (List.mem_cons_of_mem _ hmsg)) ?_
    unfold forwardMsg
    split
    case h_1 => exact h
    case h_2 w hunlock =>
      have hw : P w := by
        rw [unlockFundsForDelegateMsgs_ok hunlock]
        exact hbank _ _ h
      exact hhdld w _ msg List.mem_cons_self hw (handleQueuedMsg_handled stk w header msg)

end Stores

/-- The store of the module when the last block of an epoch ends, before messages are forwarded. -/
def State.closed (s : State) (header : HeaderInfo) : State :=
  s.setEpochInfo { s.getEpoch with lastBlockTime := some header.time }

/-- The effects of the end of a block. -/
inductive BlockEnd (stk : StakingKeeper S) (w : Stores S) (header : HeaderInfo) :
    Stores S → List QueuedMessage → Prop
  | within (hlast : w.epoching.getEpoch.isLastBlock header.height = false) :
      BlockEnd stk w header w []
  | last {forwarded : Stores S × List QueuedMessage}
      (hlast : w.epoching.getEpoch.isLastBlock header.height = true)
      (hforward : (w.epoching.closed header).getCurrentEpochMsgs.foldl
        (forwardMsg stk header) ({ w with epoching := w.epoching.closed header }, []) = forwarded) :
      BlockEnd stk w header
        { forwarded.1 with
          staking := (stk.applyValidatorSetUpdates header forwarded.1.staking forwarded.1.bank).1
          bank := (stk.applyValidatorSetUpdates header forwarded.1.staking forwarded.1.bank).2 }
        forwarded.2

variable {header : HeaderInfo} {executed : List QueuedMessage}

/-- What the end of a block does. -/
theorem Stores.endBlocker_ok {w' : Stores S}
    (h : w.endBlocker stk header = .ok (w', executed)) : BlockEnd stk w header w' executed := by
  unfold endBlocker at h
  split at h
  case isFalse hlast =>
    cases h
    exact .within (Bool.eq_false_iff.mpr hlast)
  case isTrue hlast =>
    simp only [State.recordLastHeaderTime, ok_iff] at h
    obtain ⟨_, ⟨_, -, rfl⟩, h⟩ := h
    cases h
    exact .last hlast rfl

/-- The store of the module after a block. -/
theorem BlockEnd.alike {stores : Stores S} (h : BlockEnd stk w header stores executed) :
    (w.epoching.getEpoch.isLastBlock header.height = false ∧ stores.epoching = w.epoching) ∨
      (w.epoching.getEpoch.isLastBlock header.height = true ∧
        (w.epoching.closed header).Alike stores.epoching) := by
  cases h with
  | within hlast => exact .inl ⟨hlast, rfl⟩
  | @last forwarded hlast hforward =>
    have halike : (w.epoching.closed header).Alike
        ((w.epoching.closed header).getCurrentEpochMsgs.foldl (forwardMsg stk header)
          ({ w with epoching := w.epoching.closed header }, [])).1.epoching :=
      forwardMsgs_keeps stk header (fun x => (w.epoching.closed header).Alike x.epoching)
        (fun _ _ h => h) (fun _ _ _ _ h hhdld => h.trans hhdld.alike) (.refl _)
    rw [hforward] at halike
    exact .inr ⟨hlast, halike⟩

/-! ## Steps -/

/-- The store of the module when a block has begun, up to the hashes of sealers. -/
def State.begun (s : State) (powers : List (ValAddress × Nat)) (header : HeaderInfo) : State :=
  if s.getEpoch.isFirstBlockOfNextEpoch header.height then
    (s.incEpoch header).initMsgQueue.initValidatorSet powers
  else s

theorem Stores.beginBlocker_ok {w' : Stores S} {blockHash : Bytes}
    (h : w.beginBlocker stk header blockHash = .ok w') :
    ∃ sealerAppHash sealerBlockHash, w' = { w with
      epoching := { w.epoching.begun (stk.lastValidatorPowers w.staking) header with
        sealerAppHash, sealerBlockHash } } := by
  simp only [beginBlocker, bind_ok_iff] at h
  obtain ⟨begun, hbegun, h⟩ := h
  obtain ⟨sealerAppHash, rfl⟩ : ∃ sealerAppHash, begun =
      { w.epoching.begun (stk.lastValidatorPowers w.staking) header with sealerAppHash } := by
    unfold beginEpoch at hbegun
    unfold State.begun
    split at hbegun
    case isTrue hnext =>
      simp only [State.recordSealerAppHashForPrevEpoch, ok_iff] at hbegun
      obtain ⟨_, ⟨_, -, _, -, rfl⟩, rfl⟩ := hbegun
      rw [if_pos hnext]
      exact ⟨_, rfl⟩
    case isFalse hnext =>
      cases hbegun
      rw [if_neg hnext]
      exact ⟨_, rfl⟩
  split at h
  case isTrue =>
    simp only [State.recordSealerBlockHashForEpoch, ok_iff] at h
    obtain ⟨_, ⟨_, -, rfl⟩, rfl⟩ := h
    exact ⟨sealerAppHash, _, rfl⟩
  case isFalse =>
    cases h
    exact ⟨sealerAppHash, _, rfl⟩

namespace Chain

/-- What a step of each kind has checked, and what it does. -/
inductive Stepped (stk : StakingKeeper S) (authority : Bech32) (c : Chain S) :
    Label S → Chain S → Prop
  | beginBlock {time : Time} {appHash blockHash : Bytes} {header : HeaderInfo}
      {sealerAppHash sealerBlockHash : KVStore Nat Bytes} {stores : Stores S}
      (hhd : header = ⟨c.header.height + 1, time, appHash⟩) (hph : c.phase = .ended)
      (htime : c.header.time < time) (hlt : header.height < 2 ^ 63)
      (hbegin : c.beginBlocker stk header blockHash = .ok stores)
      (hbegun : stores = { c.toStores with
        epoching := { c.epoching.begun (stk.lastValidatorPowers c.staking) header with
          sealerAppHash, sealerBlockHash } }) :
      Stepped stk authority c (.beginBlock time appHash blockHash)
        { c with header, phase := .delivering, toStores := stores }
  | refused {msg : Msg} {fault : Fault} (hhdl : c.handle stk authority msg = .error fault) :
      Stepped stk authority c (.deliver msg) c
  | delivered {msg : Msg} {stores : Stores S} {registration : Checkpointing.Registration}
      (hph : c.phase = .delivering)
      (hpayer : ∀ account ∈ payer msg, account ∉ c.bank.blockedAddrs)
      (hhdl : c.handle stk authority msg = .ok (stores, registration))
      (hdlv : Delivered stk authority c msg stores) :
      Stepped stk authority c (.deliver msg) { c with toStores := stores, registration }
  | endBlock {stores : Stores S} {executed : List QueuedMessage} (hph : c.phase = .delivering)
      (hend : BlockEnd stk c.toStores c.header stores executed) :
      Stepped stk authority c .endBlock { c with
        phase := .ended
        toStores := stores
        executions := c.executions ++
          executed.map (⟨c.epoching.getEpoch.epochNumber, c.header.height, ·⟩) }
  | finalizeCheckpoint {epoch : Nat} {finalized : Epoch} {lastBlockTime : Time} {epoching : State}
      (hsealed : epoch < c.epoching.getEpoch.epochNumber)
      (hget : c.epoching.epochInfo.get epoch = some finalized)
      (htime : finalized.lastBlockTime = some lastBlockTime)
      (halike : c.epoching.Alike epoching) :
      Stepped stk authority c (.finalizeCheckpoint epoch) { c with
        epoching
        staking := (stk.completeMature (lastBlockTime + (stk.params c.staking).unbondingTime)
          c.staking c.bank).1
        bank := (stk.completeMature (lastBlockTime + (stk.params c.staking).unbondingTime)
          c.staking c.bank).2
        lastFinalizedEpoch := epoch }
  | other {staking : S} {bank : Bank} (hundisturbed : c.Undisturbed stk staking bank) :
      Stepped stk authority c (.other staking bank)
        { c with staking, bank }

theorem stepped {l : Label S} (hht : c.phase = .delivering → 0 < c.header.height)
    (h : c.step stk authority l = some t) : Stepped stk authority c l t := by
  cases l with
  | beginBlock time appHash blockHash =>
    obtain ⟨⟨hph, htime, hlt⟩, h⟩ := ite_none_right_eq_some.mp h
    split at h
    case h_1 hbegin =>
      cases h
      obtain ⟨_, _, hbegun⟩ := beginBlocker_ok hbegin
      exact .beginBlock rfl hph htime hlt hbegin hbegun
    case h_2 => cases h
  | deliver msg =>
    obtain ⟨⟨hph, hpayer⟩, h⟩ := ite_none_right_eq_some.mp h
    split at h
    case h_1 hhdl =>
      cases h
      exact .delivered hph hpayer hhdl (handle_ok (hht hph) hhdl)
    case h_2 hhdl =>
      cases h
      exact .refused hhdl
  | endBlock =>
    obtain ⟨hph, h⟩ := ite_none_right_eq_some.mp h
    split at h
    case h_1 hend =>
      cases h
      exact .endBlock hph (endBlocker_ok hend)
    case h_2 => cases h
  | finalizeCheckpoint epoch =>
    obtain ⟨⟨-, -, hsealed⟩, h⟩ := ite_none_right_eq_some.mp h
    split at h
    case h_1 hcmpl =>
      cases h
      simp only [applyMatureUnbonding, State.getHistoricalEpoch, ok_iff,
        Outcome.orPanic_ok_iff] at hcmpl
      obtain ⟨finalized, hget, lastBlockTime, htime, validators, -, rfl⟩ := hcmpl
      exact .finalizeCheckpoint hsealed hget htime
        (.trans (.foldl (fun _ _ => ⟨_, _, rfl⟩) validators _)
          (.foldl (fun _ _ => ⟨_, _, rfl⟩) _ _))
    case h_2 => cases h
  | other staking bank =>
    obtain ⟨hundisturbed, h⟩ := ite_none_right_eq_some.mp h
    cases h
    exact .other hundisturbed

end Chain

end Babylon.Epoching
