/-
  Unbonding that waits for the checkpoint of its epoch.

  An entry is made in the last block of an epoch and is mature one unbonding time later.
  `ApplyMatureUnbonding` adds the unbonding time now in force to the time of that block.
  As long as the unbonding time does not change this completes exactly the entries of
  the epochs that are finalized.
-/
import Babylon.Epoching.DelegationPool

set_option autoImplicit false

namespace Babylon.Epoching

open Lib KVStore State Stores Option

variable {S : Type} {stk : StakingKeeper S} {authority : Bech32} {c t : Chain S}
  {history : History S}

/-- The parameters of `x/staking` in a proposal. -/
def Label.stakingParams? : Label S → Option StakingParams
  | .deliver (.wrappedStakingUpdateParams msg) => some msg.params
  | _ => none

/-- The step proposes no other unbonding time. -/
def KeepsUnbondingTime (stk : StakingKeeper S) (c : Chain S) (l : Label S) : Prop :=
  ∀ params ∈ l.stakingParams?, params.unbondingTime = (stk.params c.staking).unbondingTime

instance (c : Chain S) (l : Label S) : Decidable (KeepsUnbondingTime stk c l) :=
  inferInstanceAs (Decidable (∀ params ∈ l.stakingParams?, _))

/-- The height and the time of the last block of an epoch that has ended. -/
def State.endOf (s : State) (number : Nat) : Option (Nat × Time) :=
  (s.epochInfo.get number).bind fun e => e.lastBlockTime.map (e.getLastBlockHeight, ·)

theorem State.endOf_eq_some {s : State} {number height : Nat} {time : Time} :
    s.endOf number = some (height, time) ↔ ∃ e, s.epochInfo.get number = some e ∧
      e.lastBlockTime = some time ∧ e.getLastBlockHeight = height := by
  simp only [endOf, bind_eq_some_iff, map_eq_some_iff, Prod.mk.injEq]
  constructor
  · rintro ⟨e, hget, time, htime, rfl, rfl⟩
    exact ⟨e, hget, htime, rfl⟩
  · rintro ⟨e, hget, htime, rfl⟩
    exact ⟨e, hget, time, htime, rfl, rfl⟩

/-- The times of the epochs, and the entries: each was made when an epoch ended that is not yet
finalized. -/
structure Chain.Timed (stk : StakingKeeper S) (unbondingTime : Time) (c : Chain S) : Prop where
  params : (stk.params c.staking).unbondingTime = unbondingTime
  past : ∀ number height time, c.epoching.endOf number = some (height, time) →
    time ≤ c.header.time ∧ (c.phase = .delivering → time < c.header.time)
  increasing : ∀ number later end_ end', number < later →
    c.epoching.endOf number = some end_ → c.epoching.endOf later = some end' →
    end_.2 < end'.2
  entries : ∀ entry ∈ stk.unbondings c.staking, ∃ number time,
    c.epoching.endOf number = some (entry.creationHeight, time) ∧
      entry.completionTime = time + unbondingTime ∧ c.lastFinalizedEpoch < number
  finalized : c.lastFinalizedEpoch = 0 ∨
    c.lastFinalizedEpoch < c.epoching.getEpoch.epochNumber

variable {header : HeaderInfo}

theorem Unbonding.Stems.trans {entry : Unbonding} {unbondingTime : Time}
    {present before : List Unbonding} (h : entry.Stems header unbondingTime present)
    (hpresent : ∀ other ∈ present, other.Stems header unbondingTime before) :
    entry.Stems header unbondingTime before := by
  rcases h with hfr | ⟨other, ho, hht, htime⟩
  · exact .inl hfr
  · unfold Stems
    rw [hht, htime]
    exact hpresent other ho

/-- The unbonding time is as before, and the entries stem from those before. -/
def Stores.Unbonds (stk : StakingKeeper S) (header : HeaderInfo) (w left : Stores S) : Prop :=
  (stk.params left.staking).unbondingTime = (stk.params w.staking).unbondingTime ∧
    ∀ entry ∈ stk.unbondings left.staking,
      entry.Stems header (stk.params w.staking).unbondingTime (stk.unbondings w.staking)

/-- The last block of an epoch makes entries with the unbonding time in force, if no queued
message changes it. -/
theorem BlockEnd.unbonds (htm : stk.Timely) {w stores : Stores S} {executed : List QueuedMessage}
    (h : BlockEnd stk w header stores executed)
    (hkeeps : ∀ msg ∈ (w.epoching.closed header).getCurrentEpochMsgs,
      msg.msg.unbondingTime (stk.params w.staking).unbondingTime =
        (stk.params w.staking).unbondingTime) : w.Unbonds stk header stores := by
  have hself : ∀ epoching, w.Unbonds stk header { w with epoching } := fun _ =>
    ⟨rfl, fun entry hent => .inr ⟨entry, hent, rfl, rfl⟩⟩
  cases h with
  | within => exact hself w.epoching
  | @last forwarded _ hforward =>
    have hunbonds : w.Unbonds stk header ((w.epoching.closed header).getCurrentEpochMsgs.foldl
        (forwardMsg stk header) ({ w with epoching := w.epoching.closed header }, [])).1 := by
      refine forwardMsgs_keeps stk header (w.Unbonds stk header) (fun _ _ hleft => hleft)
        ?_ (hself _)
      rintro before left msg hmsg ⟨hpar, hents⟩ hhdld
      rcases hhdld.staking with ⟨hstk, -⟩ | hexec
      · unfold Unbonds
        rw [hstk]
        exact ⟨hpar, hents⟩
      · obtain ⟨htime, hstems⟩ := htm.execute hexec
        rw [hpar] at htime hstems
        exact ⟨htime.trans (hkeeps msg hmsg), fun entry hent =>
          (hstems entry hent).trans hents⟩
    rw [hforward] at hunbonds
    obtain ⟨hpar, hents⟩ := hunbonds
    obtain ⟨hsame, hstems⟩ :=
      htm.applyValidatorSetUpdates header forwarded.1.staking forwarded.1.bank
    rw [hpar] at hstems
    exact ⟨(congrArg StakingParams.unbondingTime hsame).trans hpar, fun entry hent =>
      (hstems entry hent).trans hents⟩

namespace State

variable {s : State} {height number : Nat}

theorem Tiled.endOf_le (h : s.Tiled height) {end_ : Nat × Time}
    (hend : s.endOf number = some end_) : number ≤ s.getEpoch.epochNumber := by
  obtain ⟨e, hget, -⟩ := endOf_eq_some.mp hend
  exact h.last number e hget

/-- A block that begins an epoch ends none. -/
theorem Tiled.endOf_begun (powers : List (ValAddress × Nat)) (h : s.Tiled height)
    (header : HeaderInfo) : (s.begun powers header).endOf = s.endOf ∧
      s.getEpoch.epochNumber ≤ (s.begun powers header).getEpoch.epochNumber := by
  unfold State.begun
  split
  case isFalse => exact ⟨rfl, Nat.le_refl _⟩
  case isTrue =>
    refine ⟨funext fun number => ?_, ?_⟩
    · by_cases hnew : number = s.getEpoch.epochNumber + 1
      · have hnone : s.endOf number = none := by
          apply eq_none_iff_forall_ne_some.mpr
          intro end_ hend
          have hle := h.endOf_le hend
          omega
        rw [hnone, hnew]
        exact congrArg (bind · _) (get_set_self ..)
      · exact congrArg (bind · _) (get_set_of_ne _ _ hnew)
    · have hcur := getEpoch_incEpoch h header
      exact Nat.le_of_lt (Nat.lt_of_lt_of_eq (Nat.lt_succ_self _)
        (congrArg Epoch.epochNumber hcur).symm)

end State

namespace Chain

variable {unbondingTime : Time}

theorem Tiled.endOf_contains (h : c.Tiled) {time : Time} {number last : Nat}
    (hend : c.epoching.endOf number = some (last, time)) :
    c.epoching.Contains number last := by
  obtain ⟨e, hget, htime, rfl⟩ := endOf_eq_some.mp hend
  have hfits := ((h.ended_iff number e hget).mp (by rw [htime]; nofun)).1
  exact ⟨e, hget, Epoch.withinBoundary_iff.mpr ⟨h.epochs.nonempty hget hfits, Nat.le_refl _⟩⟩

/-- A step that changes neither the times nor the entries. -/
theorem Timed.of_eq (h : c.Timed stk unbondingTime)
    (hinfo : t.epoching.epochInfo = c.epoching.epochInfo)
    (hhd : t.header = c.header) (hph : t.phase = c.phase)
    (hfz : t.lastFinalizedEpoch = c.lastFinalizedEpoch)
    (hpar : stk.params t.staking = stk.params c.staking)
    (hents : stk.unbondings t.staking = stk.unbondings c.staking) :
    t.Timed stk unbondingTime := by
  obtain ⟨⟨⟨_, info, _, _, _, _, _, _, _, _⟩, staking, bank⟩, header, phase, _, finalized, _⟩ := t
  subst hinfo hhd hph hfz
  refine ⟨?_, h.past, h.increasing, ?_, h.finalized⟩
  · rw [hpar]
    exact h.params
  · rw [hents]
    exact h.entries

theorem Timed.beginBlock (h : c.Timed stk unbondingTime) (htil : c.Tiled)
    (htime : c.header.time < header.time) {stores : Stores S} {powers : List (ValAddress × Nat)}
    {sealerAppHash sealerBlockHash : KVStore Nat Bytes} (hbegun : stores = { c.toStores with
      epoching := { c.epoching.begun powers header with sealerAppHash, sealerBlockHash } }) :
    Timed stk unbondingTime { c with header, phase := .delivering, toStores := stores } := by
  obtain ⟨hends, hep⟩ := Tiled.endOf_begun powers htil.epochs header
  replace hends : stores.epoching.endOf = c.epoching.endOf := by
    rw [hbegun]
    exact hends
  have hstk : stores.staking = c.staking := by rw [hbegun]
  constructor
  · dsimp only
    rw [hstk]
    exact h.params
  · intro number height time hend
    rw [hends] at hend
    have hlt := Int.lt_of_le_of_lt (h.past number height time hend).1 htime
    exact ⟨hlt.le, fun _ => hlt⟩
  · dsimp only
    rw [hends]
    exact h.increasing
  · dsimp only
    rw [hends, hstk]
    exact h.entries
  · subst hbegun
    exact h.finalized.imp_right fun hlt => Nat.lt_of_lt_of_le hlt hep

section

variable (htm : stk.Timely) (h : c.Timed stk unbondingTime)

include htm h

/-- The entries of an epoch are made in its last block. -/
theorem Timed.endBlock (htil : c.Tiled)
    {stores : Stores S} {executed : List QueuedMessage} {executions : List Execution}
    (hph : c.phase = .delivering) (hend : BlockEnd stk c.toStores c.header stores executed)
    (hkeeps : ∀ msg ∈ c.epoching.getCurrentEpochMsgs,
      msg.msg.unbondingTime unbondingTime = unbondingTime) :
    Timed stk unbondingTime { c with phase := .ended, toStores := stores, executions } := by
  rcases hend.alike with ⟨hlast, -⟩ | ⟨hlast, _, _, hsame⟩
  · cases hend with
    | within =>
      exact ⟨h.params, fun number height time hended =>
        ⟨(h.past number height time hended).1, nofun⟩, h.increasing, h.entries, h.finalized⟩
    | last hnot =>
      rw [hlast] at hnot
      cases hnot
  · have hht : c.epoching.getEpoch.getLastBlockHeight = c.header.height :=
      of_decide_eq_true hlast
    have hcur := getEpoch_closed htil.epochs c.header
    have hends : ∀ number, stores.epoching.endOf number =
        if number = c.epoching.getEpoch.epochNumber then
          some (c.header.height, c.header.time) else c.epoching.endOf number := by
      intro number
      rw [hsame, ← hht]
      unfold endOf closed setEpochInfo
      rw [get_set]
      split <;> rfl
    have hmsgs : (c.epoching.closed c.header).getCurrentEpochMsgs =
        c.epoching.getCurrentEpochMsgs := by
      unfold getCurrentEpochMsgs
      rw [hcur]
      rfl
    -- the epoch has blocks, hence it is not the first one
    have hpos : 0 < c.epoching.getEpoch.epochNumber := by
      apply Nat.pos_of_ne_zero
      intro hzero
      have hstarted := htil.started hph
      unfold Epoch.getLastBlockHeight at hht
      rw [if_pos hzero] at hht
      omega
    obtain ⟨hpar, hents⟩ := hend.unbonds htm (by rw [hmsgs, h.params]; exact hkeeps)
    rw [h.params] at hpar hents
    constructor
    · exact hpar
    · intro number height time hended
      rw [hends] at hended
      split at hended
      case isTrue =>
        cases hended
        exact ⟨Int.le_refl _, nofun⟩
      case isFalse => exact ⟨(h.past number height time hended).1, nofun⟩
    · intro number later end_ end' hlt hended hended'
      rw [hends] at hended hended'
      split at hended'
      case isTrue heq =>
        cases hended'
        rw [if_neg (by omega)] at hended
        exact (h.past number end_.1 end_.2 hended).2 hph
      case isFalse hne =>
        have hle := htil.epochs.endOf_le hended'
        rw [if_neg (by omega)] at hended
        exact h.increasing number later end_ end' hlt hended hended'
    · intro entry hent
      dsimp only
      rcases hents entry hent with ⟨hcre, htime⟩ | ⟨other, ho, hcre, htime⟩
      · refine ⟨c.epoching.getEpoch.epochNumber, c.header.time, ?_, htime, ?_⟩
        · rw [hends, if_pos rfl, hcre]
        · rcases h.finalized with hzero | hlt
          · omega
          · exact hlt
      · obtain ⟨number, time, hended, hcomp, hlater⟩ := h.entries other ho
        rw [hcre, htime]
        refine ⟨number, time, ?_, hcomp, hlater⟩
        rw [hends, if_neg ?_]
        · exact hended
        · rintro rfl
          have hopen := htil.open hph
          obtain ⟨e, hget, hsome, -⟩ := endOf_eq_some.mp hended
          rw [htil.epochs.current] at hget
          cases hget
          rw [hopen] at hsome
          cases hsome
    · refine h.finalized.imp_right fun hlt => ?_
      have hnum : stores.epoching.getEpoch.epochNumber =
          (c.epoching.closed c.header).getEpoch.epochNumber := by
        rw [hsame]
        rfl
      rw [hnum, hcur]
      exact hlt

/-- The finalization of an epoch completes its entries, and no others. -/
theorem Timed.completes {epoch : Nat}
    {end_ : Nat × Time} (hend : c.epoching.endOf epoch = some end_) {entry : Unbonding}
    (hent : entry ∈ stk.unbondings c.staking) {number : Nat} {time : Time}
    (hmade : c.epoching.endOf number = some (entry.creationHeight, time))
    (hcomp : entry.completionTime = time + unbondingTime) :
    entry ∈ stk.unbondings (stk.completeMature (end_.2 + (stk.params c.staking).unbondingTime)
      c.staking c.bank).1 ↔ epoch < number := by
  have hlater : end_.2 < time ↔ epoch < number := by
    constructor
    · intro hlt
      by_contra hle
      rcases Nat.lt_or_eq_of_le (Nat.le_of_not_lt hle) with hbef | rfl
      · exact lt_asymm hlt (h.increasing number epoch _ _ hbef hmade hend)
      · rw [hend] at hmade
        cases hmade
        exact lt_irrefl _ hlt
    · intro hlt
      exact h.increasing epoch number _ _ hlt hend hmade
  rw [(htm.completeMature _ _ _).2, List.mem_filter, decide_eq_true_iff, h.params, hcomp,
    add_lt_add_iff_right, ← hlater]
  exact and_iff_right hent

theorem Timed.finalizeCheckpoint {epoch : Nat}
    (hht : c.phase = .delivering → 0 < c.header.height)
    (hstep : c.step stk authority (.finalizeCheckpoint epoch) = some t) :
    t.Timed stk unbondingTime := by
  cases stepped hht hstep with
  | @finalizeCheckpoint _ finalized recorded _ hsealed hget hrecd halike =>
    obtain ⟨_, _, rfl⟩ := halike
    have hend := endOf_eq_some.mpr ⟨finalized, hget, hrecd, rfl⟩
    have hcmpl := htm.completeMature
      (recorded + (stk.params c.staking).unbondingTime) c.staking c.bank
    refine ⟨?_, h.past, h.increasing, ?_, .inr hsealed⟩
    · dsimp only
      rw [hcmpl.1]
      exact h.params
    · intro entry hleft
      have hent : entry ∈ stk.unbondings c.staking := by
        rw [hcmpl.2] at hleft
        exact (List.mem_filter.mp hleft).1
      obtain ⟨number, time, hmade, hcomp, -⟩ := h.entries entry hent
      exact ⟨number, time, hmade, hcomp, (h.completes htm hend hent hmade hcomp).mp hleft⟩

end

theorem Genesis.timed (h : Genesis stk c) :
    c.Timed stk (stk.params c.staking).unbondingTime := by
  have hend : ∀ {number end_}, c.epoching.endOf number = some end_ →
      number = 0 ∧ end_.2 = c.header.time := by
    intro number end_ hend
    obtain ⟨e, hget, htime, -⟩ := endOf_eq_some.mp hend
    rw [h.epochInfo] at hget
    obtain ⟨rfl, rfl⟩ | ⟨-, hnone⟩ := of_get_set hget
    · exact ⟨rfl, (some.inj htime).symm⟩
    · cases hnone
  constructor
  · rfl
  · intro number height time hended
    refine ⟨(hend hended).2.le, fun hph => ?_⟩
    rw [h.phase] at hph
    cases hph
  · intro number later end_ end' hlt _ hended'
    have hzero := (hend hended').1
    omega
  · rw [h.unbondings]
    exact fun _ hent => absurd hent List.not_mem_nil
  · exact .inl h.lastFinalizedEpoch

/-- Runs that keep the unbonding time. -/
theorem timed_of_run (htm : stk.Timely) (run : Run (epochingSystem stk authority) history c)
    (hsteps : Steps (KeepsUnbondingTime stk) history) :
    ∃ unbondingTime, c.Timed stk unbondingTime ∧ ∀ past ∈ history,
      ∀ params ∈ past.2.stakingParams?, params.unbondingTime = unbondingTime := by
  refine run.historyInvariant (fun history c => ∃ unbondingTime, c.Timed stk unbondingTime ∧
    ∀ past ∈ history, ∀ params ∈ past.2.stakingParams?, params.unbondingTime = unbondingTime)
    ?_ ?_ hsteps
  · intro c hinit
    exact ⟨_, Genesis.timed hinit, fun _ hpast => absurd hpast List.not_mem_nil⟩
  · rintro history c l t run ⟨unbondingTime, h, hpast⟩ hkeeps hstep
    refine ⟨unbondingTime, ?_, fun past hmem => ?_⟩
    · have htil := tiled_of_run run
      have hchain : c.step stk authority l = some t := hstep
      cases stepped htil.started hchain with
      | beginBlock hhd _ htime _ _ hbegun =>
        subst hhd
        exact h.beginBlock htil htime hbegun
      | refused => exact h
      | delivered _ _ _ hdlv =>
        cases hdlv with
        | queued | updated => exact h.of_eq rfl rfl rfl rfl rfl rfl
      | endBlock hph hend =>
        refine h.endBlock htm htil hph hend fun msg hmsg => ?_
        -- a queued proposal was delivered in this run
        have hqueue := (enqueued_of_run run).queue c.epoching.getEpoch.epochNumber
        unfold getCurrentEpochMsgs at hmsg
        rw [hqueue] at hmsg
        obtain ⟨past, delivered, hmem, hmade, -⟩ := mem_queuedDuring hmsg
        have hkept := hpast _ hmem
        cases hinner : msg.msg with
        | updateParams update =>
          rw [hinner] at hmade
          cases delivered with
          | wrappedStakingUpdateParams proposal =>
            cases hmade
            exact hkept _ rfl
          | _ => cases hmade
        | _ => rfl
      | finalizeCheckpoint => exact h.finalizeCheckpoint htm htil.started hchain
      | other hundisturbed =>
        obtain ⟨-, -, hpar, hents⟩ := hundisturbed
        exact h.of_eq rfl rfl rfl rfl hpar hents
    · rcases List.mem_cons.mp hmem with rfl | hmem
      · intro params hpar
        exact (hkeeps params hpar).trans h.params
      · exact hpast past hmem

end Chain

/-- Entries of finalized epochs are gone, and the finalization of an epoch leaves exactly those of
later epochs. -/
theorem unbonding_awaits_checkpoint (htimely : stk.Timely)
    (run : Run (epochingSystem stk authority) history c)
    (hsteps : Steps (KeepsUnbondingTime stk) history) :
    (∀ entry ∈ stk.unbondings c.staking, ∃ number,
      c.epoching.Contains number entry.creationHeight ∧ c.lastFinalizedEpoch < number) ∧
    ∀ epoch t, (epochingSystem stk authority).step c (.finalizeCheckpoint epoch) = some t →
      ∀ entry ∈ stk.unbondings c.staking, ∀ number,
        c.epoching.Contains number entry.creationHeight →
        (entry ∈ stk.unbondings t.staking ↔ epoch < number) := by
  obtain ⟨unbondingTime, h, -⟩ := Chain.timed_of_run htimely run hsteps
  have htiled := Chain.tiled_of_run run
  constructor
  · intro entry hentry
    obtain ⟨number, time, hmade, -, hlater⟩ := h.entries entry hentry
    exact ⟨number, htiled.endOf_contains hmade, hlater⟩
  · intro epoch t hstep entry hentry number hcontains
    have hchain : c.step stk authority (.finalizeCheckpoint epoch) = some t := hstep
    cases Chain.stepped htiled.started hchain with
    | @finalizeCheckpoint _ finalized recorded _ _ hget hrecorded =>
      obtain ⟨made, time, hmade, hcompletion, -⟩ := h.entries entry hentry
      obtain rfl := htiled.epochs.contains_unique hcontains (htiled.endOf_contains hmade)
      exact h.completes htimely (endOf_eq_some.mpr ⟨finalized, hget, hrecorded, rfl⟩) hentry
        hmade hcompletion

/-- Account 3 undelegates in epoch 2, whose queue then holds a proposal for the unbonding time. -/
def undelegationBlocks (unbondingTime : Time) : List (Label LocalStaking) :=
  blockAt 10 [] ++ blockAt 20 [] ++
    blockAt 30 [.wrappedUndelegate ⟨.acc 3 .lower, .val 1 .lower, ⟨0, 5⟩⟩,
      .wrappedStakingUpdateParams ⟨localAuthority, ⟨unbondingTime, 0, 0, []⟩⟩] ++
    blockAt 40 [] ++ blockAt 50 []

/-- The unbonding time grows from 1000 to 2000.  When epoch 1 is finalized, the entry of epoch 2
is completed. -/
theorem unbonding_completed_early :
    ∃ history c t entry, Run localSystem history c ∧
      localSystem.step c (.finalizeCheckpoint 1) = some t ∧
      entry ∈ localStaking.unbondings c.staking ∧
      c.epoching.Contains 2 entry.creationHeight ∧
      entry ∉ localStaking.unbondings t.staking := by
  simp only [exists_and_left]
  exact reachingLocal empty (undelegationBlocks 2000) (by decide +kernel)

/-- With the unbonding time kept, the entry of epoch 2 outlasts the finalization of epoch 1. -/
theorem unbonding_outlasts_earlier_epoch :
    ∃ history c t entry, Run localSystem history c ∧
      Steps (KeepsUnbondingTime localStaking) history ∧
      localSystem.step c (.finalizeCheckpoint 1) = some t ∧
      entry ∈ localStaking.unbondings t.staking := by
  obtain ⟨history, c, run, hkept, t, hstep, hentry, hcontains⟩ := Run.of_labels localSystem
    (Q := KeepsUnbondingTime localStaking)
    (P := fun c => ∃ t, localSystem.step c (.finalizeCheckpoint 1) = some t ∧
      ⟨.delegation 3 1, 4, 1040⟩ ∈ localStaking.unbondings c.staking ∧
      c.epoching.Contains 2 4)
    (localChain_genesis empty) (undelegationBlocks 1000) (by decide +kernel)
  have hleft := ((unbonding_awaits_checkpoint localStaking_timely run hkept).2 1 t hstep _ hentry 2
    hcontains).mpr (by decide)
  exact ⟨history, c, t, _, run, hkept, hstep, hleft⟩

end Babylon.Epoching
