/-
  The bookkeeping of epochs: what is recorded of an epoch, and when.

  `BeginBlocker` reads the current epoch once, before it may begin the next one, and asks
  that epoch also whether this is the last block.  The two answers exclude each other, so
  that no function is called for the wrong epoch, and none of their panics is reached.
-/
import Babylon.Epoching.Boundaries

set_option autoImplicit false

namespace Babylon.Epoching

open Lib KVStore Epoch

variable {S : Type} {stk : StakingKeeper S} {authority : Bech32} {c t : Chain S}

/-! ## The beginning of a block -/

namespace State

variable {s : State} {height : Nat} {header : HeaderInfo}

/-- The store of the module when a block has begun. -/
def begunWith (s : State) (powers : List (ValAddress × Nat)) (header : HeaderInfo)
    (blockHash : Bytes) : State :=
  { s.begun powers header with
    sealerAppHash :=
      if s.getEpoch.isFirstBlockOfNextEpoch header.height then
        s.sealerAppHash.set s.getEpoch.epochNumber header.appHash
      else s.sealerAppHash
    sealerBlockHash :=
      if s.getEpoch.isLastBlock header.height then
        s.sealerBlockHash.set s.getEpoch.epochNumber blockHash
      else s.sealerBlockHash }

/-- A block is not both the last one of an epoch and the one after it. -/
theorem Tiled.not_isLastBlock (h : s.Tiled height) (hnext : header.height = height + 1)
    (hlt : header.height < 2 ^ 63)
    (hfirst : s.getEpoch.isFirstBlockOfNextEpoch header.height = true) :
    s.getEpoch.isLastBlock header.height = false := by
  have hlast := ((h.isFirstBlockOfNextEpoch_iff hnext hlt).mp hfirst).2
  exact decide_eq_false (by omega)

/-- The sealed epoch is found, and none of the checks fails. -/
theorem Tiled.beginBlocker {w : Stores S} (h : w.epoching.Tiled height)
    (hnext : header.height = height + 1) (hlt : header.height < 2 ^ 63) (blockHash : Bytes) :
    w.beginBlocker stk header blockHash = .ok { w with
      epoching := w.epoching.begunWith (stk.lastValidatorPowers w.staking) header blockHash } := by
  unfold Stores.beginBlocker Stores.beginEpoch begunWith State.begun
  by_cases hfirst : w.epoching.getEpoch.isFirstBlockOfNextEpoch header.height = true
  · have hsealed : (w.epoching.incEpoch header).epochInfo.get w.epoching.getEpoch.epochNumber =
        some w.epoching.getEpoch := by
      refine (get_set_of_ne _ _ ?_).trans h.current
      exact (Nat.lt_succ_self _).ne
    have hblock : (w.epoching.incEpoch header).getEpoch.isFirstBlock header.height = true := by
      rw [getEpoch_incEpoch h]
      exact decide_eq_true rfl
    rw [h.not_isLastBlock hnext hlt hfirst, if_pos hfirst, if_pos hfirst, if_pos hfirst,
      recordSealerAppHashForPrevEpoch, ensure_of _ hblock, getHistoricalEpoch,
      getEpoch_incEpoch h, Nat.add_sub_cancel, hsealed]
    rfl
  · rw [if_neg hfirst, if_neg hfirst, if_neg hfirst, ok_bind]
    split
    case isTrue hlast =>
      rw [recordSealerBlockHashForEpoch, ensure_of _ hlast]
      rfl
    case isFalse => rfl

/-! ## Sealed epochs -/

/-- The epochs that have the hashes of their sealers. -/
structure Sealed (s : State) (height : Nat) : Prop where
  appHash : ∀ number, s.sealerAppHash.get number ≠ none ↔ number < s.getEpoch.epochNumber
  blockHash : ∀ number, s.sealerBlockHash.get number ≠ none ↔
    1 ≤ number ∧ (number < s.getEpoch.epochNumber ∨
      number = s.getEpoch.epochNumber ∧ s.getEpoch.isLastBlock height = true)

theorem get_set_ne_none {store : KVStore Nat Bytes} {hash : Bytes} {at_ number : Nat} :
    (store.set at_ hash).get number ≠ none ↔ number = at_ ∨ store.get number ≠ none := by
  rw [get_set]
  split
  case isTrue heq => exact iff_of_true nofun (.inl heq)
  case isFalse hne => exact (or_iff_right hne).symm

variable {powers : List (ValAddress × Nat)} {blockHash : Bytes} (hseals : s.Sealed height)
  (h : s.Tiled height) (hnext : header.height = height + 1) (hlt : header.height < 2 ^ 63)
include hseals h hnext hlt

/-- A block that begins an epoch; the interval is at least 2, so that it is not the last one. -/
theorem Sealed.begunWith_first
    (hfirst : s.getEpoch.isFirstBlockOfNextEpoch header.height = true) :
    (s.begunWith powers header blockHash).Sealed header.height := by
  obtain ⟨hfits, hend⟩ := (h.isFirstBlockOfNextEpoch_iff hnext hlt).mp hfirst
  have hcur : (s.begunWith powers header blockHash).getEpoch =
      ⟨s.getEpoch.epochNumber + 1, s.params.epochInterval, header.height, none⟩ := by
    unfold State.begunWith State.begun
    rw [if_pos hfirst]
    exact getEpoch_incEpoch h header
  have hnot : isLastBlock ⟨s.getEpoch.epochNumber + 1, s.params.epochInterval, header.height,
      none⟩ header.height = false := by
    have hivl := h.interval_le
    have hmax := s.params.epochInterval.toNat_lt
    refine decide_eq_false ?_
    rw [getLastBlockHeight, if_neg (Nat.succ_ne_zero _)]
    dsimp only
    omega
  have hlast : s.getEpoch.isLastBlock height = true := decide_eq_true (by omega)
  refine ⟨fun number => ?_, fun number => ?_⟩
  · rw [hcur]
    unfold State.begunWith
    rw [if_pos hfirst, get_set_ne_none, hseals.appHash]
    dsimp only
    omega
  · rw [hcur, hnot]
    unfold State.begunWith
    rw [h.not_isLastBlock hnext hlt hfirst]
    refine (hseals.blockHash number).trans ?_
    rw [hlast]
    dsimp only
    simp only [and_true, reduceCtorEq, and_false, or_false]
    omega

/-- A block within an epoch; the one before it is not the last one either. -/
theorem Sealed.begunWith_within
    (hfirst : ¬ s.getEpoch.isFirstBlockOfNextEpoch header.height = true) :
    (s.begunWith powers header blockHash).Sealed header.height := by
  have hcur : (s.begunWith powers header blockHash).getEpoch = s.getEpoch := by
    unfold State.begunWith State.begun
    rw [if_neg hfirst]
    rfl
  have hnot : s.getEpoch.isLastBlock height = false := by
    refine Bool.eq_false_iff.mpr fun hlast => hfirst ?_
    have hend := of_decide_eq_true hlast
    exact (h.isFirstBlockOfNextEpoch_iff hnext hlt).mpr ⟨h.fits_of_isLastBlock hlast, by omega⟩
  have hold := hseals.blockHash
  rw [hnot] at hold
  refine ⟨fun number => ?_, fun number => ?_⟩
  · rw [hcur]
    unfold State.begunWith
    rw [if_neg hfirst]
    exact hseals.appHash number
  · rw [hcur]
    unfold State.begunWith
    by_cases hlast : s.getEpoch.isLastBlock header.height = true
    · have hpos : s.getEpoch.epochNumber ≠ 0 := by
        intro hzero
        have hend := of_decide_eq_true hlast
        rw [getLastBlockHeight, if_pos hzero] at hend
        omega
      rw [if_pos hlast, get_set_ne_none, hold, hlast]
      simp only [reduceCtorEq, and_false, or_false, and_true]
      omega
    · rw [if_neg hlast, Bool.eq_false_iff.mpr hlast]
      exact hold number

end State

namespace Chain

/-- The invariant of the chain. -/
def Sealed (c : Chain S) : Prop := c.epoching.Sealed c.header.height

theorem Sealed.step (h : c.Sealed) (htil : c.Tiled) {l : Label S}
    (hstep : c.step stk authority l = some t) : t.Sealed := by
  cases stepped htil.started hstep with
  | beginBlock hhd _ _ hlt hbegin _ =>
    subst hhd
    rw [htil.epochs.beginBlocker rfl hlt] at hbegin
    cases hbegin
    by_cases hfirst : c.epoching.getEpoch.isFirstBlockOfNextEpoch (c.header.height + 1) = true
    · exact State.Sealed.begunWith_first h htil.epochs rfl hlt hfirst
    · exact State.Sealed.begunWith_within h htil.epochs rfl hlt hfirst
  | refused | other => exact h
  | delivered _ _ _ hdlv => cases hdlv <;> exact ⟨h.appHash, h.blockHash⟩
  | endBlock _ hend =>
    rcases hend.alike with ⟨-, hsame⟩ | ⟨-, _, _, hsame⟩
    · unfold Sealed
      rw [hsame]
      exact h
    · have hclosed : (c.epoching.closed c.header).Sealed c.header.height := by
        constructor <;> rw [State.getEpoch_closed htil.epochs]
        exacts [h.appHash, h.blockHash]
      unfold Sealed
      rw [hsame]
      exact ⟨hclosed.appHash, hclosed.blockHash⟩
  | finalizeCheckpoint _ _ _ halike =>
    obtain ⟨_, _, rfl⟩ := halike
    exact ⟨h.appHash, h.blockHash⟩

theorem Genesis.sealed (h : Genesis stk c) : c.Sealed := by
  have hcur : c.epoching.getEpoch.epochNumber = 0 := by
    have hget := h.tiled.epochs.current
    rw [h.epochInfo] at hget
    obtain ⟨hzero, -⟩ | ⟨-, hnone⟩ := of_get_set hget
    · exact hzero
    · cases hnone
  refine ⟨fun number => ?_, fun number => ?_⟩
  · rw [h.sealerAppHash, hcur]
    exact iff_of_false (fun hsome => hsome rfl) (Nat.not_lt_zero _)
  · rw [h.sealerBlockHash, hcur]
    exact iff_of_false (fun hsome => hsome rfl) (by omega)

/-- The epochs of a chain: which blocks they contain, and what is recorded of them when. -/
structure EpochsTile (stk : StakingKeeper S) (c : Chain S) : Prop where
  stored : c.epoching.epochInfo.get c.epoching.getEpoch.epochNumber =
    some c.epoching.getEpoch
  started : c.phase = .delivering → 1 ≤ c.epoching.getEpoch.epochNumber
  contains_iff : c.epoching.Contains c.epoching.getEpoch.epochNumber
    c.header.height ↔ c.epoching.getEpoch.Fits
  consecutive : ∀ number e next, c.epoching.epochInfo.get number = some e →
    c.epoching.epochInfo.get (number + 1) = some next →
    next.firstBlockHeight = e.getLastBlockHeight + 1
  recorded : ∀ number e, c.epoching.epochInfo.get number = some e → e.Fits →
    (e.lastBlockTime ≠ none ↔ e.getLastBlockHeight < c.header.height ∨
      e.getLastBlockHeight = c.header.height ∧ c.phase = .ended) ∧
    (c.epoching.sealerBlockHash.get number ≠ none ↔
      1 ≤ number ∧ e.getLastBlockHeight ≤ c.header.height) ∧
    (c.epoching.sealerAppHash.get number ≠ none ↔ e.getLastBlockHeight < c.header.height)
  beginBlocker : ∀ header blockHash, header.height = c.header.height + 1 →
    header.height < 2 ^ 63 → ∃ stores, c.beginBlocker stk header blockHash = .ok stores
  endBlocker : ∃ result, c.endBlocker stk c.header = .ok result

/-- Only the epochs before the current one are over. -/
theorem Tiled.over_iff (h : c.Tiled) {number : Nat} {e : Epoch}
    (hget : c.epoching.epochInfo.get number = some e) (hfits : e.Fits) :
    e.getLastBlockHeight < c.header.height ↔ number < c.epoching.getEpoch.epochNumber := by
  constructor
  · intro hover
    refine Nat.lt_of_le_of_ne (h.epochs.last number e hget) ?_
    rintro rfl
    rw [h.epochs.current] at hget
    cases hget
    have hend := h.epochs.le_last hfits
    omega
  · intro hlt
    exact (h.epochs.last_lt_first h.epochs.current hget hlt).trans_le h.epochs.first_le

/-- Epochs tile the chain, up to one whose heights wrap; the genesis block has no sealer, and no
step of a block panics. -/
theorem epochs_tile {history : History S}
    (run : Run (epochingSystem stk authority) history c) : c.EpochsTile stk := by
  have h := tiled_of_run run
  have hseals : c.Sealed := by
    refine (run.invariant (fun c => c.Tiled ∧ c.Sealed) ?_ ?_ .trivial).2
    · exact fun _ hinit => ⟨Genesis.tiled hinit, Genesis.sealed hinit⟩
    · exact fun _ _ _ h _ hstep => ⟨h.1.step hstep, h.2.step h.1 hstep⟩
  have hcur := h.epochs.current
  refine ⟨hcur, ?_, ?_, ?_, ?_, ?_, ?_⟩
  · intro hph
    refine Nat.pos_of_ne_zero fun hzero => ?_
    have hstart := h.started hph
    rw [hzero] at hcur
    have hend := h.epochs.le_last (h.epochs.genesis _ hcur).2
    rw [getLastBlockHeight, if_pos hzero] at hend
    omega
  · constructor
    · rintro ⟨e, hget, hwithin⟩
      rw [hcur] at hget
      cases hget
      obtain ⟨hfirst, hend⟩ := withinBoundary_iff.mp hwithin
      exact h.epochs.fits_of_le hcur (hfirst.trans hend)
    · intro hfits
      exact ⟨_, hcur, withinBoundary_iff.mpr ⟨h.epochs.first_le, h.epochs.le_last hfits⟩⟩
  · intro number e next hget hnext
    obtain ⟨-, before, hbef, -, hfirst⟩ := h.epochs.consecutive number next hnext
    rw [hget] at hbef
    cases hbef
    exact hfirst
  · intro number e hget hfits
    have hover := h.over_iff hget hfits
    rw [h.ended_iff number e hget, hseals.blockHash, hseals.appHash, hover, and_iff_right hfits]
    refine ⟨Iff.rfl, and_congr_right fun _ => ?_, Iff.rfl⟩
    rcases Nat.lt_or_eq_of_le (h.epochs.last number e hget) with hlt | rfl
    · exact iff_of_true (.inl hlt) (hover.mpr hlt).le
    · rw [hcur] at hget
      cases hget
      have hend := h.epochs.le_last hfits
      rw [isLastBlock, decide_eq_true_iff]
      omega
  · intro header blockHash hnext hlt
    exact ⟨_, h.epochs.beginBlocker hnext hlt blockHash⟩
  · unfold Stores.endBlocker
    split
    case isTrue hlast =>
      rw [State.recordLastHeaderTime, ensure_of _ hlast]
      exact ⟨_, rfl⟩
    case isFalse => exact ⟨_, rfl⟩

end Chain

/-- Block 5 is in epoch 3, and epoch 2 is sealed. -/
theorem epochs_tile_five_blocks :
    ∃ history c, Run localSystem history c ∧
      c.header.height = 5 ∧ c.epoching.Contains 3 5 ∧
      c.epoching.sealerAppHash.get 2 ≠ none ∧
      c.epoching.sealerBlockHash.get 2 ≠ none ∧
      c.epoching.sealerBlockHash.get 3 = none := by
  obtain ⟨history, c, run, hheight, hcurrent, hfits, hlast, second, hsecond, hover⟩ :=
    reachingLocal
    (P := fun c => c.header.height = 5 ∧ c.epoching.getEpoch.epochNumber = 3 ∧
      c.epoching.getEpoch.Fits ∧ c.epoching.getEpoch.getLastBlockHeight = 6 ∧
      ∃ e, c.epoching.epochInfo.get 2 = some e ∧ e.Fits ∧ e.getLastBlockHeight < 5)
    empty (fiveBlocks []) (by decide +kernel)
  have htile := Chain.epochs_tile run
  have hcontains := htile.contains_iff.mpr hfits
  have hstored := htile.stored
  rw [hcurrent] at hcontains hstored
  obtain ⟨-, hblock, happ⟩ := htile.recorded 2 second hsecond hover.1
  obtain ⟨-, hopen, -⟩ := htile.recorded 3 _ hstored hfits
  rw [hheight] at hcontains hblock happ hopen
  refine ⟨history, c, run, hheight, hcontains, happ.mpr hover.2,
    hblock.mpr ⟨Nat.le_succ 1, hover.2.le⟩, ?_⟩
  by_contra hsome
  have hend := (hopen.mp hsome).2
  omega

/-- A proposal sets the interval to 2^64 - 1.  The next epoch, which begins at block 3, ends at
block 1: it does not contain its own block, and its end is never recorded. -/
theorem wrapped_epoch :
    ∃ history c, Run localSystem history c ∧
      c.phase = .delivering ∧ c.header.height = 3 ∧
      c.epoching.getEpoch.getLastBlockHeight = 1 ∧
      ¬ c.epoching.Contains c.epoching.getEpoch.epochNumber c.header.height ∧
      c.epoching.getEpoch.lastBlockTime = none :=
  reachingLocal empty
    (blockAt 10 [.updateParams localAuthority
      { Params.default with epochInterval := 18446744073709551615 }] ++ blockAt 20 [] ++
      [.beginBlock 30 [] []]) (by decide +kernel)

end Babylon.Epoching
