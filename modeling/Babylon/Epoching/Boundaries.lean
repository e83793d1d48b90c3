/-
  The heights of an epoch, and the lookup of the epoch of a height.

  An epoch keeps the interval that was in force when it began, so that the stored epochs
  divide the heights of the chain whatever the parameters were, unless a proposal makes
  the interval so long that the heights of an epoch wrap: then it has no end, and does not
  even contain its own blocks.  `GetEpochNumByHeight` divides by the interval now in force.
  The two agree exactly when the stored epochs begin where that interval would have put
  them, and they may part once a proposal changes it.
-/
import Babylon.Epoching.Effects
import Babylon.Epoching.StakingLaws
import Babylon.Finality.MsgServer

set_option autoImplicit false

namespace Babylon.Epoching

open Lib KVStore Finality Epoch

/-! ## Stored epochs -/

/-- A sum that does not wrap. -/
theorem Epoch.Fits.last_eq {e : Epoch} (h : e.Fits) (hnum : e.epochNumber ≠ 0)
    (hivl : 2 ≤ e.currentEpochInterval.toNat) :
    e.getLastBlockHeight + 1 = e.firstBlockHeight + e.currentEpochInterval.toNat := by
  unfold Fits at h
  rw [getLastBlockHeight, if_neg hnum]
  omega

/-- An epoch whose sums wrap contains no height. -/
theorem Epoch.last_lt_first {e : Epoch} (h : ¬ e.Fits) (hnum : e.epochNumber ≠ 0) :
    e.getLastBlockHeight < e.firstBlockHeight := by
  have hivl := e.currentEpochInterval.toNat_lt
  unfold Fits at h
  rw [getLastBlockHeight, if_neg hnum]
  omega

/-- The stored epochs follow one another from height 0 on, and the last one has the height of
the chain if its own heights do not wrap. -/
structure State.Tiled (s : State) (height : Nat) : Prop where
  interval_le : 2 ≤ s.params.epochInterval.toNat
  current : s.epochInfo.get s.getEpoch.epochNumber = some s.getEpoch
  last : ∀ number e, s.epochInfo.get number = some e → number ≤ s.getEpoch.epochNumber
  numbered : ∀ number e, s.epochInfo.get number = some e → e.epochNumber = number
  genesis : ∀ e, s.epochInfo.get 0 = some e → e.firstBlockHeight = 0 ∧ e.Fits
  consecutive : ∀ number e, s.epochInfo.get (number + 1) = some e →
    2 ≤ e.currentEpochInterval.toNat ∧ ∃ before, s.epochInfo.get number = some before ∧
      before.Fits ∧ e.firstBlockHeight = before.getLastBlockHeight + 1
  first_le : s.getEpoch.firstBlockHeight ≤ height
  le_last : s.getEpoch.Fits → height ≤ s.getEpoch.getLastBlockHeight
  height_lt : height < 2 ^ 63

/-- The epoch that the store has for a height. -/
def State.Contains (s : State) (number height : Nat) : Prop :=
  ∃ e, s.epochInfo.get number = some e ∧ e.withinBoundary height = true

instance (s : State) (number height : Nat) : Decidable (s.Contains number height) :=
  inferInstanceAs (Decidable (∃ e, _ ∧ withinBoundary e height = true))

variable {past : Nat}

namespace State

variable {s s' : State} {height number : Nat} {e : Epoch}

/-- The current epoch is the last one in the store. -/
theorem getEpoch_eq (hget : s.epochInfo.get e.epochNumber = some e)
    (hlast : ∀ number other, s.epochInfo.get number = some other → number ≤ e.epochNumber) :
    s.getEpoch = e := by
  unfold getEpoch
  cases hfnd : s.epochInfo.last? with
  | none =>
    have habsent := KVStore.last?_eq_none.mp hfnd e.epochNumber
    rw [hget] at habsent
    cases habsent
  | some found =>
    obtain ⟨number, other⟩ := found
    have hle := hlast number other (get_of_last? hfnd)
    have hge := KVStore.le_last? hfnd hget
    obtain rfl : number = e.epochNumber := Nat.le_antisymm hle hge
    rw [get_of_last? hfnd] at hget
    exact Option.some.inj hget

namespace Tiled

section

variable (h : s.Tiled height)

include h

section

variable (hget : s.epochInfo.get number = some e)

include hget

theorem stored_le {earlier : Nat}
    (hle : earlier ≤ number) : ∃ e', s.epochInfo.get earlier = some e' := by
  induction number generalizing e with
  | zero => exact ⟨e, Nat.le_zero.mp hle ▸ hget⟩
  | succ number ih =>
    rcases Nat.le_succ_iff.mp hle with hle | rfl
    · obtain ⟨-, before, hbef, -⟩ := h.consecutive number e hget
      exact ih hbef hle
    · exact ⟨e, hget⟩

/-- Only the current epoch can wrap. -/
theorem fits (hlt : number < s.getEpoch.epochNumber ∨ s.getEpoch.Fits) : e.Fits := by
  rcases Nat.lt_or_eq_of_le (h.last number e hget) with hlt | rfl
  · obtain ⟨next, hnext⟩ := h.stored_le h.current hlt
    obtain ⟨-, before, hbef, hfits, -⟩ := h.consecutive number next hnext
    rw [hget] at hbef
    cases hbef
    exact hfits
  · rw [h.current] at hget
    cases hget
    exact hlt.resolve_left (Nat.lt_irrefl _)

/-- Every epoch has a block. -/
theorem nonempty (hfits : e.Fits) : e.firstBlockHeight ≤ e.getLastBlockHeight := by
  have hnum := h.numbered number e hget
  cases number with
  | zero =>
    rw [(h.genesis e hget).1]
    exact Nat.zero_le _
  | succ number =>
    have hivl := (h.consecutive number e hget).1
    have hlast := hfits.last_eq (by omega) hivl
    omega

/-- An epoch with a block at which it has ended does not wrap. -/
theorem fits_of_le (hle : e.firstBlockHeight ≤ e.getLastBlockHeight) : e.Fits := by
  by_contra hnot
  have hnum := h.numbered number e hget
  cases number with
  | zero => exact hnot (h.genesis e hget).2
  | succ number =>
    have hlt := last_lt_first hnot (by omega)
    omega

/-- An epoch ends before a later one begins. -/
theorem last_lt_first {earlier : Nat} {e' : Epoch} (hget' : s.epochInfo.get earlier = some e')
    (hlt : earlier < number) : e'.getLastBlockHeight < e.firstBlockHeight := by
  induction number generalizing e with
  | zero => omega
  | succ number ih =>
    obtain ⟨-, before, hbef, hfits, hfirst⟩ := h.consecutive number e hget
    rcases Nat.lt_succ_iff_lt_or_eq.mp hlt with hlt | rfl
    · have hend := ih hbef hlt
      have hnonempty := h.nonempty hbef hfits
      omega
    · rw [hget'] at hbef
      cases hbef
      omega

theorem first_le_of_stored : e.firstBlockHeight ≤ height := by
  have hfirst := h.first_le
  rcases Nat.lt_or_eq_of_le (h.last number e hget) with hlt | rfl
  · have hend := h.last_lt_first h.current hget hlt
    have hnonempty := h.nonempty hget (h.fits hget (.inl hlt))
    omega
  · rw [h.current] at hget
    cases hget
    exact hfirst

end

/-- No height is in two epochs. -/
theorem contains_unique {at_ other : Nat} (hcont : s.Contains number at_)
    (ho : s.Contains other at_) : number = other := by
  obtain ⟨e, hget, hwithin⟩ := hcont
  obtain ⟨e', hget', hwithin'⟩ := ho
  rw [withinBoundary_iff] at hwithin hwithin'
  rcases Nat.lt_trichotomy number other with hlt | heq | hlt
  · have hend := h.last_lt_first hget' hget hlt
    omega
  · exact heq
  · have hend := h.last_lt_first hget hget' hlt
    omega

/-- Every height up to the end of an epoch is in it or in an earlier one. -/
theorem exists_contains_of_le (hget : s.epochInfo.get number = some e)
    (hle : past ≤ e.getLastBlockHeight) : ∃ number, s.Contains number past := by
  induction number generalizing e with
  | zero =>
    have hfirst := (h.genesis e hget).1
    exact ⟨0, e, hget, withinBoundary_iff.mpr ⟨by omega, hle⟩⟩
  | succ number ih =>
    obtain ⟨-, before, hbef, -, hfirst⟩ := h.consecutive number e hget
    by_cases hin : e.firstBlockHeight ≤ past
    · exact ⟨number + 1, e, hget, withinBoundary_iff.mpr ⟨hin, hle⟩⟩
    · exact ih hbef (by omega)

/-- Only the stored epochs and the parameters matter. -/
theorem of_eq (hinfo : s'.epochInfo = s.epochInfo)
    (hivl : 2 ≤ s'.params.epochInterval.toNat) : s'.Tiled height := by
  obtain ⟨params', epochInfo', _, _, _, _, _, _, _, _⟩ := s'
  subst hinfo
  exact { h with interval_le := hivl }

theorem of_alike (halike : s.Alike s') : s'.Tiled height := by
  obtain ⟨_, _, rfl⟩ := halike
  exact h.of_eq rfl h.interval_le

end

end Tiled

end State

/-! ## Changes of the current epoch -/

variable {header : HeaderInfo}

variable {powers : List (ValAddress × Nat)}

namespace State

variable {s s' : State} {height number : Nat} {e : Epoch}

section

variable (h : s.Tiled height)

include h

theorem getEpoch_closed (header : HeaderInfo) :
    (s.closed header).getEpoch = { s.getEpoch with lastBlockTime := some header.time } := by
  exact getEpoch_eq (get_set_self ..) (forall_set h.last le_rfl)

/-- An epoch of the store after the last block of the current one. -/
theorem get_closed (hget : (s.closed header).epochInfo.get number = some e) :
    ∃ before, s.epochInfo.get number = some before ∧
      e = { before with
        lastBlockTime :=
          if number = s.getEpoch.epochNumber then some header.time else before.lastBlockTime } := by
  obtain ⟨rfl, rfl⟩ | ⟨hne, hold⟩ := of_get_set hget
  · exact ⟨s.getEpoch, h.current, by rw [if_pos rfl]⟩
  · exact ⟨e, hold, by rw [if_neg hne]⟩

theorem Tiled.closed (header : HeaderInfo) : (s.closed header).Tiled height := by
  have hcur := getEpoch_closed h header
  have hsto : ∀ {number before}, s.epochInfo.get number = some before →
      ∃ after, (s.closed header).epochInfo.get number = some after ∧
        (before.Fits → after.Fits) ∧ after.getLastBlockHeight = before.getLastBlockHeight := by
    intro number before hget
    unfold State.closed setEpochInfo
    rw [get_set]
    split
    case isTrue heq =>
      subst heq
      rw [h.current] at hget
      cases hget
      exact ⟨_, rfl, id, rfl⟩
    case isFalse => exact ⟨before, hget, id, rfl⟩
  refine ⟨h.interval_le, ?_, ?_, ?_, ?_, ?_, ?_, ?_, h.height_lt⟩
  · rw [hcur]
    exact get_set_self ..
  · intro number e hget
    obtain ⟨before, hbef, rfl⟩ := get_closed h hget
    rw [hcur]
    exact h.last number before hbef
  · intro number e hget
    obtain ⟨before, hbef, rfl⟩ := get_closed h hget
    exact h.numbered number before hbef
  · intro e hget
    obtain ⟨before, hbef, rfl⟩ := get_closed h hget
    exact h.genesis before hbef
  · intro number e hget
    obtain ⟨before, hbef, rfl⟩ := get_closed h hget
    obtain ⟨hivl, earlier, hearl, hfits, hfirst⟩ := h.consecutive number before hbef
    obtain ⟨after, haft, hkept, hsame⟩ := hsto hearl
    exact ⟨hivl, after, haft, hkept hfits, by rw [hsame]; exact hfirst⟩
  · rw [hcur]
    exact h.first_le
  · rw [hcur]
    exact h.le_last

/-- The next epoch begins when the chain has passed the last block of the current one. -/
theorem Tiled.isFirstBlockOfNextEpoch_iff {next : Nat} (hnext : next = height + 1)
    (hlt : next < 2 ^ 63) : s.getEpoch.isFirstBlockOfNextEpoch next = true ↔
      s.getEpoch.Fits ∧ next = s.getEpoch.getLastBlockHeight + 1 := by
  have hget := h.current
  unfold isFirstBlockOfNextEpoch getLastBlockHeight
  split
  case isTrue hzero =>
    rw [hzero] at hget
    rw [decide_eq_true_iff]
    exact (and_iff_right (h.genesis _ hget).2).symm
  case isFalse hzero =>
    obtain ⟨before, hbef⟩ := Nat.exists_eq_succ_of_ne_zero hzero
    rw [hbef] at hget
    have hivl := (h.consecutive before s.getEpoch hget).1
    have hmax := s.getEpoch.currentEpochInterval.toNat_lt
    have hfirst := h.first_le
    rw [decide_eq_true_iff]
    unfold Fits
    omega

/-- The last block of an epoch is one that it contains. -/
theorem Tiled.fits_of_isLastBlock (hlast : s.getEpoch.isLastBlock height = true) :
    s.getEpoch.Fits := by
  refine h.fits_of_le h.current ?_
  rw [of_decide_eq_true hlast]
  exact h.first_le

theorem get_incEpoch (hget : (s.incEpoch header).epochInfo.get number = some e) :
    (number = s.getEpoch.epochNumber + 1 ∧
        e = ⟨number, s.params.epochInterval, header.height, none⟩) ∨
      (number ≤ s.getEpoch.epochNumber ∧ s.epochInfo.get number = some e) := by
  obtain ⟨rfl, rfl⟩ | ⟨-, hold⟩ := of_get_set hget
  · exact .inl ⟨rfl, rfl⟩
  · exact .inr ⟨h.last number e hold, hold⟩

theorem getEpoch_incEpoch (header : HeaderInfo) :
    (s.incEpoch header).getEpoch =
      ⟨s.getEpoch.epochNumber + 1, s.params.epochInterval, header.height, none⟩ := by
  refine getEpoch_eq (get_set_self ..) fun number other hget => ?_
  rcases get_incEpoch h hget with ⟨rfl, -⟩ | ⟨hle, -⟩
  · exact Nat.le_refl _
  · exact Nat.le_succ_of_le hle

theorem Tiled.incEpoch (hfits : s.getEpoch.Fits)
    (hfirst : header.height = s.getEpoch.getLastBlockHeight + 1) (hlt : header.height < 2 ^ 63) :
    (s.incEpoch header).Tiled header.height := by
  have hcur := getEpoch_incEpoch h header
  have hsto : ∀ {number before}, s.epochInfo.get number = some before →
      (s.incEpoch header).epochInfo.get number = some before := by
    intro number before hget
    have hle := h.last number before hget
    exact (get_set_of_ne _ _ (by dsimp only; omega)).trans hget
  refine ⟨h.interval_le, ?_, ?_, ?_, ?_, ?_, ?_, ?_, hlt⟩
  · rw [hcur]
    exact get_set_self ..
  · intro number e hget
    rw [hcur]
    rcases get_incEpoch h hget with ⟨rfl, -⟩ | ⟨hle, -⟩
    · exact Nat.le_refl _
    · exact Nat.le_succ_of_le hle
  · intro number e hget
    rcases get_incEpoch h hget with ⟨rfl, rfl⟩ | ⟨-, hget⟩
    · rfl
    · exact h.numbered number e hget
  · intro e hget
    rcases get_incEpoch h hget with ⟨hzero, -⟩ | ⟨-, hget⟩
    · omega
    · exact h.genesis e hget
  · intro number e hget
    rcases get_incEpoch h hget with ⟨hnum, rfl⟩ | ⟨-, hget⟩
    · obtain rfl : number = s.getEpoch.epochNumber := by omega
      exact ⟨h.interval_le, s.getEpoch, hsto h.current, hfits, hfirst⟩
    · obtain ⟨hivl, before, hbef, hbefore, hnext⟩ := h.consecutive number e hget
      exact ⟨hivl, before, hsto hbef, hbefore, hnext⟩
  · rw [hcur]
  · rw [hcur]
    intro hnew
    have hivl := h.interval_le
    have hend := hnew.last_eq (Nat.succ_ne_zero _) hivl
    dsimp only at hend
    omega

/-- An epoch of the store when a block has begun. -/
theorem get_begun (hget : (s.begun powers header).epochInfo.get number = some e) :
    (s.getEpoch.isFirstBlockOfNextEpoch header.height = true ∧
        number = s.getEpoch.epochNumber + 1 ∧
        e = ⟨number, s.params.epochInterval, header.height, none⟩) ∨
      s.epochInfo.get number = some e := by
  unfold begun at hget
  split at hget
  case isTrue hfirst =>
    rcases get_incEpoch h hget with ⟨hnum, he⟩ | ⟨-, hold⟩
    · exact .inl ⟨hfirst, hnum, he⟩
    · exact .inr hold
  case isFalse => exact .inr hget

/-- The stored epochs when a block has begun. -/
theorem Tiled.begun (powers : List (ValAddress × Nat)) (hnext : header.height = height + 1)
    (hlt : header.height < 2 ^ 63) : (s.begun powers header).Tiled header.height := by
  have hiff := h.isFirstBlockOfNextEpoch_iff hnext hlt
  unfold State.begun
  split
  case isTrue hfirst =>
    obtain ⟨hfits, hlast⟩ := hiff.mp hfirst
    exact (h.incEpoch hfits hlast hlt).of_eq rfl h.interval_le
  case isFalse hfirst =>
    have hle := h.first_le
    refine { h with first_le := by omega, le_last := fun hfits => ?_, height_lt := hlt }
    have hend := h.le_last hfits
    have hne := mt (fun heq => hiff.mpr ⟨hfits, heq⟩) hfirst
    omega

end

end State

/-! ## The chain -/

variable {S : Type} {stk : StakingKeeper S} {authority : Bech32} {c t : Chain S}

/-- The epochs of a chain.  An epoch has the time of its last block once that block has ended. -/
structure Chain.Tiled (c : Chain S) : Prop where
  epochs : c.epoching.Tiled c.header.height
  started : c.phase = .delivering → 0 < c.header.height
  ended_iff : ∀ number e, c.epoching.epochInfo.get number = some e →
    (e.lastBlockTime ≠ none ↔ e.Fits ∧ (e.getLastBlockHeight < c.header.height ∨
      e.getLastBlockHeight = c.header.height ∧ c.phase = .ended))

namespace Chain

/-- The epoch of the genesis block fits. -/
theorem fits_genesis (time : Option Time) : Fits ⟨0, 1, 0, time⟩ := by
  show 0 + 1 ≤ 2 ^ 64
  omega

theorem Genesis.tiled (h : Genesis stk c) : c.Tiled := by
  have hivl := (Params.validate_ok h.params_valid).1
  have hget : ∀ {number e}, c.epoching.epochInfo.get number = some e →
      number = 0 ∧ e = ⟨0, 1, 0, some c.header.time⟩ := by
    intro number e hget
    rw [h.epochInfo] at hget
    obtain ⟨rfl, rfl⟩ | ⟨-, hnone⟩ := of_get_set hget
    · exact ⟨rfl, rfl⟩
    · cases hnone
  have hcur : c.epoching.getEpoch = ⟨0, 1, 0, some c.header.time⟩ := by
    refine State.getEpoch_eq (by rw [h.epochInfo]; exact get_set_self ..) ?_
    intro number e hsto
    exact (hget hsto).1.le
  refine ⟨⟨hivl, ?_, ?_, ?_, ?_, ?_, ?_, ?_, ?_⟩, ?_, ?_⟩
  · rw [hcur, h.epochInfo]
    exact get_set_self ..
  · intro number e hsto
    exact (hget hsto).1 ▸ Nat.zero_le _
  · intro number e hsto
    obtain ⟨rfl, rfl⟩ := hget hsto
    rfl
  · intro e hsto
    obtain ⟨-, rfl⟩ := hget hsto
    exact ⟨rfl, fits_genesis _⟩
  · intro number e hsto
    exact absurd (hget hsto).1 (Nat.succ_ne_zero number)
  · rw [hcur, h.height]
  · rw [h.height]
    exact fun _ => Nat.zero_le _
  · rw [h.height]
    decide
  · intro hph
    rw [h.phase] at hph
    cases hph
  · intro number e hsto
    obtain ⟨rfl, rfl⟩ := hget hsto
    rw [h.height, h.phase]
    exact iff_of_true nofun ⟨fits_genesis _, .inr ⟨rfl, rfl⟩⟩

namespace Tiled

/-- A step that writes neither epochs nor parameters. -/
theorem of_eq (h : c.Tiled) (hhd : t.header = c.header) (hph : t.phase = c.phase)
    (hinfo : t.epoching.epochInfo = c.epoching.epochInfo)
    (hivl : 2 ≤ t.epoching.params.epochInterval.toNat) : t.Tiled := by
  refine ⟨?_, ?_, ?_⟩
  · rw [hhd]
    exact h.epochs.of_eq hinfo hivl
  · rw [hhd, hph]
    exact h.started
  · rw [hhd, hph, hinfo]
    exact h.ended_iff

theorem beginBlock (h : c.Tiled) (hph : c.phase = .ended)
    (hht : header.height = c.header.height + 1) (hlt : header.height < 2 ^ 63)
    {sealerAppHash sealerBlockHash : KVStore Nat Bytes} : Chain.Tiled { c with
      header, phase := .delivering, epoching := { c.epoching.begun powers header with
          sealerAppHash, sealerBlockHash } } := by
  have hbegun := h.epochs.begun powers hht hlt
  refine ⟨hbegun.of_eq rfl hbegun.interval_le, fun _ => by dsimp only; omega, ?_⟩
  intro number e hget
  dsimp only
  rcases State.get_begun h.epochs hget with ⟨-, rfl, rfl⟩ | hold
  · have hivl := h.epochs.interval_le
    refine iff_of_false (fun hsome => hsome rfl) ?_
    rintro ⟨hfits, hlt | ⟨-, hended⟩⟩
    · have hlast := hfits.last_eq (Nat.succ_ne_zero _) hivl
      dsimp only at hlast
      omega
    · cases hended
  · rw [h.ended_iff number e hold, hph, hht, Nat.lt_succ_iff_lt_or_eq]
    simp only [reduceCtorEq, and_false, or_false, and_true]

theorem endBlock (h : c.Tiled) {stores : Stores S} {executed : List QueuedMessage}
    {executions : List Execution} (hph : c.phase = .delivering)
    (hend : BlockEnd stk c.toStores c.header stores executed) :
    Chain.Tiled { c with phase := .ended, toStores := stores, executions } := by
  -- an earlier epoch ended before this block
  have hearl : ∀ number e, c.epoching.epochInfo.get number = some e →
      number ≠ c.epoching.getEpoch.epochNumber →
      e.getLastBlockHeight < c.header.height := by
    intro number e hget hne
    have hlt := Nat.lt_of_le_of_ne (h.epochs.last number e hget) hne
    exact Nat.lt_of_lt_of_le (h.epochs.last_lt_first h.epochs.current hget hlt) h.epochs.first_le
  rcases hend.alike with ⟨hlast, hsame⟩ | ⟨hlast, halike⟩
  · refine ⟨h.epochs.of_eq (congrArg State.epochInfo hsame) ?_, nofun, ?_⟩
    · rw [hsame]
      exact h.epochs.interval_le
    intro number e hget
    rw [hsame] at hget
    rw [h.ended_iff number e hget, hph]
    by_cases hnum : number = c.epoching.getEpoch.epochNumber
    · subst hnum
      rw [h.epochs.current] at hget
      cases hget
      have hne := of_decide_eq_false hlast
      simp [hne]
    · have hlt := hearl number e hget hnum
      simp [hlt]
  · refine ⟨(h.epochs.closed c.header).of_alike halike, nofun, ?_⟩
    intro number e hget
    obtain ⟨_, _, hsame⟩ := halike
    rw [hsame] at hget
    obtain ⟨before, hbef, rfl⟩ := State.get_closed h.epochs hget
    have hkept : ∀ time, ({ before with lastBlockTime := time } : Epoch).getLastBlockHeight =
        before.getLastBlockHeight := fun _ => rfl
    rw [hkept]
    by_cases hnum : number = c.epoching.getEpoch.epochNumber
    · subst hnum
      rw [h.epochs.current] at hbef
      cases hbef
      rw [if_pos rfl]
      exact iff_of_true nofun
        ⟨h.epochs.fits_of_isLastBlock hlast, .inr ⟨of_decide_eq_true hlast, rfl⟩⟩
    · have hlt := hearl number before hbef hnum
      have hfits := h.epochs.fits hbef (.inl (Nat.lt_of_le_of_ne (h.epochs.last _ _ hbef) hnum))
      rw [if_neg hnum]
      exact iff_of_true ((h.ended_iff number before hbef).mpr ⟨hfits, .inl hlt⟩) ⟨hfits, .inl hlt⟩

theorem step (h : c.Tiled) {l : Label S} (hstep : c.step stk authority l = some t) : t.Tiled := by
  cases stepped h.started hstep with
  | beginBlock hhd hph _ hlt _ hbegun =>
    subst hhd hbegun
    exact h.beginBlock hph rfl hlt
  | refused => exact h
  | delivered _ _ _ hdlv =>
    cases hdlv with
    | queued => exact h.of_eq rfl rfl rfl h.epochs.interval_le
    | updated _ hval => exact h.of_eq rfl rfl rfl (Params.validate_ok hval).1
  | endBlock hph hend => exact h.endBlock hph hend
  | finalizeCheckpoint _ _ _ halike =>
    obtain ⟨_, _, rfl⟩ := halike
    exact h.of_eq rfl rfl rfl h.epochs.interval_le
  | other => exact h.of_eq rfl rfl rfl h.epochs.interval_le

end Tiled

/-- The stored epochs divide the heights in every reachable state. -/
theorem tiled_of_run {history : History S}
    (run : Run (epochingSystem stk authority) history c) : c.Tiled := by
  exact run.invariant Tiled (fun _ hinit => Genesis.tiled hinit)
    (fun _ _ _ h _ hstep => Tiled.step h hstep) .trivial

end Chain

/-! ## The lookup -/

/-- `GetEpochNumByHeight` finds the stored epoch of every height of the chain. -/
def State.LookupCorrect (s : State) (height : Nat) : Prop :=
  ∀ past ≤ height, ∀ number, s.Contains number past ↔ number = s.getEpochNumByHeight past

/-- The stored epochs begin where the interval now in force puts them, and so would the next; the
heights of the current one do not wrap. -/
structure State.Aligned (s : State) (height : Nat) : Prop where
  first : ∀ number e, s.epochInfo.get (number + 1) = some e →
    e.firstBlockHeight = number * s.params.epochInterval.toNat + 1
  height_le : height ≤ s.getEpoch.epochNumber * s.params.epochInterval.toNat
  fits : s.getEpoch.Fits

theorem calculateEpochNumber_eq_succ {interval height number : Nat} (hpos : 0 < interval) :
    calculateEpochNumber height interval = number + 1 ↔
      number * interval < height ∧ height ≤ (number + 1) * interval := by
  unfold calculateEpochNumber
  split
  case isTrue hzero => simp [hzero]
  case isFalse hne =>
    have hiff : (height - 1) / interval = number ↔
        number * interval ≤ height - 1 ∧ height - 1 < (number + 1) * interval := by
      rw [← Nat.le_div_iff_mul_le hpos, ← Nat.div_lt_iff_lt_mul hpos]
      omega
    rw [Nat.succ_inj, hiff]
    omega

namespace State

variable {s : State} {height : Nat}

theorem contains_genesis (h : s.Tiled height) (hcont : s.Contains 0 past) : past = 0 := by
  obtain ⟨e, hget, hwithin⟩ := hcont
  have hend := (withinBoundary_iff.mp hwithin).2
  unfold getLastBlockHeight at hend
  rw [if_pos (h.numbered 0 e hget)] at hend
  exact Nat.le_zero.mp hend

/-- In aligned epochs the lookup finds the epoch that contains a height. -/
theorem Aligned.lookup (halg : s.Aligned height) (h : s.Tiled height) {number : Nat}
    (hpast : past ≤ height) (hcont : s.Contains number past) :
    s.getEpochNumByHeight past = number := by
  have hpos := Nat.lt_of_lt_of_le Nat.zero_lt_two h.interval_le
  cases number with
  | zero =>
    rw [contains_genesis h hcont]
    rfl
  | succ number =>
    obtain ⟨e, hget, hwithin⟩ := hcont
    obtain ⟨hfirst, hend⟩ := withinBoundary_iff.mp hwithin
    rw [halg.first number e hget] at hfirst
    refine (calculateEpochNumber_eq_succ hpos).mpr ⟨hfirst, ?_⟩
    -- the epoch is followed by another one, or it is the current one
    rcases Nat.lt_or_eq_of_le (h.last (number + 1) e hget) with hlt | heq
    · obtain ⟨next, hnext⟩ := h.stored_le h.current hlt
      obtain ⟨-, before, hbef, -, hfol⟩ := h.consecutive (number + 1) next hnext
      rw [hget] at hbef
      cases hbef
      have halg := halg.first (number + 1) next hnext
      exact hend.trans (Nat.succ.inj (hfol.symm.trans halg)).le
    · rw [heq]
      exact hpast.trans halg.height_le

/-- The lookup is correct exactly if the epochs are aligned with the interval. -/
theorem Tiled.lookupCorrect_iff (h : s.Tiled height) :
    s.LookupCorrect height ↔ s.Aligned height := by
  have hpos := Nat.lt_of_lt_of_le Nat.zero_lt_two h.interval_le
  constructor
  · intro hcorrect
    -- the height of the chain is found in an epoch, hence in the current one
    have hfits : s.getEpoch.Fits := by
      obtain ⟨e, hget, hwithin⟩ := (hcorrect height (Nat.le_refl _) _).mpr rfl
      obtain ⟨hfirst, hend⟩ := withinBoundary_iff.mp hwithin
      rcases Nat.lt_or_eq_of_le (h.last _ e hget) with hlt | heq
      · have hbefore := h.last_lt_first h.current hget hlt
        have hle := h.first_le
        omega
      · rw [heq, h.current] at hget
        cases hget
        exact h.fits_of_le h.current (hfirst.trans hend)
    have hlookup : ∀ {number e past}, s.epochInfo.get (number + 1) = some e → past ≤ height →
        e.firstBlockHeight ≤ past → past ≤ e.getLastBlockHeight →
        number * s.params.epochInterval.toNat < past ∧
          past ≤ (number + 1) * s.params.epochInterval.toNat := by
      intro number e past hget hpast hfirst hend
      have hfnd := (hcorrect past hpast (number + 1)).mp
        ⟨e, hget, withinBoundary_iff.mpr ⟨hfirst, hend⟩⟩
      exact (calculateEpochNumber_eq_succ hpos).mp hfnd.symm
    refine ⟨?_, ?_, hfits⟩
    · intro number e hget
      have hnonempty := h.nonempty hget (h.fits hget (.inr hfits))
      have hstarted := h.first_le_of_stored hget
      have hlow := (hlookup hget hstarted (Nat.le_refl _) hnonempty).1
      obtain ⟨-, before, hbef, hbefits, hfol⟩ := h.consecutive number e hget
      -- the block before belongs to the epoch before
      have hhigh : before.getLastBlockHeight ≤ number * s.params.epochInterval.toNat := by
        cases number with
        | zero =>
          have hzero : s.Contains 0 before.getLastBlockHeight :=
            ⟨before, hbef, withinBoundary_iff.mpr ⟨h.nonempty hbef hbefits, Nat.le_refl _⟩⟩
          rw [contains_genesis h hzero]
          exact Nat.zero_le _
        | succ number =>
          exact (hlookup hbef (by omega) (h.nonempty hbef hbefits) (Nat.le_refl _)).2
      exact Nat.le_antisymm (hfol ▸ Nat.succ_le_succ hhigh) hlow
    · cases hnum : s.getEpoch.epochNumber with
      | zero =>
        have hget := h.current
        rw [hnum] at hget
        have hzero : s.Contains 0 height :=
          ⟨_, hget, withinBoundary_iff.mpr ⟨h.first_le, h.le_last hfits⟩⟩
        rw [contains_genesis h hzero]
        exact Nat.zero_le _
      | succ number =>
        have hget := h.current
        rw [hnum] at hget
        exact (hlookup hget (Nat.le_refl _) h.first_le (h.le_last hfits)).2
  · intro halg past hpast number
    constructor
    · intro hcont
      exact (halg.lookup h hpast hcont).symm
    · rintro rfl
      obtain ⟨number, hcont⟩ := h.exists_contains_of_le h.current
        (hpast.trans (h.le_last halg.fits))
      rw [halg.lookup h hpast hcont]
      exact hcont

/-- Epochs of one interval are aligned. -/
theorem Tiled.aligned (h : s.Tiled height)
    (hsame : ∀ number e, s.epochInfo.get (number + 1) = some e →
      e.currentEpochInterval = s.params.epochInterval) : s.Aligned height := by
  have hend : ∀ number e, s.epochInfo.get number = some e → e.Fits →
      e.getLastBlockHeight = number * s.params.epochInterval.toNat := by
    intro number
    induction number with
    | zero =>
      intro e hget _
      unfold getLastBlockHeight
      rw [if_pos (h.numbered 0 e hget), Nat.zero_mul]
    | succ number ih =>
      intro e hget hfits
      obtain ⟨hivl, before, hbef, hbefits, hfol⟩ := h.consecutive number e hget
      have hnum := h.numbered (number + 1) e hget
      have hlast := hfits.last_eq (by omega) hivl
      rw [hsame number e hget, hfol, ih before hbef hbefits] at hlast
      rw [Nat.succ_mul]
      omega
  have hfirst : ∀ number e, s.epochInfo.get (number + 1) = some e →
      e.firstBlockHeight = number * s.params.epochInterval.toNat + 1 := by
    intro number e hget
    obtain ⟨-, before, hbef, hbefits, hfol⟩ := h.consecutive number e hget
    rw [hfol, hend number before hbef hbefits]
  -- the interval is shorter than the chain, or the current epoch is the first one
  have hfits : s.getEpoch.Fits := by
    have hget := h.current
    have hmax := s.params.epochInterval.toNat_lt
    cases hnum : s.getEpoch.epochNumber with
    | zero =>
      rw [hnum] at hget
      exact (h.genesis _ hget).2
    | succ number =>
      rw [hnum] at hget
      have hstart := hfirst number _ hget
      have hle := h.first_le
      have hht := h.height_lt
      unfold Fits
      rw [hsame number _ hget]
      cases number with
      | zero =>
        rw [Nat.zero_mul] at hstart
        omega
      | succ number =>
        have hshort := Nat.le_mul_of_pos_left s.params.epochInterval.toNat (Nat.succ_pos number)
        generalize s.params.epochInterval.toNat = interval at *
        generalize (number + 1) * interval = before at *
        omega
  refine ⟨hfirst, ?_, hfits⟩
  rw [← hend _ _ h.current hfits]
  exact h.le_last hfits

end State

/-! ## Runs that keep the interval -/

/-- The parameters of a proposal. -/
def Label.params? : Label S → Option Params
  | .deliver (.updateParams _ params) => some params
  | _ => none

/-- The step does not change the epoch interval. -/
def KeepsEpochInterval (c : Chain S) (l : Label S) : Prop :=
  ∀ params ∈ l.params?, params.epochInterval = c.epoching.params.epochInterval

instance (c : Chain S) (l : Label S) : Decidable (KeepsEpochInterval c l) :=
  inferInstanceAs (Decidable (∀ params ∈ l.params?, _))

namespace Chain

/-- All epochs but the first have the interval now in force. -/
def Uniform (c : Chain S) : Prop :=
  ∀ number e, c.epoching.epochInfo.get (number + 1) = some e →
    e.currentEpochInterval = c.epoching.params.epochInterval

theorem Uniform.of_eq (h : c.Uniform)
    (hinfo : t.epoching.epochInfo = c.epoching.epochInfo)
    (hivl : t.epoching.params.epochInterval =
      c.epoching.params.epochInterval) : t.Uniform := by
  unfold Uniform
  rw [hinfo, hivl]
  exact h

theorem Uniform.step (h : c.Uniform) (htil : c.Tiled) {l : Label S}
    (hkeeps : KeepsEpochInterval c l) (hstep : c.step stk authority l = some t) : t.Uniform := by
  cases stepped htil.started hstep with
  | beginBlock _ _ _ _ _ hbegun =>
    subst hbegun
    have hparams : ∀ powers header, (c.epoching.begun powers header).params =
        c.epoching.params := by
      intro powers header
      unfold State.begun
      split <;> rfl
    intro number e hget
    refine Eq.trans ?_ (congrArg Params.epochInterval (hparams _ _).symm)
    rcases State.get_begun htil.epochs hget with ⟨-, -, rfl⟩ | hold
    · rfl
    · exact h number e hold
  | refused | other => exact h
  | finalizeCheckpoint _ _ _ halike =>
    obtain ⟨_, _, rfl⟩ := halike
    exact h.of_eq rfl rfl
  | delivered _ _ _ hdlv =>
    cases hdlv with
    | queued => exact h.of_eq rfl rfl
    | updated hmsg =>
      subst hmsg
      exact h.of_eq rfl (hkeeps _ rfl)
  | endBlock _ hend =>
    rcases hend.alike with ⟨-, hsame⟩ | ⟨-, _, _, hsame⟩
    · exact h.of_eq (by rw [hsame]) (by rw [hsame])
    · intro number e hget
      rw [hsame] at hget ⊢
      obtain ⟨before, hbef, rfl⟩ := State.get_closed htil.epochs hget
      exact h number before hbef

theorem uniform_of_run {history : History S} (run : Run (epochingSystem stk authority) history c)
    (hsteps : Steps KeepsEpochInterval history) : c.Uniform := by
  refine (run.invariant (fun c => c.Tiled ∧ c.Uniform) ?_ ?_ hsteps).2
  · intro c hinit
    have hgen : Genesis stk c := hinit
    refine ⟨hgen.tiled, fun number e hget => ?_⟩
    rw [hgen.epochInfo, get_set_of_ne _ _ (Nat.succ_ne_zero number)] at hget
    cases hget
  · rintro c l t ⟨htil, huniform⟩ hkeeps hstep
    exact ⟨htil.step hstep, huniform.step htil hkeeps hstep⟩

end Chain

/-- The lookup in every reachable state, and the votes that are refused in a run that keeps the
interval. -/
theorem epoch_lookup_correct {history : History S}
    (run : Run (epochingSystem stk authority) history c) :
    (c.epoching.LookupCorrect c.header.height ↔
        c.epoching.Aligned c.header.height) ∧
      (Steps KeepsEpochInterval history →
        c.epoching.LookupCorrect c.header.height ∧
        ∀ (env : Env) (block : IndexedBlock) (number : Nat),
          env.epochByHeight = c.epoching.getEpochNumByHeight →
          env.lastFinalizedEpoch = c.lastFinalizedEpoch → block.height ≤ c.header.height →
          c.epoching.Contains number block.height →
          (shouldAcceptSigForHeight env block = false ↔
            block.finalized = true ∧ number ≤ c.lastFinalizedEpoch)) := by
  have htiled := (Chain.tiled_of_run run).epochs
  refine ⟨htiled.lookupCorrect_iff, fun hsteps => ?_⟩
  have hcorrect : c.epoching.LookupCorrect c.header.height :=
    htiled.lookupCorrect_iff.mpr (htiled.aligned (Chain.uniform_of_run run hsteps))
  refine ⟨hcorrect, ?_⟩
  intro env block number henv hfinalized hheight hcontains
  have hnumber := (hcorrect block.height hheight number).mp hcontains
  unfold shouldAcceptSigForHeight
  rw [henv, hfinalized, ← hnumber]
  simp

/-- Two epochs of two blocks, and the first block of a third. -/
def fiveBlocks (last : List Msg) : List (Label LocalStaking) :=
  blockAt 10 [] ++ blockAt 20 [] ++ blockAt 30 [] ++ blockAt 40 [] ++ blockAt 50 last ++
    [.finalizeCheckpoint 1]

/-- A proposal changes the interval from 2 to 10.  The lookup then puts block 4, of epoch 2, into
epoch 1, and once that is finalized on Bitcoin all votes for the block are refused, although its
own epoch is not finalized. -/
theorem epoch_lookup_after_longer_interval :
    ∃ history c, Run localSystem history c ∧
      c.header.height = 5 ∧ c.lastFinalizedEpoch = 1 ∧ c.epoching.Contains 2 4 ∧
      c.epoching.getEpochNumByHeight 4 = 1 ∧
      ∀ (env : Env) (block : IndexedBlock),
        env.epochByHeight = c.epoching.getEpochNumByHeight →
        env.lastFinalizedEpoch = c.lastFinalizedEpoch → block.height = 4 →
        block.finalized = true → shouldAcceptSigForHeight env block = false := by
  obtain ⟨history, c, run, hheight, hfinalized, hcontains, hlookup⟩ := reachingLocal
    (P := fun c => c.header.height = 5 ∧ c.lastFinalizedEpoch = 1 ∧
      c.epoching.Contains 2 4 ∧ c.epoching.getEpochNumByHeight 4 = 1)
    empty (fiveBlocks [.updateParams localAuthority { Params.default with epochInterval := 10 }])
    (by decide +kernel)
  refine ⟨history, c, run, hheight, hfinalized, hcontains, hlookup, ?_⟩
  intro env block henv hlast hblock hfinal
  unfold shouldAcceptSigForHeight
  rw [henv, hlast, hblock, hlookup, hfinalized, hfinal]
  rfl

/-- With the interval of 2 kept, the lookup is right at block 5. -/
theorem epoch_lookup_with_same_interval :
    ∃ history c, Run localSystem history c ∧
      Steps KeepsEpochInterval history ∧ c.header.height = 5 ∧
      c.epoching.LookupCorrect 5 := by
  obtain ⟨history, c, run, hkept, hheight⟩ := Run.of_labels localSystem
    (Q := KeepsEpochInterval) (P := fun c => c.header.height = 5) (localChain_genesis empty)
    (fiveBlocks [.updateParams localAuthority { Params.default with epochInterval := 2 }])
    (by decide +kernel)
  refine ⟨history, c, run, hkept, hheight, ?_⟩
  rw [← hheight]
  exact ((epoch_lookup_correct run).2 hkept).1

end Babylon.Epoching
