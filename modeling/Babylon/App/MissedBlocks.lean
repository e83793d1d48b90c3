/-
  Jailing for missed blocks over whole runs.

  The record of a provider is a circular bitmap of missed blocks and a counter of
  its marks.  As long as the window and the examined heights do not change by
  governance, and the provider is examined at every height since its record was
  started, the counter is the number of blocks it missed among the last ones.
-/
import Babylon.App.JailPeriod

set_option autoImplicit false

namespace Babylon

open Lib Finality Devnet Chain FinalityProviderSigningInfo Finality.Params Aligned List

variable {I : Type} {cfg : Config I} {c : Chain I} {pk : BIP340PubKey}
  {history : History I}

/-! ## Examined heights -/

/-- The end of a block. -/
def Label.isEndBlock : Label I → Bool
  | .endBlock => true
  | _ => false

/-- The height whose votes are examined if the block ends in this state. -/
def Chain.examinedHeight (cfg : Config I) (c : Chain I) : Option Nat :=
  c.finality.examinedHeight (c.env cfg)

/-- The height was examined in the run, and the provider had not voted for it then. -/
def missedAt (cfg : Config I) (pk : BIP340PubKey) (history : History I) (height : Nat) : Bool :=
  history.any fun past => past.2.isEndBlock &&
    decide (past.1.examinedHeight cfg = some height ∧ pk ∉ past.1.finality.getVoters height)

/-- Since the height of its record, the provider has been enabled in every state and has been
in the table of every examined height. -/
def Steady (cfg : Config I) (pk : BIP340PubKey) (start : Int) (history : History I) : Prop :=
  ∀ past ∈ history, start ≤ past.1.header.height →
    Enabled past.1.btcStaking pk ∧
      (past.2.isEndBlock = true → ∀ height ∈ past.1.examinedHeight cfg, start ≤ height →
        pk ∈ (past.1.finality.votingPower.under height).keys)

/-- An accepted change of the parameters of `finality` keeps the window and the two parameters
that decide which heights are examined. -/
def KeepsWindow (cfg : Config I) (c : Chain I) : Label I → Prop
  | .deliver (.updateFinalityParams req) => ∀ w,
      updateParams (c.env cfg) c.toStores req = .ok w →
      w.finality.params.signedBlocksWindow = c.finality.params.signedBlocksWindow ∧
        w.finality.params.finalitySigTimeout = c.finality.params.finalitySigTimeout ∧
        w.finality.params.finalityActivationHeight = c.finality.params.finalityActivationHeight
  | _ => True

/-- The last block whose end has been reached. -/
def Chain.lastEnded (c : Chain I) : Nat :=
  if c.inBlock then c.header.height - 1 else c.header.height

/-- The first height that has not been examined yet. -/
def Chain.nextExamined (c : Chain I) : Nat :=
  c.lastEnded + 1 - c.finality.params.finalitySigTimeout.toNat

/-- The window of missed blocks. -/
def Chain.window (c : Chain I) : Nat := c.finality.params.signedBlocksWindow.toNat

variable {height : Nat}

/-- An examined height is the next one, unless the record started later. -/
theorem Chain.examinedHeight_eq_some (hin : c.inBlock = true)
    (htimeout : 0 < c.finality.params.finalitySigTimeout) (h : c.examinedHeight cfg = some height) :
    c.finality.isFinalityActive (c.env cfg) = true ∧ height = c.nextExamined ∧
      height + c.finality.params.finalitySigTimeout.toNat = c.header.height := by
  unfold Chain.examinedHeight State.examinedHeight at h
  split at h
  case isTrue hboth =>
    have hht : ((c.env cfg).header.height : Int) = c.header.height := rfl
    rw [hht] at hboth h
    have heq : ((c.header.height : Int) - c.finality.params.finalitySigTimeout).toNat = height :=
      Option.some.inj h
    rw [nextExamined, lastEnded, if_pos hin]
    refine ⟨hboth.1, ?_, ?_⟩ <;> omega
  case isFalse => cases h

theorem missedAt_cons (past : Chain I × Label I) (height : Nat) :
    missedAt cfg pk (past :: history) height = (past.2.isEndBlock &&
      decide (past.1.examinedHeight cfg = some height ∧
        pk ∉ past.1.finality.getVoters height) || missedAt cfg pk history height) := rfl

variable {l : Label I}

theorem missedAt_cons_of_not_endBlock (hl : l.isEndBlock = false) :
    missedAt cfg pk ((c, l) :: history) = missedAt cfg pk history := by
  funext height
  rw [missedAt_cons, hl, Bool.false_and, Bool.false_or]

theorem Steady.tail {start : Int} {past : Chain I × Label I}
    (h : Steady cfg pk start (past :: history)) : Steady cfg pk start history :=
  fun p hp => h p (mem_cons_of_mem _ hp)

/-! ## The invariant -/

/-- The record of a provider in every state of a run. -/
structure WindowInv (cfg : Config I) (pk : BIP340PubKey) (history : History I)
    (c : Chain I) : Prop where
  record : (c.finality.record pk).Counted c.window c.header.height
  active : ∀ i, c.finality.getMissedBlockBitmapValue pk i = true →
    c.finality.isFinalityActive (c.env cfg) = true
  missed_lt : ∀ height, missedAt cfg pk history height = true → height < c.nextExamined
  aligned : ∀ info, c.finality.finalityProviderSigningTracker.get pk = some info →
    Steady cfg pk info.startHeight history → Enabled c.btcStaking pk →
    Aligned c.window info.startHeight.toNat c.nextExamined (missedAt cfg pk history)
      (c.finality.getMissedBlockBitmapValue pk)

/-- The record has started, so that the provider is steady now. -/
theorem WindowInv.steady (inv : WindowInv cfg pk history c) {info : FinalityProviderSigningInfo}
    (hinfo : c.finality.finalityProviderSigningTracker.get pk = some info)
    (hstdy : Steady cfg pk info.startHeight ((c, l) :: history)) :
    (∃ start : Nat, info.startHeight = start ∧ 1 ≤ start) ∧ Enabled c.btcStaking pk ∧
      (l.isEndBlock = true → ∀ height ∈ c.examinedHeight cfg, info.startHeight ≤ height →
        pk ∈ (c.finality.votingPower.under height).keys) := by
  obtain ⟨start, hstart, hpos, hle⟩ := inv.record.started info hinfo
  exact ⟨⟨start, hstart, hpos⟩, hstdy (c, l) mem_cons_self (by rw [hstart]; exact_mod_cast hle)⟩

/-- The parameters that the record depends on are as before. -/
structure SameWindow (c c' : Chain I) : Prop where
  window : c'.finality.params.signedBlocksWindow = c.finality.params.signedBlocksWindow
  timeout : c'.finality.params.finalitySigTimeout = c.finality.params.finalitySigTimeout
  activation : c'.finality.params.finalityActivationHeight
    = c.finality.params.finalityActivationHeight

variable {c' : Chain I}

theorem SameWindow.of_params (h : c'.finality.params = c.finality.params) : SameWindow c c' := by
  constructor <;> rw [h]

/-- Finality stays active. -/
theorem SameWindow.isFinalityActive (h : SameWindow c c') (hht : c.header.height ≤ c'.header.height)
    (htables : ∀ height, (c.finality.votingPower.get height).isSome = true →
      (c'.finality.votingPower.get height).isSome = true)
    (hact : c.finality.isFinalityActive (c.env cfg) = true) :
    c'.finality.isFinalityActive (c'.env cfg) = true := by
  obtain ⟨hactn, height, table, hget⟩ := State.isFinalityActive_iff.mp hact
  obtain ⟨table', hget'⟩ := Option.isSome_iff_exists.mp (htables height (hget ▸ rfl))
  refine State.isFinalityActive_iff.mpr ⟨?_, height, table', hget'⟩
  rw [h.activation]
  exact hactn.trans hht

section Steps

variable (inv : WindowInv cfg pk history c) (hl : l.isEndBlock = false) (hsame : SameWindow c c')
  (htimeout : 0 < c.finality.params.finalitySigTimeout)
  (hact : c.finality.isFinalityActive (c.env cfg) = true →
    c'.finality.isFinalityActive (c'.env cfg) = true)

include inv hl hsame htimeout hact

/-- Steps other than the end of a block.  The record of the provider is kept or started again,
or the provider is jailed or slashed. -/
theorem WindowInv.of_step (hended : c'.lastEnded = c.lastEnded)
    (hrec : (c'.finality.record pk).Counted c.window c'.header.height)
    (hbits : ∀ i, c'.finality.getMissedBlockBitmapValue pk i = true →
      c.finality.getMissedBlockBitmapValue pk i = true)
    (hcases : c'.finality.record pk = c.finality.record pk ∨
      (∃ info, (c'.finality.record pk).info = some info ∧
        info.startHeight = c'.header.height) ∨ ¬Enabled c'.btcStaking pk) :
    WindowInv cfg pk ((c, l) :: history) c' := by
  have hwindow : c'.window = c.window := by rw [Chain.window, hsame.window, Chain.window]
  have hnext : c'.nextExamined = c.nextExamined := by
    rw [nextExamined, hended, hsame.timeout, nextExamined]
  refine ⟨by rw [hwindow]; exact hrec, fun i hbit => hact (inv.active i (hbits i hbit)), ?_, ?_⟩
  · intro height hmiss
    rw [missedAt_cons_of_not_endBlock hl] at hmiss
    rw [hnext]
    exact inv.missed_lt height hmiss
  · intro info hinfo hstdy hen
    rw [missedAt_cons_of_not_endBlock hl, hwindow, hnext]
    rcases hcases with hsame | ⟨info', hinfo', hstart⟩ | hdis
    · replace hinfo := (congrArg MissedRecord.info hsame).symm.trans hinfo
      have hbits' : c'.finality.getMissedBlockBitmapValue pk
          = c.finality.getMissedBlockBitmapValue pk := congrArg MissedRecord.bits hsame
      rw [hbits']
      exact inv.aligned info hinfo hstdy.tail (inv.steady hinfo hstdy).2.1
    · -- a record that was just started has seen nothing yet
      cases hinfo'.symm.trans hinfo
      refine of_le ?_
      have hlast : c.lastEnded ≤ c'.header.height := by
        rw [← hended, lastEnded]
        split <;> omega
      rw [hstart, nextExamined]
      omega
    · exact absurd hen hdis

/-- Steps that leave the record of the provider alone. -/
theorem WindowInv.of_record (hhd : c'.header = c.header) (hin : c'.inBlock = c.inBlock)
    (hrec : c'.finality.record pk = c.finality.record pk) :
    WindowInv cfg pk ((c, l) :: history) c' := by
  refine inv.of_step hl hsame htimeout hact ?_ ?_ ?_ (.inl hrec)
  · rw [lastEnded, hin, hhd, lastEnded]
  · rw [hrec, hhd]
    exact inv.record
  · exact fun i hbit => (congrFun (congrArg MissedRecord.bits hrec) i).symm.trans hbit

end Steps

theorem windowInv_genesis (h : Genesis cfg c) : WindowInv cfg pk [] c := by
  obtain ⟨params, -, hfin⟩ := h.finality
  have hrec : c.finality.finalityProviderSigningTracker.get pk = none := by
    rw [hfin]
    rfl
  have hbits : ∀ i, c.finality.getMissedBlockBitmapValue pk i = false := by
    intro i
    rw [hfin]
    exact Nat.zero_testBit _
  have hemp : c.finality.record pk = ⟨none, fun _ => false⟩ := by
    unfold State.record
    rw [hrec, funext hbits]
  refine ⟨?_, ?_, ?_, ?_⟩
  · rw [hemp]
    exact ⟨nofun, fun _ _ => rfl, nofun, nofun⟩
  · intro i hbit
    rw [hbits] at hbit
    cases hbit
  · intro height hmiss
    cases hmiss
  · intro info hinfo
    rw [hrec] at hinfo
    cases hinfo

/-- A message keeps the window if an accepted change of parameters does. -/
theorem sameWindow_of_handle {msg : Msg} {w : Stores I} (hal : KeepsWindow cfg c (.deliver msg))
    (h : c.Handles cfg msg w) : SameWindow c { c with toStores := w } := by
  rcases handle_frame h with ⟨_, _, _, _, _, _, hfin, rfl | ⟨req, rfl, hpar⟩⟩ | ⟨req, rfl, hrsm⟩
  · exact .of_params (by rw [hfin])
  · obtain ⟨hwindow, htimeout, hactn⟩ := hal w hpar
    exact ⟨hwindow, htimeout, hactn⟩
  · obtain ⟨⟨_, _, _, _, hfin⟩, -⟩ := handleResumeFinalityProposal_effect hrsm
    exact .of_params (by rw [hfin])

section

variable (inv : WindowInv cfg pk history c) (hpower : PowerInv c)
  (htimeout : 0 < c.finality.params.finalitySigTimeout)

include inv hpower htimeout

theorem WindowInv.message (hpos : 0 < (c.env cfg).header.height) {msg : Msg}
    {w : Stores I} (hal : KeepsWindow cfg c (.deliver msg)) (h : c.Handles cfg msg w) :
    WindowInv cfg pk ((c, .deliver msg) :: history) { c with toStores := w } := by
  have hsame := sameWindow_of_handle hal h
  have hact : c.finality.isFinalityActive (c.env cfg) = true →
      w.finality.isFinalityActive (c.env cfg) = true :=
    hsame.isFinalityActive le_rfl (handle_blocks h).2.2.2
  rcases handle_records h with ⟨htracker, hbitmap⟩ | ⟨req, rfl⟩
  · refine inv.of_record rfl hsame htimeout hact rfl rfl ?_
    unfold State.record State.getMissedBlockBitmapValue
    rw [htracker, hbitmap]
  · obtain ⟨v, hjails, hrst, hbs⟩ := handleResumeFinalityProposal_record
      hpower.keyed hpower.caches (resumeFinalityProposal_ok h) pk
    have hrec := (inv.record.jailsOrKeeps hjails).restarts hpos rfl hrst
    refine inv.of_step rfl hsame htimeout hact rfl hrec ?_ ?_
    · intro i hbit
      replace hbit : (v.finality.record pk).bits i = true := hrst.bitmap ▸ hbit
      rcases hjails with hkept | ⟨-, -, info, hclr, -⟩
      · exact hkept.bitmap ▸ hbit
      · rw [hclr] at hbit
        cases hbit
    · rcases hjails with hkept | ⟨-, hj, -⟩
      · rcases hrst with hrec | ⟨-, info, hrec, hstart, -⟩
        · exact .inl (hrec.trans hkept.record)
        · exact .inr (.inl ⟨info, congrArg MissedRecord.info hrec, hstart⟩)
      · exact .inr (.inr (hbs ▸ hj).not_enabled)

theorem WindowInv.beginBlock (hin : c.inBlock = false)
    {header : HeaderInfo} {w : Stores I} (hht : header.height = c.header.height + 1)
    (h : c.Begins cfg header w) : WindowInv cfg pk ((c, .beginBlock header) :: history)
      { c with toStores := w, header, inBlock := true } := by
  obtain ⟨⟨_, _, _, _, hfin⟩, hoth, -⟩ := updatePowerDist_power h
  have hsame : SameWindow c { c with toStores := w, header, inBlock := true } :=
    .of_params (by rw [hfin]; rfl)
  have hrst : Restarts (c.beginEnv cfg header) _ (c.finality.record pk) (w.finality.record pk) :=
    (updatePowerDist_restarts h pk).choose_spec.2
  have htables : ∀ height, (c.finality.votingPower.get height).isSome = true →
      (w.finality.votingPower.get height).isSome = true := by
    intro height hsome
    obtain ⟨table, hget⟩ := Option.isSome_iff_exists.mp hsome
    have hle := hpower.table_le height table hget
    have hne : height ≠ (c.beginEnv cfg header).header.height := by
      show height ≠ header.height
      omega
    rw [hoth height hne]
    exact hsome
  have hle : c.header.height ≤ header.height := by omega
  have hpos : 1 ≤ header.height := by omega
  refine inv.of_step rfl hsame htimeout (hsame.isFinalityActive hle htables) ?_
    ((inv.record.mono hle).restarts hpos rfl hrst)
    (fun i hbit => (congrFun hrst.bitmap i).symm.trans hbit) ?_
  · show header.height - 1 = c.lastEnded
    rw [lastEnded, hin]
    exact Nat.sub_eq_of_eq_add hht
  · rcases hrst with hrec | ⟨-, info, hrec, hstart, -⟩
    · exact .inl hrec
    · exact .inr (.inl ⟨info, congrArg MissedRecord.info hrec, hstart⟩)

end

/-! ## The end of a block -/

section Ending

variable {w : Stores I} (inv : WindowInv cfg pk history c) (hpower : PowerInv c)
  (htimeout : 0 < c.finality.params.finalitySigTimeout)
  (hwindow : 0 < c.finality.params.signedBlocksWindow) (hin : c.inBlock = true)
  (h : c.Ends cfg w)

include inv htimeout hin

/-- What is missed up to the end of this block: the examined height, and what was missed
before. -/
theorem WindowInv.missedAt_endBlock (hexm : c.examinedHeight cfg = some height) :
    missedAt cfg pk ((c, .endBlock) :: history) height
        = decide (pk ∉ c.finality.getVoters height) ∧
      ∀ k, k < c.nextExamined →
        missedAt cfg pk ((c, .endBlock) :: history) k = missedAt cfg pk history k := by
  obtain ⟨-, hnext, -⟩ := examinedHeight_eq_some hin htimeout hexm
  refine ⟨?_, ?_⟩
  · have hnot : missedAt cfg pk history height = false := by
      refine Bool.eq_false_iff.mpr fun hmiss => ?_
      have hlt := inv.missed_lt height hmiss
      omega
    rw [missedAt_cons, hnot, hexm]
    simp [Label.isEndBlock]
  · intro k hk
    have hne : height ≠ k := by omega
    rw [missedAt_cons, hexm]
    simp [Label.isEndBlock, hne]

theorem WindowInv.missed_lt_endBlock
    (hmiss : missedAt cfg pk ((c, .endBlock) :: history) height = true) :
    height < c.header.height + 1 - c.finality.params.finalitySigTimeout.toNat := by
  rw [missedAt_cons, Bool.or_eq_true] at hmiss
  rcases hmiss with hnow | hbef
  · rw [Bool.and_eq_true, decide_eq_true_eq] at hnow
    obtain ⟨-, -, hsum⟩ := examinedHeight_eq_some hin htimeout hnow.2.1
    omega
  · have hlt := inv.missed_lt height hbef
    rw [nextExamined, lastEnded, if_pos hin] at hlt
    omega

section

variable {info : FinalityProviderSigningInfo}
  (hinfo : c.finality.finalityProviderSigningTracker.get pk = some info)
  (hstdy : Steady cfg pk info.startHeight ((c, .endBlock) :: history))

include hinfo hstdy

/-- The window after the end of a block at which the provider was not examined. -/
theorem WindowInv.aligned_of_not_examined
    (hnot : ∀ height, c.examinedHeight cfg = some height →
      pk ∉ (c.finality.votingPower.under height).keys) :
    Aligned c.window info.startHeight.toNat
      (c.header.height + 1 - c.finality.params.finalitySigTimeout.toNat)
      (missedAt cfg pk ((c, .endBlock) :: history))
      (c.finality.getMissedBlockBitmapValue pk) := by
  obtain ⟨⟨start, hstart, hpos⟩, hen, hpresent⟩ := inv.steady hinfo hstdy
  have hold := inv.aligned info hinfo hstdy.tail hen
  cases hexm : c.examinedHeight cfg with
  | some height =>
    -- its record starts after the examined height
    obtain ⟨-, -, hsum⟩ := examinedHeight_eq_some hin htimeout hexm
    have hbef : ¬info.startHeight ≤ height := fun hge =>
      hnot height hexm (hpresent rfl height hexm hge)
    refine of_le ?_
    omega
  | none =>
    have hmiss : missedAt cfg pk ((c, .endBlock) :: history) = missedAt cfg pk history := by
      funext k
      rw [missedAt_cons, hexm]
      simp
    rw [hmiss]
    unfold Chain.examinedHeight State.examinedHeight at hexm
    split at hexm
    case isTrue => cases hexm
    case isFalse hneither =>
      by_cases hact : c.finality.isFinalityActive (c.env cfg) = true
      · have hearly : ¬1 ≤ (c.header.height : Int) - c.finality.params.finalitySigTimeout :=
          fun hge => hneither ⟨hact, hge⟩
        refine of_le ?_
        omega
      · -- nothing has been examined yet
        have hbits : ∀ i, c.finality.getMissedBlockBitmapValue pk i = false := fun i =>
          Bool.eq_false_iff.mpr fun hbit => hact (inv.active i hbit)
        by_cases hlate : c.finality.params.finalitySigTimeout.toNat ≤ c.header.height
        · have hnext : c.header.height + 1 - c.finality.params.finalitySigTimeout.toNat
              = c.nextExamined + 1 := by
            rw [nextExamined, lastEnded, if_pos hin]
            omega
          rw [hnext]
          refine hold.skip hbits (Bool.eq_false_iff.mpr fun hmiss => ?_)
          exact absurd (inv.missed_lt _ hmiss) (lt_irrefl _)
        · refine of_le ?_
          omega

/-- The window after the end of a block at which the provider was examined. -/
theorem WindowInv.aligned_of_examined
    (hexm : c.examinedHeight cfg = some height) :
    Aligned c.window info.startHeight.toNat (height + 1)
      (missedAt cfg pk ((c, .endBlock) :: history))
      (info.observe (c.finality.getMissedBlockBitmapValue pk) c.window height
        (decide (pk ∉ c.finality.getVoters height))).2 := by
  obtain ⟨⟨start, hstart, -⟩, hen, -⟩ := inv.steady hinfo hstdy
  obtain ⟨-, hnext, -⟩ := examinedHeight_eq_some hin htimeout hexm
  obtain ⟨hmiss, hoth⟩ := inv.missedAt_endBlock htimeout hin hexm
  unfold observe
  split
  case isTrue hbef =>
    refine of_le ?_
    omega
  case isFalse hfrom =>
    have hold := (inv.aligned info hinfo hstdy.tail hen).congr hoth
    rw [← hnext] at hold
    have hidx : (((height : Int) - info.startHeight) % c.window).toNat
        = (height - info.startHeight.toNat) % c.window := by
      have hsub : (height : Int) - info.startHeight = ((height - start : Nat) : Int) := by
        rw [hstart]
        omega
      rw [hsub, hstart, Int.toNat_natCast, ← Int.natCast_emod, Int.toNat_natCast]
    rw [hidx, ← hmiss]
    exact hold.store (by omega)

end

include hpower hwindow h

theorem WindowInv.endBlock : WindowInv cfg pk ((c, .endBlock) :: history)
    { c with toStores := w, inBlock := false } := by
  have hpar := (endBlocker_keeps h).1
  have hsame : SameWindow c { c with toStores := w, inBlock := false } := .of_params hpar
  have hact : c.finality.isFinalityActive (c.env cfg) = true →
      w.finality.isFinalityActive (c.env cfg) = true := by
    refine hsame.isFinalityActive le_rfl fun height hsome => ?_
    rw [(endBlocker_tables h).1, hsome]
  have hsize : (c.window : Int) = c.finality.params.signedBlocksWindow :=
    Int.toNat_of_nonneg hwindow.le
  have hwindow' : Chain.window { c with toStores := w, inBlock := false } = c.window := by
    rw [Chain.window, hsame.window, Chain.window]
  have hnext : nextExamined { c with toStores := w, inBlock := false }
      = c.header.height + 1 - c.finality.params.finalitySigTimeout.toNat := by
    rw [nextExamined, hsame.timeout]
    rfl
  -- the part that does not depend on what happened to the provider
  have hfinish : ∀ (_ : (w.finality.record pk).Counted c.window c.header.height)
      (_ : ∀ i, w.finality.getMissedBlockBitmapValue pk i = true →
        c.finality.isFinalityActive (c.env cfg) = true)
      (_ : ∀ info, w.finality.finalityProviderSigningTracker.get pk = some info →
        Steady cfg pk info.startHeight ((c, .endBlock) :: history) →
        Enabled w.btcStaking pk →
        Aligned c.window info.startHeight.toNat
          (c.header.height + 1 - c.finality.params.finalitySigTimeout.toNat)
          (missedAt cfg pk ((c, .endBlock) :: history))
          (w.finality.getMissedBlockBitmapValue pk)),
      WindowInv cfg pk ((c, .endBlock) :: history) { c with toStores := w, inBlock := false } := by
    intro hrec hbits halg
    refine ⟨?_, fun i hbit => hact (hbits i hbit), ?_, ?_⟩
    · rw [hwindow']
      exact hrec
    · intro height hmiss
      rw [hnext]
      exact inv.missed_lt_endBlock htimeout hin hmiss
    · intro info hinfo hstdy hen
      rw [hwindow', hnext]
      exact halg info hinfo hstdy hen
  rcases endBlocker_record hpower.keyed h pk with ⟨hnot, hkept⟩ | ⟨height, hexm, hmem, hcall⟩
  · refine hfinish (hkept.record ▸ inv.record) ?_ ?_
    · intro i hbit
      rw [hkept.bitmap] at hbit
      exact inv.active i hbit
    · intro info hinfo hstdy _
      rw [hkept.bitmap]
      exact inv.aligned_of_not_examined htimeout hin (hkept.tracker ▸ hinfo) hstdy hnot
  · by_cases hen : Enabled c.btcStaking pk
    · obtain ⟨hactiveNow, -, hsum⟩ := examinedHeight_eq_some hin htimeout hexm
      obtain ⟨info, hinfo, ⟨-, hj, hclr⟩ | ⟨-, -, hobs⟩⟩ := hcall.enabled hen
      · refine hfinish ?_ (fun _ _ => hactiveNow) ?_
        · rw [hclr]
          refine .cleared rfl ?_
          rw [observe_startHeight]
          exact inv.record.started info hinfo
        · intro _ _ _ hstill
          exact absurd hstill hj.not_enabled
      · rw [← hsize] at hobs
        have hbits := congrArg MissedRecord.bits hobs
        refine hfinish ?_ (fun _ _ => hactiveNow) ?_
        · rw [hobs]
          exact inv.record.observe (by omega) hinfo
        intro info' hinfo' hstdy _
        cases (congrArg MissedRecord.info hobs).symm.trans hinfo'
        rw [observe_startHeight] at hstdy ⊢
        have hlast : c.header.height + 1 - c.finality.params.finalitySigTimeout.toNat
            = height + 1 := by omega
        rw [hlast]
        refine Eq.subst (motive := Aligned _ _ _ _) hbits.symm ?_
        exact inv.aligned_of_examined htimeout hin hinfo hstdy hexm
    · have hkept := hcall.disabled hen
      refine hfinish (hkept.record ▸ inv.record) ?_ ?_
      · intro i hbit
        rw [hkept.bitmap] at hbit
        exact inv.active i hbit
      · intro info hinfo hstdy _
        rw [hkept.tracker] at hinfo
        exact absurd (inv.steady hinfo hstdy).2.1 hen

end Ending

/-! ## Over whole runs -/

/-- The record of every provider in every run that keeps the window. -/
theorem WindowInv.of_run (run : Run (chain cfg) history c)
    (hsteps : Steps (KeepsWindow cfg) history) : WindowInv cfg pk history c := by
  refine run.historyInvariant (WindowInv cfg pk) (fun _ h => windowInv_genesis h) ?_ hsteps
  intro history c l c' run inv hal hstep
  have hpower := PowerInv.of_run run
  obtain ⟨_, hval⟩ := validParams_of_run run
  obtain ⟨htimeout, hwindow⟩ := pos_of_validate hval
  cases stepped hstep with
  | beginBlock hin hht hw => exact inv.beginBlock hpower htimeout hin hht hw
  | message hin hw => exact inv.message hpower htimeout (height_pos_of_run run hin) hal hw
  | rejected | headers | others | external =>
    exact inv.of_record rfl (.of_params rfl) htimeout id rfl rfl rfl
  | endBlock hin hw => exact inv.endBlock hpower htimeout hwindow hin hw

/-- If governance changes neither the window nor which heights are examined, the end of a block
jails a provider that has been enabled, and in all examined tables, since its record started if
and only if it missed more than the allowed number of the last blocks. -/
theorem jailed_iff_missed_window (run : Run (chain cfg) history c)
    (hsteps : Steps (KeepsWindow cfg) history)
    (hstep : (chain cfg).step c .endBlock = some c')
    {info : FinalityProviderSigningInfo} {height : Nat}
    (hinfo : c.finality.finalityProviderSigningTracker.get pk = some info)
    (hexamined : c.examinedHeight cfg = some height)
    (hfull : info.startHeight + c.finality.params.signedBlocksWindow < height)
    (hsteady : Steady cfg pk info.startHeight ((c, .endBlock) :: history)) :
    Jailed c'.btcStaking pk ↔
      c.finality.params.signedBlocksWindow - c.finality.params.minSignedPerWindowInt
        < ((Finset.Ico (height + 1 - c.window) (height + 1)).filter fun k =>
            missedAt cfg pk ((c, .endBlock) :: history) k = true).card := by
  have inv : WindowInv cfg pk history c := .of_run run hsteps
  have hpower := PowerInv.of_run run
  obtain ⟨_, hvalid⟩ := validParams_of_run run
  obtain ⟨htimeout, hwindow⟩ := pos_of_validate hvalid
  have hsize : (c.window : Int) = c.finality.params.signedBlocksWindow :=
    Int.toNat_of_nonneg hwindow.le
  obtain ⟨w, hin, hw, rfl⟩ := step_endBlock hstep
  obtain ⟨⟨start, hstart, -⟩, henabled, hpresent⟩ := inv.steady hinfo hsteady
  -- the marks after observing the height are the blocks missed in the window
  have haligned := inv.aligned_of_examined htimeout hin hinfo hsteady hexamined
  have hmarks := haligned.marks_eq (by omega)
  have hmem := hpresent rfl height hexamined (by omega)
  rcases endBlocker_record hpower.keyed hw pk with ⟨hnot, -⟩ | ⟨height', hexamined', -, hcall⟩
  · exact absurd hmem (hnot height hexamined)
  · obtain rfl : height' = height := Option.some.inj (hexamined'.symm.trans hexamined)
    obtain ⟨info', hinfo', hcases⟩ := hcall.enabled henabled
    rw [hinfo] at hinfo'
    cases hinfo'
    rw [← hsize] at hcases
    have hexceeds : (info.observe (c.finality.getMissedBlockBitmapValue pk) c.window height'
        (decide (pk ∉ c.finality.getVoters height'))).1.exceeds c.finality.params height' ↔
        c.finality.params.signedBlocksWindow - c.finality.params.minSignedPerWindowInt
          < ((Finset.Ico (height' + 1 - c.window) (height' + 1)).filter fun k =>
            missedAt cfg pk ((c, .endBlock) :: history) k = true).card := by
      have hcounted : info.missedBlocksCounter
          = marks c.window (c.finality.getMissedBlockBitmapValue pk) :=
        inv.record.counted info hinfo
      unfold exceeds
      rw [observe_startHeight, observe_counted (by omega) hcounted, hmarks]
      exact and_iff_right hfull
    rw [← hexceeds]
    rcases hcases with ⟨hyes, hjailed, -⟩ | ⟨hno, hfp, -⟩
    · exact iff_of_true hjailed hyes
    · refine iff_of_false (fun hjailed => hjailed.not_enabled ?_) hno
      unfold Enabled
      exact hfp ▸ henabled

/-! ## Two runs -/

instance (cfg : Config I) (pk : BIP340PubKey) (start : Int)
    (history : History I) : Decidable (Steady cfg pk start history) :=
  inferInstanceAs (Decidable (∀ past ∈ history, _))

theorem keepsWindow_of_noGovernance (h : l.noGovernance = true) : KeepsWindow cfg c l := by
  cases l with
  | deliver msg => cases msg <;> trivial
  | _ => trivial

/-- Finality parameters with a short window; half of its blocks have to be signed. -/
def windowParams (window : Int) : Finality.Params :=
  { finalityParams 10 1 1 with signedBlocksWindow := window }

/-- Half of a window of two blocks has to be signed.  The provider with key 0 misses all blocks
and is jailed for height 5. -/
theorem jailed_for_missing_all_blocks :
    ∃ (history : History Unit) (c c' : Chain Unit),
      (chain config).step c .endBlock = some c' ∧ c.examinedHeight config = some 5 ∧
      (Jailed c'.btcStaking 0 ↔
        c.finality.params.signedBlocksWindow - c.finality.params.minSignedPerWindowInt
          < ((Finset.Ico (5 + 1 - c.window) (5 + 1)).filter fun k =>
              missedAt config 0 ((c, .endBlock) :: history) k = true).card) ∧
      Jailed c'.btcStaking 0 := by
  obtain ⟨history, c, hrun, hlabels, hexamined, c', hstep, hjailed, info, hinfo, hfull, hsteady⟩ :=
    Run.recording (chain config)
      (P := fun history c => history.all (fun past => past.2.noGovernance) = true ∧
        c.examinedHeight config = some 5 ∧
        ∃ c', (chain config).step c .endBlock = some c' ∧ Jailed c'.btcStaking 0 ∧
        ∃ info, c.finality.finalityProviderSigningTracker.get 0 = some info ∧
          info.startHeight + c.finality.params.signedBlocksWindow < (5 : Nat) ∧
          Steady config 0 info.startHeight ((c, .endBlock) :: history))
      (genesis_genesis delegationLightClient
        (by decide +kernel : succeeds (windowParams 2).validate = true))
      (delegationBlock ++ block 2 [] ++ block 3 [] ++ block 4 [] ++
        block 5 [] ++ [.beginBlock (Devnet.header 6)]) (by decide +kernel)
  have hsteps : Steps (KeepsWindow config) history := fun past hpast =>
    keepsWindow_of_noGovernance (all_eq_true.mp hlabels past hpast)
  exact ⟨history, c, c', hstep, hexamined,
    jailed_iff_missed_window hrun hsteps hstep hinfo hexamined hfull hsteady, hjailed⟩

/-- The provider with key 0 votes for heights 2, 3, 6 and 7 and misses 4 and 5 of a window of
four blocks, half of which have to be signed.  In block 8 governance shortens the window to two
blocks.  The marks of heights 4 and 5 are still counted, and the provider is jailed for height 7
although it missed none of the last two blocks. -/
theorem jailed_after_shorter_window :
    ∃ history c c' info, Run (chain config) history c ∧
      (chain config).step c .endBlock = some c' ∧
      c.finality.finalityProviderSigningTracker.get 0 = some info ∧
      c.examinedHeight config = some 7 ∧
      info.startHeight + c.finality.params.signedBlocksWindow < (7 : Nat) ∧
      Steady config 0 info.startHeight ((c, .endBlock) :: history) ∧
      Jailed c'.btcStaking 0 ∧
      ((Finset.Ico (7 + 1 - c.window) (7 + 1)).filter fun k =>
        missedAt config 0 ((c, .endBlock) :: history) k = true).card = 0 ∧
      0 ≤ c.finality.params.signedBlocksWindow - c.finality.params.minSignedPerWindowInt := by
  simp only [exists_and_left]
  exact Run.recording (chain config)
    (genesis_genesis delegationLightClient
      (by decide +kernel : succeeds (windowParams 4).validate = true))
    (votedBlocks ++ block 4 [vote 3 (replicate 32 0)] ++ block 5 [] ++ block 6 [] ++
      block 7 [vote 6 (replicate 32 0)] ++
      [.beginBlock (Devnet.header 8), vote 7 (replicate 32 0),
        .deliver (.updateFinalityParams ⟨0, windowParams 2⟩)]) (by decide +kernel)

end Babylon
