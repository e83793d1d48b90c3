/-
  The record of missed blocks of one provider: its signing info and its bitmap.

  `HandleLiveness` examines every provider of the voting power table of a height
  once.  What this does to the record of one provider is a function of that
  record; the other providers do not matter.
-/
import Babylon.Finality.Resume
import Babylon.Finality.Rewarding
import Babylon.Lib.SlidingWindow

set_option autoImplicit false

namespace Babylon.Finality

open Lib KVStore State

/-! ## The bitmap -/

namespace State

variable (s : State) (pk other : BIP340PubKey) (index : Nat)

theorem getMissedBlockBitmapValue_set (missed : Bool) (i : Nat) :
    (s.setMissedBlockBitmapValue pk index missed).getMissedBlockBitmapValue other i
      = if other = pk ∧ i = index then missed else s.getMissedBlockBitmapValue other i := by
  simp only [getMissedBlockBitmapValue, setMissedBlockBitmapValue, get_under_setUnder]
  by_cases hchunk : other = pk ∧ i / missedBlockBitmapChunkSize = index / missedBlockBitmapChunkSize
  · -- one chunk is rewritten, and of its digits one
    have hidx : i = index ↔ index % missedBlockBitmapChunkSize =
      i % missedBlockBitmapChunkSize := by
      have hi := Nat.div_add_mod i missedBlockBitmapChunkSize
      have hidx := Nat.div_add_mod index missedBlockBitmapChunkSize
      rw [hchunk.2] at hi
      omega
    rw [if_pos hchunk, Option.getD_some, hchunk.1, hchunk.2]
    by_cases heq : i = index
    · cases missed <;> simp [Nat.testBit_or, Nat.testBit_xor, heq]
    · have hdigit := mt hidx.mpr heq
      cases missed <;> simp [Nat.testBit_or, Nat.testBit_xor, heq, hdigit]
  · rw [if_neg hchunk, if_neg]
    rintro ⟨rfl, rfl⟩
    exact hchunk ⟨rfl, rfl⟩

/-- Writing a bit of the bitmap of a provider. -/
theorem bitmap_set_self (missed : Bool) :
    (s.setMissedBlockBitmapValue pk index missed).getMissedBlockBitmapValue pk
      = Function.update (s.getMissedBlockBitmapValue pk) index missed := by
  funext i
  rw [getMissedBlockBitmapValue_set, Function.update_apply]
  simp

theorem bitmap_set_of_ne {pk other : BIP340PubKey} (hne : other ≠ pk) (missed : Bool) :
    (s.setMissedBlockBitmapValue pk index missed).getMissedBlockBitmapValue other
      = s.getMissedBlockBitmapValue other := by
  funext i
  rw [getMissedBlockBitmapValue_set, if_neg fun h => hne h.1]

theorem bitmap_delete_self :
    (s.deleteMissedBlockBitmap pk).getMissedBlockBitmapValue pk = fun _ => false := by
  funext i
  simp [getMissedBlockBitmapValue, deleteMissedBlockBitmap, under, get_delete]

theorem bitmap_delete_of_ne {pk other : BIP340PubKey} (hne : other ≠ pk) :
    (s.deleteMissedBlockBitmap pk).getMissedBlockBitmapValue other
      = s.getMissedBlockBitmapValue other := by
  funext i
  simp [getMissedBlockBitmapValue, deleteMissedBlockBitmap, under, get_delete, hne]

end State

/-! ## Observing one height -/

/-- The signing info and the bitmap after a height has been observed. -/
def FinalityProviderSigningInfo.observe (info : FinalityProviderSigningInfo) (bits : Nat → Bool)
    (window height : Int) (missed : Bool) : FinalityProviderSigningInfo × (Nat → Bool) :=
  if height < info.startHeight then (info, bits)
  else
    let index := ((height - info.startHeight) % window).toNat
    ({ info with missedBlocksCounter :=
        info.missedBlocksCounter + missed.toNat - (bits index).toNat },
      Function.update bits index missed)

variable {info : FinalityProviderSigningInfo} {bits : Nat → Bool} {missed : Bool}

variable {height : Int}

/-- Observing what the bitmap already holds changes nothing. -/
theorem FinalityProviderSigningInfo.observe_eq_self {window : Int}
    (hbit : bits ((height - info.startHeight) % window).toNat = missed) :
    info.observe bits window height missed = (info, bits) := by
  unfold observe
  split
  · rfl
  · subst hbit
    simp [Function.update_eq_self]

theorem FinalityProviderSigningInfo.observe_startHeight {window : Int} :
    (info.observe bits window height missed).1.startHeight = info.startHeight := by
  unfold observe
  split <;> rfl

/-- Observing a height keeps the counter and the marks together. -/
theorem FinalityProviderSigningInfo.observe_counted {window : Nat}
    (hwin : 0 < window) (h : info.missedBlocksCounter = marks window bits) :
    (info.observe bits window height missed).1.missedBlocksCounter
      = marks window (info.observe bits window height missed).2 := by
  unfold observe
  split
  · exact h
  · have hlt := Int.emod_lt_of_pos (height - info.startHeight) (Int.natCast_pos.mpr hwin)
    rw [marks_update _ (by omega), h]

/-! ## Records -/

/-- What is kept about the blocks that a provider missed: its signing info and its bitmap. -/
structure MissedRecord where
  info : Option FinalityProviderSigningInfo
  bits : Nat → Bool

/-- The record of a provider. -/
def State.record (s : State) (pk : BIP340PubKey) : MissedRecord where
  info := s.finalityProviderSigningTracker.get pk
  bits := s.getMissedBlockBitmapValue pk

theorem State.record_setSigningInfo_self (s : State) (pk : BIP340PubKey)
    (info : FinalityProviderSigningInfo) :
    (s.setSigningInfo pk info).record pk = ⟨some info, s.getMissedBlockBitmapValue pk⟩ :=
  congrArg (MissedRecord.mk · _) (get_set_self _ _ _)

theorem State.record_setSigningInfo_of_ne (s : State) {pk other : BIP340PubKey} (hne : other ≠ pk)
    (info : FinalityProviderSigningInfo) :
    (s.setSigningInfo pk info).record other = s.record other :=
  congrArg (MissedRecord.mk · _) (get_set_of_ne _ _ hne)

/-- The provider is neither slashed nor jailed. -/
def Enabled (bs : BTCStaking.State) (pk : BIP340PubKey) : Prop :=
  ∃ fp, bs.finalityProviders.get pk = some fp ∧ (fp.isSlashed || fp.isJailed) = false

instance (bs : BTCStaking.State) (pk : BIP340PubKey) : Decidable (Enabled bs pk) :=
  decidable_of_iff
    ((bs.finalityProviders.get pk).any (fun fp => !(fp.isSlashed || fp.isJailed)) = true) <| by
    rw [Option.any_eq_true, Enabled]
    simp

/-- The provider is jailed. -/
def Jailed (bs : BTCStaking.State) (pk : BIP340PubKey) : Prop :=
  ∃ fp, bs.finalityProviders.get pk = some fp ∧ fp.jailed = true

instance (bs : BTCStaking.State) (pk : BIP340PubKey) : Decidable (Jailed bs pk) :=
  decidable_of_iff ((bs.finalityProviders.get pk).any (·.jailed) = true) (Option.any_eq_true _ _)

theorem Jailed.not_enabled {pk : BIP340PubKey} {bs : BTCStaking.State} (h : Jailed bs pk) :
    ¬Enabled bs pk := by
  obtain ⟨fp, hfp, hj⟩ := h
  rintro ⟨fp', hfp', hen⟩
  rw [hfp] at hfp'
  cases hfp'
  rw [BTCStaking.FinalityProvider.isJailed, hj, Bool.or_true] at hen
  cases hen

/-- The record and the flags of a provider are as before. -/
structure SameRecord {I : Type} (pk : BIP340PubKey) (w w' : Stores I) : Prop where
  provider : w'.btcStaking.finalityProviders.get pk = w.btcStaking.finalityProviders.get pk
  record : w'.finality.record pk = w.finality.record pk
  params : w'.finality.params = w.finality.params

variable {updated : Bool} {key : BIP340PubKey}

section Records

variable {I : Type} {ext : External I} {env : Env} {w w' : Stores I} {pk : BIP340PubKey}

theorem SameRecord.refl (pk : BIP340PubKey) (w : Stores I) : SameRecord pk w w :=
  ⟨rfl, rfl, rfl⟩

theorem SameRecord.trans {w'' : Stores I} (h : SameRecord pk w w') (h' : SameRecord pk w' w'') :
    SameRecord pk w w'' :=
  ⟨h'.provider.trans h.provider, h'.record.trans h.record, h'.params.trans h.params⟩

theorem SameRecord.tracker (h : SameRecord pk w w') :
    w'.finality.finalityProviderSigningTracker.get pk
      = w.finality.finalityProviderSigningTracker.get pk := congrArg MissedRecord.info h.record

theorem SameRecord.bitmap (h : SameRecord pk w w') :
    w'.finality.getMissedBlockBitmapValue pk = w.finality.getMissedBlockBitmapValue pk :=
  congrArg MissedRecord.bits h.record

section Jailing

variable {fp : BTCStaking.FinalityProvider} (hkeyed : w.btcStaking.ProvidersKeyed)
  (hfp : w.btcStaking.finalityProviders.get key = some fp)

include hkeyed hfp

/-- A provider that is jailed has a cleared record. -/
theorem jailNamed_self (env : Env) (info : FinalityProviderSigningInfo) :
    Jailed (jailNamed env w key fp info).btcStaking key ∧
      (jailNamed env w key fp info).finality.record key = ⟨some { info with
        jailedUntil := env.header.time + w.finality.params.jailDuration
        missedBlocksCounter := 0 }, fun _ => false⟩ := by
  refine ⟨⟨{ fp with jailed := true }, ?_, rfl⟩, ?_⟩
  · show (w.btcStaking.finalityProviders.set fp.btcPk _).get key = _
    rw [hkeyed key fp hfp, get_set_self]
  · refine (record_setSigningInfo_self _ _ _).trans ?_
    rw [w.finality.bitmap_delete_self]

theorem jailNamed_of_ne (hne : pk ≠ key) (env : Env) (info : FinalityProviderSigningInfo) :
    SameRecord pk w (jailNamed env w key fp info) := by
  refine ⟨?_, ?_, rfl⟩
  · show (w.btcStaking.finalityProviders.set fp.btcPk _).get pk = _
    rw [hkeyed key fp hfp, get_set_of_ne _ _ hne]
  · refine (record_setSigningInfo_of_ne _ hne _).trans ?_
    exact congrArg (MissedRecord.mk _) (w.finality.bitmap_delete_of_ne hne)

end Jailing

/-- `UpdateSigningInfo` observes a height. -/
theorem State.updateSigningInfo_observe {s t : State} {info' : FinalityProviderSigningInfo}
    (h : s.updateSigningInfo pk missed height = .ok (t, updated, info')) :
    ∃ info, s.finalityProviderSigningTracker.get pk = some info ∧
      (info', t.getMissedBlockBitmapValue pk)
        = info.observe (s.getMissedBlockBitmapValue pk) s.params.signedBlocksWindow height missed ∧
      (updated = false → info' = info) := by
  simp only [updateSigningInfo, ok_iff] at h
  obtain ⟨info, hinfo, h⟩ := h
  refine ⟨info, hinfo, ?_⟩
  split at h
  case isTrue hbef =>
    cases h
    rw [FinalityProviderSigningInfo.observe, if_pos hbef]
    exact ⟨rfl, fun _ => rfl⟩
  case isFalse hfrom =>
    cases missed <;> cases hbit : s.getMissedBlockBitmapValue pk
      ((height - info.startHeight) % s.params.signedBlocksWindow).toNat <;>
      rw [hbit] at h <;> cases h
    case false.false | true.true =>
      exact ⟨(FinalityProviderSigningInfo.observe_eq_self hbit).symm, fun _ => rfl⟩
    case false.true | true.false =>
      rw [bitmap_set_self, FinalityProviderSigningInfo.observe, if_neg hfrom]
      exact ⟨by simp [hbit], Bool.noConfusion⟩

theorem State.updateSigningInfo_other {s t : State} (hne : pk ≠ key)
    (h : s.updateSigningInfo key missed height = .ok (t, updated, info)) :
    t.record pk = s.record pk := by
  simp only [updateSigningInfo, bind_ok_iff] at h
  obtain ⟨signInfo, -, h⟩ := h
  split at h
  · cases h
    rfl
  · split at h <;> cases h
    · exact congrArg (MissedRecord.mk _) (s.bitmap_set_of_ne _ hne _)
    · exact congrArg (MissedRecord.mk _) (s.bitmap_set_of_ne _ hne _)
    · rfl

/-- `HandleFinalityProviderLiveness` touches one record. -/
theorem handleFinalityProviderLiveness_other (hkeyed : w.btcStaking.ProvidersKeyed)
    (hne : pk ≠ key) (h : handleFinalityProviderLiveness env w key missed height = .ok w') :
    SameRecord pk w w' := by
  obtain ⟨fp, hfp, ⟨-, rfl⟩ | ⟨-, finality, updated, info, hinfo, hcases⟩⟩ :=
    handleFinalityProviderLiveness_cases h
  · exact .refl pk _
  · have hupd : SameRecord pk w { w with finality } := by
      refine ⟨rfl, updateSigningInfo_other hne hinfo, ?_⟩
      obtain ⟨bitmap, rfl⟩ := updateSigningInfo_ok hinfo
      rfl
    rcases hcases with ⟨-, rfl⟩ | ⟨-, rfl⟩
    · exact hupd.trans (jailNamed_of_ne (w := { w with finality }) hkeyed hfp hne env info)
    · cases updated with
      | false => exact hupd
      | true =>
        exact hupd.trans ⟨rfl, record_setSigningInfo_of_ne _ hne _, rfl⟩

/-! ## The examination at the end of a block -/

/-- What an examination does to a provider that is neither slashed nor jailed: it is jailed and
its record cleared, or it stays as it is and its record has observed the height. -/
def Observes (env : Env) (pk : BIP340PubKey) (missed : Bool) (height : Int) (w w' : Stores I) :
    Prop :=
  ∃ info, w.finality.finalityProviderSigningTracker.get pk = some info ∧
    let observed := info.observe (w.finality.getMissedBlockBitmapValue pk)
      w.finality.params.signedBlocksWindow height missed
    (observed.1.exceeds w.finality.params height ∧ Jailed w'.btcStaking pk ∧
        w'.finality.record pk = ⟨some { observed.1 with
          jailedUntil := env.header.time + w.finality.params.jailDuration
          missedBlocksCounter := 0 }, fun _ => false⟩) ∨
      (¬observed.1.exceeds w.finality.params height ∧
        w'.btcStaking.finalityProviders.get pk = w.btcStaking.finalityProviders.get pk ∧
        w'.finality.record pk = ⟨some observed.1, observed.2⟩)

/-- `HandleFinalityProviderLiveness` for a provider that is neither slashed nor jailed. -/
theorem handleFinalityProviderLiveness_enabled (hkeyed : w.btcStaking.ProvidersKeyed)
    (hen : Enabled w.btcStaking pk)
    (h : handleFinalityProviderLiveness env w pk missed height = .ok w') :
    Observes env pk missed height w w' := by
  obtain ⟨fp, hfp, ⟨hdis, -⟩ | ⟨-, finality, updated, info', hup, hcases⟩⟩ :=
    handleFinalityProviderLiveness_cases h
  · obtain ⟨fp', hfp', hnot⟩ := hen
    rw [hfp] at hfp'
    cases hfp'
    rw [hdis] at hnot
    cases hnot
  · obtain ⟨info, hinfo, hobserve, hsame⟩ := updateSigningInfo_observe hup
    obtain ⟨bitmap, hfty⟩ := updateSigningInfo_ok hup
    refine ⟨info, hinfo, ?_⟩
    rw [← hobserve]
    rcases hcases with ⟨hexc, rfl⟩ | ⟨hexc, rfl⟩
    · obtain ⟨hj, hrec⟩ := jailNamed_self (w := { w with finality }) hkeyed hfp env info'
      rw [hfty] at hrec ⊢
      exact .inl ⟨hexc, hj, hrec⟩
    · refine .inr ⟨hexc, rfl, ?_⟩
      cases updated with
      | true => exact finality.record_setSigningInfo_self pk info'
      | false =>
        rw [hsame rfl, ← hinfo, hfty]
        rfl

/-- The provider is examined in the course of a call: others may come before and after it. -/
def Examined (env : Env) (pk : BIP340PubKey) (missed : Bool) (height : Nat) (w w' : Stores I) :
    Prop :=
  ∃ v v', v.btcStaking.ProvidersKeyed ∧ SameRecord pk w v ∧
    handleFinalityProviderLiveness env v pk missed height = .ok v' ∧ SameRecord pk v' w'

theorem Examined.disabled {height : Nat} (h : Examined env pk missed height w w')
    (hdis : ¬Enabled w.btcStaking pk) : SameRecord pk w w' := by
  obtain ⟨v, v', -, hbef, hcall, haft⟩ := h
  obtain ⟨fp, hfp, ⟨-, rfl⟩ | ⟨hen, -⟩⟩ := handleFinalityProviderLiveness_cases hcall
  · exact hbef.trans haft
  · rw [hbef.provider] at hfp
    exact absurd ⟨fp, hfp, hen⟩ hdis

theorem Examined.enabled {height : Nat} (h : Examined env pk missed height w w')
    (hen : Enabled w.btcStaking pk) : Observes env pk missed height w w' := by
  obtain ⟨v, v', hkeyed, hbef, hcall, haft⟩ := h
  have hv : Enabled v.btcStaking pk := by
    rw [Enabled, hbef.provider]
    exact hen
  obtain ⟨info, hinfo, hcases⟩ := handleFinalityProviderLiveness_enabled hkeyed hv hcall
  rw [hbef.tracker] at hinfo
  rw [hbef.bitmap, hbef.params] at hcases
  refine ⟨info, hinfo, ?_⟩
  rw [Jailed, haft.provider, haft.record, ← hbef.provider]
  exact hcases

/-- The loop over a table without duplicates examines each provider of it once. -/
theorem foldOutcome_liveness (pk : BIP340PubKey) (missed : BIP340PubKey → Bool) {height : Nat}
    {text : String} {items : List (BIP340PubKey × Nat)} (hnd : (items.map Prod.fst).Nodup)
    (hkeyed : w.btcStaking.ProvidersKeyed)
    (h : foldOutcome (fun w fpWithVp =>
      (handleFinalityProviderLiveness env w fpWithVp.1 (missed fpWithVp.1) height).orPanic text)
      w items = .ok w') :
    pk ∉ items.map Prod.fst ∧ SameRecord pk w w' ∨
      pk ∈ items.map Prod.fst ∧ Examined env pk (missed pk) height w w' := by
  induction items generalizing w with
  | nil =>
    cases h
    exact .inl ⟨List.not_mem_nil, .refl pk _⟩
  | cons item rest ih =>
    simp only [foldOutcome, bind_ok_iff, Outcome.orPanic_ok_iff] at h
    obtain ⟨x, hx, hrest⟩ := h
    obtain ⟨hfr, hrestNodup⟩ := List.nodup_cons.mp hnd
    have hkeyedx := (handleFinalityProviderLiveness_ok hx).2.keyed hkeyed
    rw [List.map_cons, List.mem_cons]
    by_cases heq : pk = item.1
    · rcases ih hrestNodup hkeyedx hrest with ⟨-, hsame⟩ | ⟨hmem, -⟩
      · exact .inr ⟨.inl heq, w, x, hkeyed, .refl pk w, heq ▸ hx, hsame⟩
      · exact absurd (heq ▸ hmem) hfr
    · have hone := handleFinalityProviderLiveness_other hkeyed heq hx
      rcases ih hrestNodup hkeyedx hrest with ⟨hnot, hsame⟩ | ⟨hmem, v, v', hv, hbef, hcall⟩
      · exact .inl ⟨not_or.mpr ⟨heq, hnot⟩, hone.trans hsame⟩
      · exact .inr ⟨.inr hmem, v, v', hv, hone.trans hbef, hcall⟩

/-- The end of a block examines the providers of the table of one height, or nobody. -/
theorem endBlocker_record (hkeyed : w.btcStaking.ProvidersKeyed) (h : endBlocker ext env w = .ok w')
    (pk : BIP340PubKey) :
    ((∀ height, w.finality.examinedHeight env = some height →
        pk ∉ (w.finality.votingPower.under height).keys) ∧ SameRecord pk w w') ∨
      ∃ height, w.finality.examinedHeight env = some height ∧
        pk ∈ (w.finality.votingPower.under height).keys ∧
        Examined env pk (decide (pk ∉ w.finality.getVoters height)) height w w' := by
  obtain ⟨tallied, htald, hcases⟩ := endBlocker_ok_iff.mp h
  obtain ⟨blocks, next, rfl⟩ := htald.tallyOnly
  have htally : SameRecord pk w { w with
      finality := { w.finality with blocks, nextHeightToFinalize := next } } := ⟨rfl, rfl, rfl⟩
  rcases hcases with ⟨hnone, rfl⟩ | ⟨target, x, hexm, hlive, hrwd⟩
  · rw [hnone]
    exact .inl ⟨fun _ hsome => (by cases hsome), htally⟩
  · obtain ⟨hbs, _, _, hfin, -⟩ := handleRewarding_ok hrwd
    have hrwdd : SameRecord pk x w' := by
      refine ⟨by rw [hbs], ?_, by rw [hfin]⟩
      rw [hfin]
      rfl
    have hperm : ((w.finality.getVotingPowerTableOrdered target).map Prod.fst).Perm
        (w.finality.votingPower.under target).keys :=
      (List.perm_insertionSort _ _).map Prod.fst
    rw [hexm]
    rcases foldOutcome_liveness pk (fun pk => decide (pk ∉ w.finality.getVoters target))
        (hperm.nodup_iff.mpr (nodup_keys _)) (by exact hkeyed) hlive with ⟨hnot, hsame⟩ |
      ⟨hmem, v, v', hv, hbef, hcall, haft⟩ <;> rw [hperm.mem_iff] at *
    · refine .inl ⟨?_, (htally.trans hsame).trans hrwdd⟩
      rintro _ ⟨⟩
      exact hnot
    · exact .inr ⟨_, rfl, hmem, v, v', hv, htally.trans hbef, hcall, haft.trans hrwdd⟩

/-! ## Activating and jailing -/

/-- What a call that activates providers can do to a record: nothing or, if the provider is
promoted, start it again at the current height. -/
def Restarts (env : Env) (promoted : Prop) (before after : MissedRecord) : Prop :=
  after = before ∨ promoted ∧ ∃ info, after = ⟨some info, before.bits⟩ ∧
    info.startHeight = env.header.height ∧
    info.missedBlocksCounter = (before.info.map (·.missedBlocksCounter)).getD 0

section

variable {promoted other : Prop} {r r' r'' : MissedRecord}

theorem Restarts.imp (h : Restarts env promoted r r') (himp : promoted → other) :
    Restarts env other r r' :=
  Or.imp_right (And.imp_left himp) h

theorem Restarts.trans (h : Restarts env promoted r r') (h' : Restarts env promoted r' r'') :
    Restarts env promoted r r'' := by
  rcases h with rfl | ⟨hp, info, rfl, hstart, hctr⟩
  · exact h'
  · rcases h' with rfl | ⟨-, info', rfl, hstart', hcounter'⟩
    · exact .inr ⟨hp, info, rfl, hstart, hctr⟩
    · exact .inr ⟨hp, info', rfl, hstart', hcounter'.trans hctr⟩

theorem Restarts.bitmap (h : Restarts env promoted r r') : r'.bits = r.bits := by
  rcases h with rfl | ⟨-, info, rfl, -⟩ <;> rfl

end

theorem restarts_activate (s : State) (env : Env) (key : BIP340PubKey) :
    Restarts env (key = pk) (s.record pk)
      ((s.handleActivatedFinalityProvider env key).record pk) := by
  unfold handleActivatedFinalityProvider
  by_cases heq : key = pk
  · subst heq
    split
    case h_1 info hinfo =>
      refine .inr ⟨rfl, _, record_setSigningInfo_self _ _ _, rfl, ?_⟩
      rw [record, hinfo]
      rfl
    case h_2 hinfo =>
      refine .inr ⟨rfl, _, record_setSigningInfo_self _ _ _, rfl, ?_⟩
      rw [record, hinfo]
      rfl
  · split
    · exact .inl (record_setSigningInfo_of_ne _ (Ne.symm heq) _)
    · exact .inl (record_setSigningInfo_of_ne _ (Ne.symm heq) _)

/-- Only the records of providers that become active are started again. -/
theorem handleFPStateUpdates_restarts {state : Option ProcessingState}
    {prevDc newDc : VotingPowerDistCache} {shouldCallHooks : Bool}
    (h : handleFPStateUpdates ext env w state prevDc newDc shouldCallHooks = .ok w')
    (pk : BIP340PubKey) :
    Restarts env (∃ fp ∈ newDc.findNewActiveFinalityProviders prevDc, fp.btcPk = pk)
      (w.finality.record pk) (w'.finality.record pk) :=
  (handleFPStateUpdates_preserves (P := fun s => Restarts env _ _ (s.record pk))
    (fun s fp hmem hs => hs.trans
      ((restarts_activate s env fp.btcPk).imp fun heq => ⟨fp, hmem, heq⟩)) (.inl rfl) h).2

/-- The beginning of a block starts the records of providers again that are active in the new
cache and were not in the previous one. -/
theorem updatePowerDist_restarts (h : updatePowerDist ext env w = .ok w') (pk : BIP340PubKey) :
    ∃ dc, w'.finality.votingPowerDistCache.get env.header.height = some dc ∧
      Restarts env (∃ fp ∈ dc.findNewActiveFinalityProviders (previousCache env w.finality),
        fp.btcPk = pk) (w.finality.record pk) (w'.finality.record pk) := by
  simp only [updatePowerDist, ok_iff] at h
  obtain ⟨⟨newDc, state⟩, -, v, hhooks, x, hupdates, rfl⟩ := h
  obtain ⟨-, hfin⟩ := processHooksBTCDelegation_ok hhooks
  obtain ⟨-, tracker, bitmap, hsgn⟩ := handleFPStateUpdates_ok hupdates
  have hrst := handleFPStateUpdates_restarts hupdates pk
  rw [hfin, recordVotingPowerAndCache_fst] at hsgn hrst
  refine ⟨_, ?_, hrst⟩
  rw [hsgn]
  exact get_set_self _ _ _

/-- Resuming finality at a height makes the provider active. -/
def State.Promotes (s : State) (names : List HexString) (pk : BIP340PubKey) (height : Nat) :
    Prop :=
  ∃ dc, s.getVotingPowerDistCache height = some dc ∧
    ∃ fp ∈ (rewriteCache names dc).findNewActiveFinalityProviders dc, fp.btcPk = pk

variable {names : List HexString}

/-- The loop of a proposal over the heights starts the records of the providers again that it
promotes. -/
theorem foldOutcome_resumeAtHeight_restarts {heights : List Nat}
    (hnd : heights.Nodup) (hwf : w.finality.CachesWellFormed)
    (h : foldOutcome (resumeAtHeight ext env names) w heights = .ok w') (pk : BIP340PubKey) :
    Restarts env (∃ height ∈ heights, w.finality.Promotes names pk height)
      (w.finality.record pk) (w'.finality.record pk) := by
  induction heights generalizing w with
  | nil =>
    cases h
    exact .inl rfl
  | cons height rest ih =>
    simp only [foldOutcome, bind_ok_iff] at h
    obtain ⟨v, hv, hrest⟩ := h
    obtain ⟨hfr, hrestNodup⟩ := List.nodup_cons.mp hnd
    obtain ⟨⟨dc, hrw⟩, hkeeps⟩ := resumeAtHeight_rewrites (hwf height) hv
    have hlater := ih hrestNodup (hrw.cachesWellFormed hwf hkeeps) hrest
    simp only [resumeAtHeight, ok_iff] at hv
    obtain ⟨dc', hdc', hv⟩ := hv
    have hone := handleFPStateUpdates_restarts hv pk
    rw [clearVotingPower_eq] at hone
    refine (hone.imp fun hp => ⟨height, List.mem_cons_self, dc', hdc', hp⟩).trans
      (hlater.imp ?_)
    rintro ⟨other, ho, dc, hdc, hp⟩
    have hne : other ≠ height := by
      rintro rfl
      exact hfr ho
    rw [(hkeeps other hne).getVotingPowerDistCache] at hdc
    exact ⟨other, List.mem_cons_of_mem _ ho, dc, hdc, hp⟩

/-- What the jailing loop of a proposal does to a provider: nothing, or it jails it and clears
its record. -/
def JailsOrKeeps (env : Env) (pk : BIP340PubKey) (w w' : Stores I) : Prop :=
  SameRecord pk w w' ∨
    ¬Jailed w.btcStaking pk ∧ Jailed w'.btcStaking pk ∧
      ∃ info, w'.finality.record pk = ⟨some info, fun _ => false⟩ ∧
      info.jailedUntil = env.header.time + w.finality.params.jailDuration ∧
      info.missedBlocksCounter = 0 ∧
      ∃ before, w.finality.finalityProviderSigningTracker.get pk = some before ∧
        info.startHeight = before.startHeight

theorem JailsOrKeeps.tail {w'' : Stores I} {voters : List BIP340PubKey} {name : HexString}
    (hkeyed : w'.btcStaking.ProvidersKeyed) (h : JailsOrKeeps env pk w w')
    (hcall : jailProposedFp env voters w' name = .ok w'') : JailsOrKeeps env pk w w'' := by
  obtain ⟨key, fp, -, -, hfp, ⟨-, rfl⟩ | ⟨hen, info, hinfo, rfl⟩⟩ := jailProposedFp_ok_iff.mp hcall
  · exact h
  · by_cases heq : pk = key
    · subst heq
      rcases h with hsame | ⟨-, hj, -⟩
      · obtain ⟨hj, hrec⟩ := jailNamed_self hkeyed hfp env info
        rw [hsame.params] at hrec
        refine .inr ⟨fun hwas => ?_, hj, _, hrec, rfl, rfl, info,
          hsame.tracker.symm.trans hinfo, rfl⟩
        exact hwas.not_enabled ⟨fp, hsame.provider.symm.trans hfp, hen⟩
      · exact absurd ⟨fp, hfp, hen⟩ hj.not_enabled
    · have hone := jailNamed_of_ne hkeyed hfp heq env info
      rcases h with hsame | ⟨hnot, hj, info', hrec, hrest⟩
      · exact .inl (hsame.trans hone)
      · refine .inr ⟨hnot, ?_, info', hone.record.trans hrec, hrest⟩
        rw [Jailed, hone.provider]
        exact hj

theorem JailsOrKeeps.of_foldOutcome {voters : List BIP340PubKey}
    (hkeyed : w.btcStaking.ProvidersKeyed)
    (h : foldOutcome (jailProposedFp env voters) w names = .ok w') : JailsOrKeeps env pk w w' := by
  have hboth : w'.btcStaking.ProvidersKeyed ∧ JailsOrKeeps env pk w w' := by
    refine foldOutcome_preserves
      (fun x : Stores I => x.btcStaking.ProvidersKeyed ∧ JailsOrKeeps env pk w x) ?_
      ⟨hkeyed, .inl (.refl pk w)⟩ h
    intro x name y _ hx hy
    exact ⟨(jailProposedFp_ok hy).2.keyed hx.1, hx.2.tail hx.1 hy⟩
  exact hboth.2

/-- A proposal jails some providers and then starts the records of promoted ones again. -/
theorem handleResumeFinalityProposal_record {haltingHeight : Nat}
    (hkeyed : w.btcStaking.ProvidersKeyed) (hwf : w.finality.CachesWellFormed)
    (h : handleResumeFinalityProposal ext env w names haltingHeight = .ok w') (pk : BIP340PubKey) :
    ∃ v : Stores I, JailsOrKeeps env pk w v ∧
      Restarts env (∃ height, haltingHeight ≤ height ∧ height ≤ env.header.height ∧
        w.finality.Promotes names pk height) (v.finality.record pk) (w'.finality.record pk) ∧
      w'.btcStaking = v.btcStaking := by
  obtain ⟨v, hjail, hrsm⟩ := handleResumeFinalityProposal_ok h
  refine ⟨v, .of_foldOutcome hkeyed hjail, ?_, (foldOutcome_resumeAtHeight_tablesOnly hrsm).1⟩
  obtain ⟨⟨_, _, hv⟩, -⟩ := foldOutcome_jails (fun _ _ _ hy => jailProposedFp_ok hy) hjail
  refine (foldOutcome_resumeAtHeight_restarts List.nodup_range' (by rw [hv]; exact hwf) hrsm
    pk).imp ?_
  rintro ⟨height, hmem, hp⟩
  obtain ⟨hle, hge⟩ := mem_resumeHeights.mp hmem
  rw [hv] at hp
  exact ⟨height, hle, hge, hp⟩

/-! ## The counter -/

namespace MissedRecord

/-- The counter of a record counts its marks, all of which are inside the window. -/
structure Counted (window height : Nat) (record : MissedRecord) : Prop where
  bounded : ∀ i, record.bits i = true → i < window
  blank : record.info = none → ∀ i, record.bits i = false
  counted : ∀ info, record.info = some info → info.missedBlocksCounter = marks window record.bits
  started : ∀ info, record.info = some info →
    ∃ start : Nat, info.startHeight = start ∧ 1 ≤ start ∧ start ≤ height

namespace Counted

variable {window height : Nat} {record record' : MissedRecord}

theorem mono (inv : record.Counted window height) {later : Nat} (hle : height ≤ later) :
    record.Counted window later := by
  refine ⟨inv.bounded, inv.blank, inv.counted, ?_⟩
  intro info hinfo
  obtain ⟨start, heq, hpos, hstart⟩ := inv.started info hinfo
  exact ⟨start, heq, hpos, hstart.trans hle⟩

theorem of_some (hbounded : ∀ i, bits i = true → i < window)
    (hcntd : info.missedBlocksCounter = marks window bits)
    (hstarted : ∃ start : Nat, info.startHeight = start ∧ 1 ≤ start ∧ start ≤ height) :
    (MissedRecord.mk (some info) bits).Counted window height := by
  refine ⟨hbounded, nofun, ?_, ?_⟩
  · rintro _ ⟨⟩
    exact hcntd
  · rintro _ ⟨⟩
    exact hstarted

theorem restarts {promoted : Prop} (inv : record.Counted window height)
    (hpos : 1 ≤ env.header.height) (hht : height = env.header.height)
    (h : Restarts env promoted record record') : record'.Counted window height := by
  rcases h with rfl | ⟨-, info, rfl, hstart, hctr⟩
  · exact inv
  · refine .of_some inv.bounded ?_ ⟨env.header.height, hstart, hpos, hht.ge⟩
    rw [hctr]
    cases hold : record.info with
    | none =>
      rw [marks_eq_zero (inv.blank hold)]
      rfl
    | some old => exact inv.counted old hold

/-- A record that was cleared. -/
theorem cleared (hctr : info.missedBlocksCounter = 0)
    (hstart : ∃ start : Nat, info.startHeight = start ∧ 1 ≤ start ∧ start ≤ height) :
    (MissedRecord.mk (some info) fun _ => false).Counted window height := by
  refine .of_some nofun ?_ hstart
  rw [hctr, marks_eq_zero fun _ => rfl]
  rfl

theorem jailsOrKeeps (inv : (w.finality.record pk).Counted window height)
    (h : JailsOrKeeps env pk w w') : (w'.finality.record pk).Counted window height := by
  rcases h with hsame | ⟨-, -, info, hrec, -, hctr, before, hbef, hstart⟩
  · rw [hsame.record]
    exact inv
  · rw [hrec]
    refine cleared hctr ?_
    rw [hstart]
    exact inv.started before hbef

theorem observe {observed : Int} (inv : record.Counted window height) (hwin : 0 < window)
    (hinfo : record.info = some info) :
    (MissedRecord.mk (some (info.observe record.bits window observed missed).1)
      (info.observe record.bits window observed missed).2).Counted window height := by
  refine .of_some ?_ (FinalityProviderSigningInfo.observe_counted hwin (inv.counted info hinfo)) ?_
  · intro i hbit
    unfold FinalityProviderSigningInfo.observe at hbit
    split at hbit
    case isTrue => exact inv.bounded i hbit
    case isFalse =>
      dsimp only at hbit
      rw [Function.update_apply] at hbit
      split at hbit
      case isTrue heq =>
        have hlt := Int.emod_lt_of_pos (observed - info.startHeight) (Int.natCast_pos.mpr hwin)
        omega
      case isFalse => exact inv.bounded i hbit
  · rw [FinalityProviderSigningInfo.observe_startHeight]
    exact inv.started info hinfo

end Counted

end MissedRecord

end Records

end Babylon.Finality
