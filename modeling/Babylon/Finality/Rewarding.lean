/-
  What `HandleRewarding` does in one call.

  The loop visits a range of heights.  It hands the cache of every finalized one
  to the incentive module, in order, removes the cache, and leaves the cursor
  after the last of them.  It never looks at a cache twice.
-/
import Babylon.Finality.Tallying

set_option autoImplicit false

namespace Babylon.Finality

open Lib KVStore List Option

/-- The finalized ones among some heights. -/
def State.finalizedAmong (s : State) (heights : List Nat) : List Nat :=
  heights.filter s.isFinalized

variable {height maxBlocks target : Nat}

section Calls

variable {I : Type} {ext : External I} {env : Env} {w w' : Stores I}

/-- The call of the incentive module for one height, which needs the cache of the height. -/
def rewardCall (ext : External I) (env : Env) (w : Stores I) (external : I) (height : Nat) :
    Option I :=
  (w.finality.getVotingPowerDistCache height).bind fun dc =>
    ext.rewardBTCStaking env.header external height (refreshFPCommissions w.btcStaking dc)
      (w.finality.getVoters height)

/-- The stores after some heights have been rewarded. -/
def Stores.rewarded (w : Stores I) (heights : List Nat) (external : I) : Stores I :=
  { w with
    external
    finality := { w.finality with
      votingPowerDistCache := heights.foldl delete w.finality.votingPowerDistCache } }

theorem rewardHeight_iff {next : Nat} {acc : Stores I × Nat} :
    rewardHeight ext env (w, next) height = .ok acc ↔
      (w.finality.blocks.get height).isSome = true ∧
        if w.finality.isFinalized height then
          ∃ external, rewardCall ext env w w.external height = some external ∧
            acc = (w.rewarded [height] external, height + 1)
        else acc = (w, next) := by
  simp only [rewardHeight, State.getBlock, bind_ok_iff, orThrow_ok_iff, Outcome.orPanic_ok_iff,
    isSome_iff_exists, State.isFinalized]
  rcases eq_none_or_eq_some (w.finality.blocks.get height) with hblk | ⟨block, hblk⟩
  · simp [hblk]
  · simp only [hblk, Option.some.injEq, exists_eq_left', any_some, exists_eq', true_and]
    split
    case isFalse => exact pure_ok_iff.trans eq_comm
    case isTrue =>
      simp only [rewardBTCStaking, ok_iff, rewardCall, bind_eq_some_iff]
      constructor
      · rintro ⟨_, ⟨dc, hdc, external, hcall, rfl⟩, rfl⟩
        exact ⟨external, ⟨dc, hdc, hcall⟩, rfl⟩
      · rintro ⟨external, ⟨dc, hdc, hcall⟩, rfl⟩
        exact ⟨_, ⟨dc, hdc, external, hcall, rfl⟩, rfl⟩

/-- Removing the cache of a height does not change the calls for the others. -/
theorem rewardCall_rewarded {other : Nat} (hne : other ≠ height) (external i : I) :
    rewardCall ext env (w.rewarded [height] external) i other = rewardCall ext env w i other := by
  have hcache : (w.rewarded [height] external).finality.getVotingPowerDistCache other
      = w.finality.getVotingPowerDistCache other := by
    show ((w.finality.votingPowerDistCache.delete height).get other).filter _ = _
    rw [get_delete, if_neg hne]
    rfl
  unfold rewardCall
  rw [hcache]
  rfl

theorem foldlM_congr_of_mem {A B : Type} {f g : B → A → Option B} {items : List A}
    (h : ∀ b, ∀ a ∈ items, f b a = g b a) (b : B) : items.foldlM f b = items.foldlM g b := by
  induction items generalizing b with
  | nil => rfl
  | cons a rest ih =>
    rw [foldlM_cons, foldlM_cons, h b a mem_cons_self]
    exact congrArg _ (funext fun b => ih (fun b a ha => h b a (mem_cons_of_mem _ ha)) b)

/-- The loop of `HandleRewarding`. -/
theorem foldOutcome_rewardHeight_iff {heights : List Nat} (hnd : heights.Nodup) {next : Nat}
    {acc : Stores I × Nat} :
    foldOutcome (rewardHeight ext env) (w, next) heights = .ok acc ↔
      (∀ height ∈ heights, (w.finality.blocks.get height).isSome = true) ∧
        ∃ external, (w.finality.finalizedAmong heights).foldlM (rewardCall ext env w) w.external
            = some external ∧
          acc = (w.rewarded (w.finality.finalizedAmong heights) external,
            cursorAfter next (w.finality.finalizedAmong heights)) := by
  induction heights generalizing w next with
  | nil =>
    have hnone : w.finality.finalizedAmong [] = [] := rfl
    rw [hnone, foldlM_nil]
    constructor
    · intro h
      cases h
      exact ⟨fun _ hmem => absurd hmem not_mem_nil, w.external, rfl, rfl⟩
    · rintro ⟨-, external, hextl, rfl⟩
      cases hextl
      rfl
  | cons height rest ih =>
    obtain ⟨hfr, hrest⟩ := nodup_cons.mp hnd
    simp only [foldOutcome, bind_ok_iff, rewardHeight_iff, forall_mem_cons, and_assoc]
    by_cases hfnl : w.finality.isFinalized height = true
    · have hamong : w.finality.finalizedAmong (height :: rest)
          = height :: w.finality.finalizedAmong rest := filter_cons_of_pos hfnl
      have hcalls : ∀ external i, (w.finality.finalizedAmong rest).foldlM
          (rewardCall ext env (w.rewarded [height] external)) i
          = (w.finality.finalizedAmong rest).foldlM (rewardCall ext env w) i := by
        intro external i
        refine foldlM_congr_of_mem (fun j other ho => rewardCall_rewarded ?_ external j) i
        rintro rfl
        exact hfr (mem_of_mem_filter ho)
      simp only [hfnl, if_true, hamong, foldlM_cons, bind_eq_bind,
        bind_eq_some_iff, cursorAfter_cons]
      constructor
      · rintro ⟨_, hblk, ⟨external, hcall, rfl⟩, hloop⟩
        obtain ⟨hblks, final, hfold, rfl⟩ := (ih hrest).mp hloop
        refine ⟨hblk, hblks, final, ⟨external, hcall, ?_⟩, rfl⟩
        rw [← hcalls external external]
        exact hfold
      · rintro ⟨hblk, hblks, final, ⟨external, hcall, hfold⟩, rfl⟩
        refine ⟨_, hblk, ⟨external, hcall, rfl⟩, (ih hrest).mpr ⟨hblks, final, ?_, rfl⟩⟩
        rw [← hcalls external external] at hfold
        exact hfold
    · have hamong : w.finality.finalizedAmong (height :: rest) = w.finality.finalizedAmong rest :=
        filter_cons_of_neg hfnl
      simp only [hfnl, hamong, Bool.false_eq_true, if_false, ← ih hrest]
      constructor
      · rintro ⟨_, hblk, rfl, hloop⟩
        exact ⟨hblk, hloop⟩
      · rintro ⟨hblk, hloop⟩
        exact ⟨_, hblk, rfl, hloop⟩

/-- The heights that a call of `HandleRewarding` visits. -/
def rewardRange (first target maxBlocks : Nat) : List Nat :=
  range' first (min (first + maxBlocks - 1) target + 1 - first)

/-- The finalized ones among them. -/
def State.due (s : State) (first target maxBlocks : Nat) : List Nat :=
  s.finalizedAmong (rewardRange first target maxBlocks)

section Due

variable {s : State} {first : Nat}

theorem State.mem_due (hmax : 1 ≤ maxBlocks) : height ∈ s.due first target maxBlocks ↔
    (first ≤ height ∧ height < first + maxBlocks ∧ height ≤ target) ∧
      s.isFinalized height = true := by
  rw [due, finalizedAmong, mem_filter, rewardRange, mem_range'_1]
  refine and_congr_left' ?_
  omega

theorem State.due_bounds (h : height ∈ s.due first target maxBlocks) :
    first ≤ height ∧ height ≤ target := by
  have hrng := mem_range'_1.mp (mem_of_mem_filter h)
  omega

theorem State.sorted_due : (s.due first target maxBlocks).Pairwise (· < ·) :=
  Pairwise.sublist filter_sublist pairwise_lt_range'

end Due

/-- `HandleRewarding`, by its calls of the incentive module. -/
theorem handleRewarding_iff :
    handleRewarding ext env w target maxBlocks = .ok w' ↔
      ∃ first, w.finality.firstHeightToReward = .ok first ∧
        (∀ height ∈ rewardRange first target maxBlocks,
          (w.finality.blocks.get height).isSome = true) ∧
        ∃ external, (w.finality.due first target maxBlocks).foldlM (rewardCall ext env w)
            w.external = some external ∧
          w' = { w with
            external
            finality := { w.finality with
              votingPowerDistCache := (w.finality.due first target maxBlocks).foldl delete
                w.finality.votingPowerDistCache
              nextHeightToReward := cursorAfter w.finality.nextHeightToReward
                (w.finality.due first target maxBlocks) } } := by
  have hnd : ∀ first, (rewardRange first target maxBlocks).Nodup := fun _ => nodup_range'
  simp only [handleRewarding, bind_ok_iff]
  refine exists_congr fun first => and_congr_right fun _ => ?_
  have hdue : w.finality.finalizedAmong (rewardRange first target maxBlocks)
      = w.finality.due first target maxBlocks := rfl
  have hmoved : cursorAfter first (w.finality.due first target maxBlocks) = first ↔
      w.finality.due first target maxBlocks = [] :=
    cursorAfter_eq_iff fun height hmem => (State.due_bounds hmem).1
  constructor
  · rintro ⟨acc, hloop, hrest⟩
    obtain ⟨hblks, external, hcalls, rfl⟩ := (foldOutcome_rewardHeight_iff (hnd first)).mp hloop
    refine ⟨hblks, external, hcalls, ?_⟩
    rw [hdue] at hrest
    split at hrest
    case isTrue hne =>
      rw [cursorAfter_of_ne_nil (hmoved.not.mp hne) _ first]
      exact (pure_ok_iff.mp hrest).symm
    case isFalse hsame =>
      rw [hmoved.mp (not_not.mp hsame)] at hrest ⊢
      exact (pure_ok_iff.mp hrest).symm
  · rintro ⟨hblks, external, hcalls, rfl⟩
    refine ⟨_, (foldOutcome_rewardHeight_iff (hnd first)).mpr ⟨hblks, external, hcalls, rfl⟩, ?_⟩
    rw [hdue]
    by_cases hnone : w.finality.due first target maxBlocks = []
    · rw [if_neg (not_not.mpr (hmoved.mpr hnone)), hnone]
      rfl
    · rw [if_pos (hmoved.not.mpr hnone),
        cursorAfter_of_ne_nil hnone _ w.finality.nextHeightToReward]
      rfl

/-- `HandleRewarding` moves the cursor of rewarding and removes distribution caches. -/
theorem handleRewarding_ok (h : handleRewarding ext env w target maxBlocks = .ok w') :
    w'.btcStaking = w.btcStaking ∧ ∃ caches next, w'.finality = { w.finality with
        votingPowerDistCache := caches
        nextHeightToReward := next } ∧
      ∀ height dc, caches.get height = some dc →
        w.finality.votingPowerDistCache.get height = some dc := by
  obtain ⟨first, -, -, external, -, rfl⟩ := handleRewarding_iff.mp h
  refine ⟨rfl, _, _, rfl, fun height dc hget => ?_⟩
  rw [get_foldl_delete] at hget
  exact (ite_none_left_eq_some.mp hget).2

/-- The heights handed to the incentive module have their caches. -/
theorem handleRewarding_cached {first : Nat} (hfirst : w.finality.firstHeightToReward = .ok first)
    (h : handleRewarding ext env w target maxBlocks = .ok w')
    (hmem : height ∈ w.finality.due first target maxBlocks) :
    ∃ dc, w.finality.getVotingPowerDistCache height = some dc := by
  obtain ⟨first', hfirst', -, external, hcalls, -⟩ := handleRewarding_iff.mp h
  obtain rfl : first = first' := Except.ok.inj (hfirst.symm.trans hfirst')
  generalize w.finality.due first target maxBlocks = heights at hmem hcalls
  generalize w.external = i at hcalls
  induction heights generalizing i with
  | nil => cases hmem
  | cons other rest ih =>
    simp only [foldlM_cons, bind_eq_bind, bind_eq_some_iff, rewardCall] at hcalls
    obtain ⟨j, ⟨dc, hdc, -⟩, hrest⟩ := hcalls
    rcases mem_cons.mp hmem with rfl | hin
    · exact ⟨dc, hdc⟩
    · exact ih hin j hrest

/-- The tally does not look at caches. -/
theorem State.tallyBlocks_failsOnly (s : State) (maxBlocks : Nat) :
    FailsOnly (· ≠ .panic "voting power distribution cache not found at height %d")
      (s.tallyBlocks env maxBlocks) := by
  have hloop : ∀ (heights : List Nat) (s : State),
      FailsOnly (· ≠ .panic "voting power distribution cache not found at height %d")
        (s.tallyHeights heights) := by
    intro heights
    induction heights with
    | nil => exact fun s => .ok s
    | cons height rest ih =>
      intro s
      refine .bind (.orPanic (by simp)) fun block _ => ?_
      split
      · split
        · exact ih _
        · exact .ok _
      · exact ih _
      · rintro _ ⟨⟩
        simp
      · rintro _ ⟨⟩
        simp
  exact .bind (.orPanic (by simp)) fun _ _ => hloop _ _

/-- A loop that rewards heights which have their caches fails at none of them for lack of
the cache. -/
theorem foldOutcome_rewardHeight_failsOnly {heights : List Nat} (hnd : heights.Nodup)
    (hchd : ∀ height ∈ heights, w.finality.isFinalized height = true →
      ∃ dc, w.finality.getVotingPowerDistCache height = some dc) (next : Nat) :
    FailsOnly (· ≠ .panic "voting power distribution cache not found at height %d")
      (foldOutcome (rewardHeight ext env) (w, next) heights) := by
  induction heights generalizing w next with
  | nil => exact .ok _
  | cons height rest ih =>
    obtain ⟨hfr, hrest⟩ := nodup_cons.mp hnd
    refine .bind ?_ fun acc hacc => ?_
    · refine .bind (.orPanic (by simp)) fun block hblk => ?_
      split
      case isFalse => exact .ok _
      case isTrue hfnl =>
        have hixd : w.finality.blocks.get height = some block := by
          rwa [Outcome.orPanic_ok_iff, State.getBlock, orThrow_ok_iff] at hblk
        obtain ⟨dc, hdc⟩ := hchd height mem_cons_self
          (by rw [State.isFinalized, Option.any_eq_true]; exact ⟨block, hixd, hfnl⟩)
        refine .bind (.bind ?_ fun _ _ => .bind (.orThrow fun _ => by simp) fun _ _ => .ok _)
          fun _ _ => .ok _
        refine .orThrow fun hnone => ?_
        rw [hdc] at hnone
        cases hnone
    · have hoth := fun other (ho : other ∈ rest) =>
        hchd other (mem_cons_of_mem _ ho)
      obtain ⟨-, hstep⟩ := rewardHeight_iff.mp hacc
      split at hstep
      case isTrue =>
        obtain ⟨external, -, rfl⟩ := hstep
        refine ih hrest ?_ _
        intro other ho hfnl
        have hne : other ≠ height := by
          rintro rfl
          exact hfr ho
        obtain ⟨dc, hdc⟩ := hoth other ho hfnl
        refine ⟨dc, ?_⟩
        rw [← hdc]
        show ((w.finality.votingPowerDistCache.delete height).get other).filter _ = _
        rw [get_delete, if_neg hne]
        rfl
      case isFalse =>
        obtain rfl := hstep
        exact ih hrest hoth _

/-! ## End block -/

/-- The height whose votes are examined at the end of this block. -/
def State.examinedHeight (s : State) (env : Env) : Option Nat :=
  if s.isFinalityActive env = true ∧
      1 ≤ (env.header.height : Int) - s.params.finalitySigTimeout then
    some ((env.header.height : Int) - s.params.finalitySigTimeout).toNat
  else none

/-- The first part of `EndBlocker`: nothing before finality is active, then a tally. -/
def State.TalliedAtEnd (s : State) (env : Env) (tallied : State) : Prop :=
  s.isFinalityActive env = false ∧ tallied = s ∨ s.isFinalityActive env = true ∧
    s.tallyBlocks env maxFinalizedRewardedBlocksPerEndBlock = .ok tallied

theorem State.TalliedAtEnd.tallyOnly {s t : State} (h : s.TalliedAtEnd env t) : s.TallyOnly t := by
  rcases h with ⟨-, rfl⟩ | ⟨-, htal⟩
  · exact ⟨_, _, rfl⟩
  · exact State.tallyBlocks_tallyOnly htal

/-- The three parts of `EndBlocker`. -/
theorem endBlocker_ok_iff :
    endBlocker ext env w = .ok w' ↔ ∃ tallied, w.finality.TalliedAtEnd env tallied ∧
      (w.finality.examinedHeight env = none ∧ w' = { w with finality := tallied } ∨
        ∃ target v, w.finality.examinedHeight env = some target ∧
          handleLiveness env { w with finality := tallied } target = .ok v ∧
          handleRewarding ext env v target maxFinalizedRewardedBlocksPerEndBlock = .ok w') := by
  unfold endBlocker State.examinedHeight State.TalliedAtEnd
  by_cases hact : w.finality.isFinalityActive env = true
  · simp only [hact, if_true, bind_ok_iff, Bool.true_eq_false, false_and, false_or, true_and]
    refine exists_congr fun tallied => and_congr_right fun htal => ?_
    obtain ⟨_, _, rfl⟩ := State.tallyBlocks_tallyOnly htal
    by_cases hexamine : 1 ≤ (env.header.height : Int) - w.finality.params.finalitySigTimeout
    · simp [hexamine, bind_ok_iff]
    · simp [hexamine, pure_ok_iff, @eq_comm _ w']
  · simp [hact, pure_ok_iff, @eq_comm _ w']

/-- After the tally, an end of block writes caches, the cursor of rewarding and signing
records, and jails providers. -/
theorem endBlocker_effect (h : endBlocker ext env w = .ok w') :
    ∃ tallied, w.finality.TalliedAtEnd env tallied ∧
      (∃ caches next tracker bitmap, w'.finality = { tallied with
          votingPowerDistCache := caches
          nextHeightToReward := next
          finalityProviderSigningTracker := tracker
          finalityProviderMissedBlockBitmap := bitmap } ∧
        ∀ height dc, caches.get height = some dc →
          w.finality.votingPowerDistCache.get height = some dc) ∧
      Jails env w.btcStaking w'.btcStaking := by
  obtain ⟨tallied, htald, hcases⟩ := endBlocker_ok_iff.mp h
  refine ⟨tallied, htald, ?_⟩
  obtain ⟨_, _, rfl⟩ := htald.tallyOnly
  rcases hcases with ⟨-, rfl⟩ | ⟨target, v, -, hlive, hrwd⟩
  · exact ⟨⟨_, _, _, _, rfl, fun _ _ => id⟩, .refl⟩
  · obtain ⟨⟨tracker, bitmap, hsgn⟩, hjails⟩ := handleLiveness_ok hlive
    obtain ⟨hbs, caches, next, hfin, hsub⟩ := handleRewarding_ok hrwd
    rw [hsgn] at hfin hsub
    exact ⟨⟨caches, next, tracker, bitmap, hfin, hsub⟩, hbs ▸ hjails⟩

/-- The end of a block keeps parameters, tables, votes and evidence. -/
theorem endBlocker_keeps (h : endBlocker ext env w = .ok w') :
    w'.finality.params = w.finality.params ∧ w'.finality.votingPower = w.finality.votingPower ∧
      w'.finality.votes = w.finality.votes ∧ w'.finality.evidence = w.finality.evidence := by
  obtain ⟨tallied, htald, ⟨_, _, _, _, hfin, -⟩, -⟩ := endBlocker_effect h
  obtain ⟨_, _, rfl⟩ := htald.tallyOnly
  rw [hfin]
  exact ⟨rfl, rfl, rfl, rfl⟩

end Calls

/-! ## The log of the calls -/

/-- A call of `RewardBTCStaking`: the height, and the cache that is handed over. -/
structure RewardCall where
  height : Nat
  dc : VotingPowerDistCache

section Logging

variable {I J : Type} {ext : External I} {env : Env} {w w' : Stores I}

/-- The modules that are called back, with a log of the calls of `RewardBTCStaking`. -/
def External.logging (ext : External I) : External (I × List RewardCall) where
  afterBtcDelegationActivated := fun header i fpAddr delAddr prev curr sats =>
    (ext.afterBtcDelegationActivated header i.1 fpAddr delAddr prev curr sats).map (·, i.2)
  afterBtcDelegationUnbonded := fun header i fpAddr delAddr prev curr sats =>
    (ext.afterBtcDelegationUnbonded header i.1 fpAddr delAddr prev curr sats).map (·, i.2)
  afterBbnFpEntersActiveSet := fun header i fpAddr =>
    (ext.afterBbnFpEntersActiveSet header i.1 fpAddr).map (·, i.2)
  afterBbnFpRemovedFromActiveSet := fun header i fpAddr =>
    (ext.afterBbnFpRemovedFromActiveSet header i.1 fpAddr).map (·, i.2)
  rewardBTCStaking := fun header i height dc voters =>
    (ext.rewardBTCStaking header i.1 height dc voters).map (·, i.2 ++ [⟨height, dc⟩])

/-- The same stores with another state of the modules that are called back. -/
def Stores.withExternal (w : Stores I) (external : J) : Stores J :=
  ⟨w.btcStaking, w.finality, external⟩

/-- The calls of `RewardBTCStaking` that an end of block makes, in order. -/
def rewardCalls (ext : External I) (env : Env) (w : Stores I) : List RewardCall :=
  match endBlocker ext.logging env (w.withExternal (w.external, [])) with
  | .ok w' => w'.external.2
  | .error _ => []

/-- The examination of liveness does not look at other modules. -/
theorem handleFinalityProviderLiveness_withExternal (external : J) (pk : BIP340PubKey)
    (missed : Bool) (height : Int) :
    handleFinalityProviderLiveness env (w.withExternal external) pk missed height
      = (handleFinalityProviderLiveness env w pk missed height).map (·.withExternal external) := by
  unfold handleFinalityProviderLiveness Stores.withExternal
  cases w.btcStaking.getFinalityProvider pk with
  | error _ => rfl
  | ok fp =>
    simp only [ok_bind]
    split
    case isTrue => rfl
    case isFalse =>
      cases w.finality.updateSigningInfo pk missed height with
      | error _ => rfl
      | ok result =>
        simp only [ok_bind]
        split
        case isTrue => cases w.btcStaking.jailFinalityProvider env.toEnv pk <;> rfl
        case isFalse => split <;> rfl

theorem foldOutcome_withExternal {A : Type} {f : Stores I → A → Outcome (Stores I)}
    {g : Stores J → A → Outcome (Stores J)} {external : J}
    (hstep : ∀ x a, g (x.withExternal external) a = (f x a).map (·.withExternal external))
    (w : Stores I) (items : List A) :
    foldOutcome g (w.withExternal external) items
      = (foldOutcome f w items).map (·.withExternal external) := by
  induction items generalizing w with
  | nil => rfl
  | cons a rest ih =>
    simp only [foldOutcome, hstep]
    cases f w a with
    | error _ => rfl
    | ok x => exact ih x

theorem handleLiveness_withExternal (external : J) (h : handleLiveness env w height = .ok w') :
    handleLiveness env (w.withExternal external) height = .ok (w'.withExternal external) := by
  unfold handleLiveness at h ⊢
  rw [foldOutcome_withExternal, show (w.withExternal external).finality = w.finality from rfl, h]
  · rfl
  · intro x fp
    rw [handleFinalityProviderLiveness_withExternal, Outcome.orPanic_map]
    rfl

theorem handleLiveness_external (h : handleLiveness env w height = .ok w') :
    w'.external = w.external := by
  have hsame : handleLiveness env w height = .ok (w'.withExternal w.external) :=
    handleLiveness_withExternal w.external h
  have heq : w' = w'.withExternal w.external := Except.ok.inj (h.symm.trans hsame)
  rw [heq]
  rfl

/-- The call for a height, if its cache is there. -/
def Stores.rewardCall? (w : Stores I) (height : Nat) : Option RewardCall :=
  (w.finality.getVotingPowerDistCache height).map fun dc =>
    ⟨height, refreshFPCommissions w.btcStaking dc⟩

theorem rewardCall_logging (i i' : I) (log log' : List RewardCall) (height : Nat) :
    rewardCall ext.logging env (w.withExternal (i', log')) (i, log) height
      = (rewardCall ext env w i height).map (·, log ++ (w.rewardCall? height).toList) := by
  unfold rewardCall Stores.rewardCall? Stores.withExternal
  cases w.finality.getVotingPowerDistCache height <;> rfl

theorem foldlM_rewardCall_logging (i i' : I) (log log' : List RewardCall) (heights : List Nat) :
    heights.foldlM (rewardCall ext.logging env (w.withExternal (i', log'))) (i, log)
      = (heights.foldlM (rewardCall ext env w) i).map
        (·, log ++ heights.filterMap w.rewardCall?) := by
  induction heights generalizing i log with
  | nil => simp
  | cons height rest ih =>
    rw [foldlM_cons, foldlM_cons, rewardCall_logging]
    cases rewardCall ext env w i height with
    | none => rfl
    | some j =>
      show rest.foldlM _ (j, log ++ (w.rewardCall? height).toList) = _
      rw [ih, append_assoc]
      cases hcall : w.rewardCall? height <;> simp [hcall]

/-- What an end of block calls and does. -/
theorem endBlocker_calls (h : endBlocker ext env w = .ok w') :
    w' = w ∧ rewardCalls ext env w = [] ∨ ∃ tallied,
      w.finality.tallyBlocks env maxFinalizedRewardedBlocksPerEndBlock = .ok tallied ∧
      (w' = { w with finality := tallied } ∧ rewardCalls ext env w = [] ∨
        ∃ (target first : Nat) (v : Stores I),
          handleLiveness env { w with finality := tallied } target = .ok v ∧
          v.finality.firstHeightToReward = .ok first ∧
          handleRewarding ext env v target maxFinalizedRewardedBlocksPerEndBlock = .ok w' ∧
          rewardCalls ext env w = (v.finality.due first target
            maxFinalizedRewardedBlocksPerEndBlock).filterMap
              v.rewardCall?) := by
  -- the run with the log, from which the calls are read
  have hcalls : ∀ calls, endBlocker ext.logging env (w.withExternal (w.external, []))
      = .ok (w'.withExternal (w'.external, calls)) → rewardCalls ext env w = calls := by
    intro calls hlog
    unfold rewardCalls
    rw [hlog]
    rfl
  obtain ⟨tallied, htald, hcases⟩ := endBlocker_ok_iff.mp h
  have hlogged := fun calls hcases => hcalls calls (endBlocker_ok_iff.mpr ⟨tallied, htald, hcases⟩)
  rcases hcases with ⟨hnone, rfl⟩ | ⟨target, v, hexm, hlive, hrwd⟩
  · have hnocalls := hlogged _ (.inl ⟨hnone, rfl⟩)
    rcases htald with ⟨-, rfl⟩ | ⟨-, htal⟩
    · exact .inl ⟨rfl, hnocalls⟩
    · exact .inr ⟨tallied, htal, .inl ⟨rfl, hnocalls⟩⟩
  · rcases htald with ⟨hina, -⟩ | ⟨-, htal⟩
    · rw [State.examinedHeight, if_neg fun hboth => by simp [hina] at hboth] at hexm
      cases hexm
    · obtain ⟨first, hfirst, hblks, external, hext, rfl⟩ := handleRewarding_iff.mp hrwd
      have hlive' := handleLiveness_withExternal (w.external, ([] : List RewardCall)) hlive
      refine .inr ⟨tallied, htal, .inr ⟨target, first, v, hlive, hfirst, hrwd, hlogged _ (.inr
        ⟨target, _, hexm, hlive', handleRewarding_iff.mpr ⟨first, hfirst, hblks, _, ?_, rfl⟩⟩)⟩⟩
      show (v.finality.due first target _).foldlM _ (w.external, []) = _
      rw [handleLiveness_external hlive] at hext
      rw [foldlM_rewardCall_logging, hext]
      rfl

end Logging

end Babylon.Finality
