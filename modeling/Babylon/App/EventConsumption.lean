/-
  Power distribution events are processed once.

  Events wait under a BTC height.  A block processes the heights from the tip of
  the block before it up to its own, both included, so two consecutive blocks
  share a height, and events are written there between them.  What has ever been
  written under a height is what blocks have processed there, in order, followed
  by what still waits.
-/
import Babylon.App.PowerLedger

set_option autoImplicit false

namespace Babylon

open Lib KVStore Finality BTCStaking Devnet Chain

namespace BTCStaking

/-! ## Writing events -/

/-- Events are appended, and only at BTC heights from the tip on. -/
def State.Appends (tip : Nat) (s t : State) : Prop :=
  ∀ height, s.eventsAt height <+: t.eventsAt height ∧
    (height < tip → t.eventsAt height = s.eventsAt height)

variable {prim : BtcPrimitives} {env : Env} {s t : State} {requests : State → Request → Prop}
  {tip : Nat}

namespace State.Appends

theorem refl : s.Appends tip s := fun _ => ⟨List.prefix_rfl, fun _ => rfl⟩

theorem trans {u : State} (h : s.Appends tip t) (h' : t.Appends tip u) : s.Appends tip u :=
  fun height => ⟨(h height).1.trans (h' height).1,
    fun hlt => ((h' height).2 hlt).trans ((h height).2 hlt)⟩

theorem add {event : EventPowerDistUpdate} {height : Nat} (h : s.Appends tip t)
    (hle : tip ≤ height) : s.Appends tip (t.addPowerDistUpdateEvent height event) := by
  intro other
  have hadd : (t.addPowerDistUpdateEvent height event).eventsAt other
      = if other = height then t.eventsAt height ++ [event] else t.eventsAt other :=
    queue_enqueue t.powerDistUpdateEvents height other event
  rw [hadd]
  split
  case isTrue heq =>
    subst heq
    exact ⟨(h other).1.trans (List.prefix_append _ _), fun hlt => absurd hle (Nat.not_le.mpr hlt)⟩
  case isFalse => exact h other

theorem include_delegation {d : BTCDelegation} {p : Params} {timeInfo : DelegationTimeRangeInfo}
    (hincb : Includable env s d p timeInfo) :
    s.Appends env.lc.tipHeight (s.includeDelegation prim env d p timeInfo) := by
  have hend := hincb.end_gt
  have hset : s.Appends env.lc.tipHeight (s.setBTCDelegation prim
      { d with startHeight := timeInfo.startHeight, endHeight := timeInfo.endHeight }) := refl
  exact (hset.add (Nat.le_refl _)).add (by omega)

theorem insert_delegation {d : BTCDelegation} {delegators : DelegatorIndex}
    (fresh : FreshDelegation prim env s d) :
    s.Appends env.lc.tipHeight (s.insertDelegation prim delegators d) := by
  have hset : s.Appends env.lc.tipHeight
      ({ s with btcDelegators := delegators }.setBTCDelegation prim d) := refl
  unfold insertDelegation
  split
  case isTrue hprf =>
    refine hset.add ?_
    rcases fresh.time with ⟨hstart, -⟩ | ⟨-, -, -, hend⟩
    · simp [BTCDelegation.hasInclusionProof, hstart] at hprf
    · omega
  case isFalse => exact hset

/-- The messages and blocks of the two modules write events at the tip, and the expiry of a
delegation that has not expired at the tip. -/
theorem of_change (h : Change prim env requests s t) : s.Appends env.lc.tipHeight t := by
  have hrefl : s.Appends env.lc.tipHeight s := refl
  cases h with
  | create fresh hexp | expand fresh hexp expands => exact insert_delegation fresh
  | prove stored hexp includable => exact include_delegation includable
  | sign request stored notUnbonded notExpired =>
    simp only [addCovenantSigsToBTCDelegation]
    split
    · exact hrefl.add (Nat.le_refl _)
    · exact hrefl
  | undelegate request h =>
    obtain ⟨info, tx, u, activated, -, -, -, -, hact, -, rfl⟩ := msgBTCUndelegate_ok h
    have hactivate : s.Appends env.lc.tipHeight activated := by
      rcases verifyStakeSpendingTx_ok hact with ⟨_, _, _, -, -, hincb, rfl⟩ | rfl
      · exact include_delegation hincb
      · exact refl
    simp only [btcUndelegate]
    split
    · exact hactivate.add (Nat.le_refl _)
    · exact hactivate
  | registry h =>
    rcases h.frame with ⟨_, hset⟩ | ⟨_, _, rfl | ⟨_, rfl⟩⟩
    · obtain ⟨-, _, rfl⟩ := setParams_ok hset
      exact hrefl
    · exact hrefl
    · exact hrefl.add (Nat.le_refl _)

theorem of_changes (h : Changes prim env requests s t) :
    s.Appends env.lc.tipHeight t := by
  induction h with
  | refl => exact refl
  | tail _ hchg ih => exact ih.trans (of_change hchg)

end State.Appends

end BTCStaking

/-! ## Processing events -/

variable {I : Type} {cfg : Config I} {c c' : Chain I} {history : History I}
  {l : Label I}

/-- The events at a BTC height that the `UpdatePowerDist` of the next block processes. -/
def Chain.dueAt (c : Chain I) (height : Nat) : List EventPowerDistUpdate :=
  if height ∈ btcHeightRange c.processedHeight c.lc.tipHeight then c.btcStaking.eventsAt height
  else []

/-- `UpdatePowerDist` of a block goes through these events and through no others, and records the
distribution that comes of them. -/
def Chain.Processes (cfg : Config I) (c : Chain I) (header : HeaderInfo) (c' : Chain I)
    (events : List EventPowerDistUpdate) : Prop :=
  let bs := (c.indexedStores cfg header).btcStaking
  ∃ collected ps newDc state,
    foldOutcome (processEvent bs) (.fillByPrevVpDstCache .new c.currentCache) events =
      .ok collected ∧
    processAllEvents bs c.currentCache c.processedHeight c.lc.tipHeight = .ok ps ∧
    Processed bs c.currentCache events ps ∧
    processAllPowerDistUpdateEvents bs c.currentCache c.processedHeight c.lc.tipHeight =
      .ok (newDc, state) ∧
    (c.finality.recordVotingPowerAndCache (c.beginEnv cfg header) newDc).1.SigningOnly c'.finality

/-- The events that have been written at a BTC height, oldest first.  Only messages and the
end of a block write; the state is the one after the history. -/
def writtenEvents : History I → Chain I → Nat → List EventPowerDistUpdate
  | [], _, _ => []
  | (c, .beginBlock _) :: rest, _, height => writtenEvents rest c height
  | (c, _) :: rest, c', height => writtenEvents rest c height
      ++ (c'.btcStaking.eventsAt height).drop (c.btcStaking.eventsAt height).length

/-- The events that blocks have processed at a BTC height, in order. -/
def processedEvents : History I → Nat → List EventPowerDistUpdate
  | [], _ => []
  | (c, .beginBlock _) :: rest, height => processedEvents rest height ++ c.dueAt height
  | _ :: rest, height => processedEvents rest height

/-- A block begins with a tip that is at least the one indexed for the block before it, and
events are written while the tip is at least the one indexed for their block. -/
def FollowsTip (cfg : Config I) (c : Chain I) : Label I → Prop
  | .beginBlock _ => c.processedHeight ≤ c.lc.tipHeight
  | l => ∀ c', (chain cfg).step c l = some c' →
      (∃ height, c'.btcStaking.eventsAt height ≠ c.btcStaking.eventsAt height) →
      c.processedHeight ≤ c.lc.tipHeight

/-- What a step other than the beginning of a block does to the events. -/
theorem appends_of_step (hl : ∀ header, l ≠ .beginBlock header)
    (hstep : (chain cfg).step c l = some c') :
    c.btcStaking.Appends c.lc.tipHeight c'.btcStaking ∧ c'.processedHeight = c.processedHeight := by
  cases stepped hstep with
  | beginBlock => exact absurd rfl (hl _)
  | message _ hw =>
    have hch := handle_staking hw
    exact ⟨.of_changes hch, processedHeight_of_changes c.inBlock hch⟩
  | headers hbase => exact ⟨.refl, processedHeight_headers hbase⟩
  | rejected | others | external => exact ⟨.refl, rfl⟩
  | endBlock _ hw =>
    have hch := changes_of_endBlocker hw
    exact ⟨.of_changes hch, processedHeight_of_changes false hch⟩

variable {header : HeaderInfo}

/-- A block deletes the events of the heights it processes, and no others. -/
theorem eventsAt_beginBlock
    (hstep : (chain cfg).step c (.beginBlock header) = some c') (height : Nat) :
    c'.processedHeight = c.lc.tipHeight ∧ c'.btcStaking.eventsAt height
      = if height ∈ btcHeightRange c.processedHeight c.lc.tipHeight then []
        else c.btcStaking.eventsAt height := by
  obtain ⟨w, -, hht, hw, rfl⟩ := step_beginBlock hstep
  refine ⟨processedHeight_beginBlock hw, ?_⟩
  rw [updatePowerDist_btcStaking hw, eventWindow_beginEnv hht]
  exact queue_foldl_delete _ _ _

/-- What the code goes through is what was due. -/
theorem processes_of_beginBlock (hstep : (chain cfg).step c (.beginBlock header) = some c') :
    c.Processes cfg header c'
      ((btcHeightRange c.processedHeight c.lc.tipHeight).flatMap c.dueAt) := by
  have hdue : (btcHeightRange c.processedHeight c.lc.tipHeight).flatMap c.dueAt = c.dueEvents :=
    List.flatMap_congr fun _ hmem => if_pos hmem
  obtain ⟨w, -, hht, hw, rfl⟩ := step_beginBlock hstep
  obtain ⟨newDc, state, hpr, hsgn, -⟩ := updatePowerDist_ok hw
  rw [previousCache_beginEnv hht, processed_beginEnv hht] at hpr
  have hall := hpr
  simp only [processAllPowerDistUpdateEvents, bind_ok_iff] at hall
  obtain ⟨ps, hps, -⟩ := hall
  have hcollected := hps
  simp only [processAllEvents, bind_ok_iff] at hcollected
  obtain ⟨collected, hfold, -⟩ := hcollected
  unfold processEventsAtHeight at hfold
  rw [foldOutcome_flatMap] at hfold
  rw [hdue]
  exact ⟨collected, ps, newDc, state, hfold, hps, processed_of_processAllEvents hps, hpr, hsgn⟩

/-- Nothing waits below the processed range, and what was written is what was processed
followed by what waits. -/
structure EventsConsumed (history : History I) (c : Chain I) : Prop where
  settled : ∀ height, height < c.processedHeight → c.btcStaking.eventsAt height = []
  logged : ∀ height, writtenEvents history c height
    = processedEvents history height ++ c.btcStaking.eventsAt height

/-- If nothing waits below the processed range, a block takes all events up to its tip. -/
theorem EventsConsumed.dueAt (inv : EventsConsumed history c)
    (hle : c.processedHeight ≤ c.lc.tipHeight) (height : Nat) :
    c.dueAt height = if height ≤ c.lc.tipHeight then c.btcStaking.eventsAt height else [] := by
  unfold Chain.dueAt
  by_cases hlow : height < c.processedHeight
  · simp [inv.settled height hlow]
  · simp [mem_btcHeightRange hle, Nat.not_lt.mp hlow]

theorem EventsConsumed.beginBlock (inv : EventsConsumed history c)
    (hle : c.processedHeight ≤ c.lc.tipHeight)
    (hstep : (chain cfg).step c (.beginBlock header) = some c') (height : Nat) :
    c'.btcStaking.eventsAt height
      = if height ≤ c.lc.tipHeight then [] else c.btcStaking.eventsAt height := by
  rw [(eventsAt_beginBlock hstep height).2]
  by_cases hlow : height < c.processedHeight
  · simp [inv.settled height hlow]
  · simp [mem_btcHeightRange hle, Nat.not_lt.mp hlow]

theorem EventsConsumed.next (inv : EventsConsumed history c) (hfol : FollowsTip cfg c l)
    (hstep : (chain cfg).step c l = some c') : EventsConsumed ((c, l) :: history) c' := by
  have ho : (∀ header, l ≠ .beginBlock header) →
      ((∃ height, c'.btcStaking.eventsAt height ≠ c.btcStaking.eventsAt height) →
        c.processedHeight ≤ c.lc.tipHeight) →
      (∀ height, height < c'.processedHeight → c'.btcStaking.eventsAt height = []) ∧
        ∀ height, writtenEvents history c height ++ (c'.btcStaking.eventsAt height).drop
            (c.btcStaking.eventsAt height).length
          = processedEvents history height ++ c'.btcStaking.eventsAt height := by
    intro hl htip
    obtain ⟨happends, hproc⟩ := appends_of_step hl hstep
    refine ⟨?_, ?_⟩
    · intro height hlt
      rw [hproc] at hlt
      by_contra hne
      rw [← inv.settled height hlt] at hne
      exact hne ((happends height).2 (Nat.lt_of_lt_of_le hlt (htip ⟨height, hne⟩)))
    · intro height
      obtain ⟨new, hnew⟩ := (happends height).1
      rw [inv.logged, ← hnew, List.drop_left, List.append_assoc]
  cases l with
  | beginBlock header =>
    refine ⟨?_, ?_⟩
    · intro height hlt
      rw [(eventsAt_beginBlock hstep height).1] at hlt
      rw [inv.beginBlock hfol hstep, if_pos (Nat.le_of_lt hlt)]
    · intro height
      show writtenEvents history c height = (processedEvents history height ++ c.dueAt height) ++ _
      rw [inv.logged, inv.dueAt hfol, inv.beginBlock hfol hstep]
      split <;> simp
  | deliver | insertHeaders | updateOthers | updateExternal | endBlock =>
    obtain ⟨hstl, hlogged⟩ := ho nofun (hfol c' hstep)
    exact ⟨hstl, hlogged⟩

/-- The events written at a BTC height are, in every state, those that blocks have processed
there, each once and in order, followed by those that wait, and none waits below the
processed range.  What a block processes is what the loops of `UpdatePowerDist` go through; it is
all that waits at heights up to the tip and nothing else, and it is deleted; other steps append.
So an event is processed by the first later block whose tip is at least its height, and by no
other. -/
theorem events_processed_once (run : Run (chain cfg) history c)
    (hsteps : Steps (FollowsTip cfg) history) (height : Nat) :
    writtenEvents history c height
        = processedEvents history height ++ c.btcStaking.eventsAt height ∧
      (height < c.processedHeight → c.btcStaking.eventsAt height = []) ∧
      (∀ header c', FollowsTip cfg c (.beginBlock header) →
        (chain cfg).step c (.beginBlock header) = some c' → c'.processedHeight = c.lc.tipHeight ∧
        c.Processes cfg header c'
          ((btcHeightRange c.processedHeight c.lc.tipHeight).flatMap c.dueAt) ∧
        c.dueAt height = (if height ≤ c.lc.tipHeight then c.btcStaking.eventsAt height else []) ∧
        c'.btcStaking.eventsAt height
          = if height ≤ c.lc.tipHeight then [] else c.btcStaking.eventsAt height) ∧
      ∀ l c', (∀ header, l ≠ .beginBlock header) → (chain cfg).step c l = some c' →
        c.btcStaking.eventsAt height <+: c'.btcStaking.eventsAt height := by
  have inv : EventsConsumed history c := by
    refine run.historyInvariant EventsConsumed ?_ (fun _ _ _ _ _ inv => inv.next) hsteps
    intro c h
    exact ⟨fun height _ => h.eventsAt height, fun height => (h.eventsAt height).symm⟩
  refine ⟨inv.logged height, inv.settled height, ?_, ?_⟩
  · intro header c' hle hstep
    exact ⟨(eventsAt_beginBlock hstep height).1, processes_of_beginBlock hstep,
      inv.dueAt hle height, inv.beginBlock hle hstep height⟩
  · intro l c' hl hstep
    exact ((appends_of_step hl hstep).1 height).1

/-- The tip of block 2 is 12.  The covenant signs in block 2, at the height that the block
has processed; block 3 processes the activation, and nothing else. -/
theorem activation_waits_for_next_block :
    ∃ history c c' event, Run (chain config) history c ∧ c.header.height = 2 ∧
      c.processedHeight = 12 ∧ c.btcStaking.eventsAt 12 = [event] ∧
      writtenEvents history c 12 = processedEvents history 12 ++ c.btcStaking.eventsAt 12 ∧
      (chain config).step c (.beginBlock (Devnet.header 3)) = some c' ∧
      c.Processes config (Devnet.header 3) c' [event] ∧ c'.btcStaking.eventsAt 12 = [] := by
  obtain ⟨history, c, run, hsteps, hheight, hprocessed, htip, event, -, hevents, c', hstep, -⟩ :=
    Run.of_labels (chain config) (Q := fun c _ => c.processedHeight ≤ c.lc.tipHeight)
      (P := fun c => c.header.height = 2 ∧ c.processedHeight = 12 ∧ c.lc.tipHeight = 12 ∧
        ∃ event ∈ (c.btcStaking.eventsAt 12).head?, c.btcStaking.eventsAt 12 = [event] ∧
        ∃ c', (chain config).step c (.beginBlock (Devnet.header 3)) = some c' ∧ True)
      unsignedGenesis_genesis (signedAtTip 12) (by decide +kernel)
  have hfollows : Steps (FollowsTip config) history := by
    refine hsteps.mono fun c l hle => ?_
    cases l with
    | beginBlock => exact hle
    | _ => exact fun _ _ _ => hle
  obtain ⟨hlogged, -, hbegin, -⟩ := events_processed_once run hfollows 12
  obtain ⟨-, hprocesses, hdue, hleft⟩ := hbegin _ c' (hprocessed.trans htip.symm).le hstep
  rw [htip, if_pos le_rfl] at hdue hleft
  rw [hevents] at hdue
  rw [hprocessed, htip] at hprocesses
  replace hprocesses : c.Processes config _ c' (c.dueAt 12 ++ []) := hprocesses
  rw [hdue] at hprocesses
  exact ⟨history, c, c', event, run, hheight, hprocessed, hevents, hlogged, hstep, hprocesses,
    hleft⟩

end Babylon
