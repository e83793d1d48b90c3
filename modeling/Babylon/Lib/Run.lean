/-
  Labelled transition systems and their runs.

  A run carries its history, newest step first, as pairs of the state a step
  was taken in and its label, so that a statement can speak about what happened
  earlier ("a vote was accepted") and can restrict the steps that were taken
  ("no parameter change").  The rules at the end are the only inductions over
  runs in the development.
-/
import Mathlib.Logic.Basic
import Mathlib.Tactic.Common

set_option autoImplicit false

namespace Babylon.Lib

/-- A transition system: its initial states and its partial step function.  A
step that returns `none` cannot be taken. -/
structure System (S L : Type) where
  init : S → Prop
  step : S → L → Option S

/-- The runs of a system, with their history. -/
inductive Run {S L : Type} (sys : System S L) : List (S × L) → S → Prop
  | start {s : S} (h : sys.init s) : Run sys [] s
  | next {history : List (S × L)} {s t : S} {l : L} (run : Run sys history s)
      (h : sys.step s l = some t) : Run sys ((s, l) :: history) t

/-- Every step of a history meets a condition on its state and label. -/
def Steps {S L : Type} (allowed : S → L → Prop) (history : List (S × L)) : Prop :=
  ∀ past ∈ history, allowed past.1 past.2

/-- Execute a list of labels, stopping at a step that is not allowed. -/
def System.execute {S L : Type} (sys : System S L) (allowed : S → L → Bool) :
    S → List L → Option S
  | s, [] => some s
  | s, l :: rest =>
    if allowed s l then
      match sys.step s l with
      | some t => sys.execute allowed t rest
      | none => none
    else none

/-- Execute a list of labels after a history, and record the steps. -/
def System.record {S L : Type} (sys : System S L) :
    List (S × L) → S → List L → Option (List (S × L) × S)
  | history, s, [] => some (history, s)
  | history, s, l :: rest =>
    (sys.step s l).bind fun t => sys.record ((s, l) :: history) t rest

variable {S L : Type} {sys : System S L}
  {allowed : S → L → Prop} {past : S × L} {history : List (S × L)}

theorem Steps.tail (h : Steps allowed (past :: history)) : Steps allowed history :=
  fun p hp => h p (List.mem_cons_of_mem _ hp)

theorem Steps.head (h : Steps allowed (past :: history)) : allowed past.1 past.2 :=
  h past List.mem_cons_self

theorem Steps.cons {s : S} {l : L} (h : Steps allowed history) (hhead : allowed s l) :
    Steps allowed ((s, l) :: history) :=
  List.forall_mem_cons.mpr ⟨hhead, h⟩

theorem Steps.trivial : Steps (fun _ _ => True) history :=
  fun _ _ => ⟨⟩

theorem Steps.mono {weaker : S → L → Prop} (h : Steps allowed history)
    (himp : ∀ s l, allowed s l → weaker s l) :
    Steps weaker history :=
  fun p hp => himp p.1 p.2 (h p hp)

variable {s : S}

/-- The invariant rule: what holds initially and is kept by every allowed step holds after every
run of allowed steps.  It may also speak about the history. -/
theorem Run.historyInvariant (I : List (S × L) → S → Prop) (hinit : ∀ s, sys.init s → I [] s)
    (hstep : ∀ history s l t, Run sys history s → I history s → allowed s l →
      sys.step s l = some t → I ((s, l) :: history) t) (run : Run sys history s)
    (hsteps : Steps allowed history) : I history s := by
  induction run with
  | start h => exact hinit _ h
  | next run h ih => exact hstep _ _ _ _ run (ih hsteps.tail) hsteps.head h

theorem Run.invariant (I : S → Prop) (hinit : ∀ s, sys.init s → I s)
    (hstep : ∀ s l t, I s → allowed s l → sys.step s l = some t → I t) (run : Run sys history s)
    (hsteps : Steps allowed history) : I s :=
  run.historyInvariant (fun _ => I) hinit (fun _ s l t _ => hstep s l t) hsteps

/-- The state in which a past step was taken is itself reached by a run, of
steps of the same history. -/
theorem Run.of_mem (run : Run sys history s) (hpast : past ∈ history) :
    ∃ earlier, Run sys earlier past.1 ∧ earlier ⊆ history ∧
      ∃ t, sys.step past.1 past.2 = some t := by
  induction run with
  | start _ => simp at hpast
  | @next history s t l run h ih =>
    rcases List.mem_cons.mp hpast with rfl | hmem
    · exact ⟨history, run, List.subset_cons_self _ _, t, h⟩
    · obtain ⟨earlier, hrun, hsub, hstep⟩ := ih hmem
      exact ⟨earlier, hrun, fun p hp => List.mem_cons_of_mem _ (hsub hp), hstep⟩

/-- The rule for what has held since a past state: it holds of that state with no step taken,
and every allowed step of the run keeps it. -/
theorem Run.since (Q : List (S × L) → S → Prop) {later earlier : List (S × L)} {s₀ : S} {l₀ : L}
    (run : Run sys (later ++ (s₀, l₀) :: earlier) s)
    (hsteps : Steps allowed (later ++ (s₀, l₀) :: earlier)) (hstart : Q [] s₀)
    (hstep : ∀ steps history s l t, Run sys history s → Steps allowed history → Q steps s →
      allowed s l → sys.step s l = some t → Q ((s, l) :: steps) t) :
    Q (later ++ [(s₀, l₀)]) s := by
  induction later generalizing s with
  | nil =>
    cases run with
    | next run h => exact hstep _ _ _ _ _ run hsteps.tail hstart hsteps.head h
  | cons past later ih =>
    cases run with
    | next run h => exact hstep _ _ _ _ _ run hsteps.tail (ih run hsteps.tail) hsteps.head h

/-- What a past step establishes and every allowed step keeps still holds. -/
theorem Run.established (Q : S → Prop) (run : Run sys history s) (hsteps : Steps allowed history)
    (hpast : past ∈ history) (hest : ∀ t, sys.step past.1 past.2 = some t → Q t)
    (hkeep : ∀ history s l t, Run sys history s → allowed s l → Q s → sys.step s l = some t → Q t) :
    Q s := by
  induction run with
  | start _ => simp at hpast
  | @next history s t l run h ih =>
    rcases List.mem_cons.mp hpast with rfl | hmem
    · exact hest _ h
    · exact hkeep _ _ _ _ run hsteps.head (ih hsteps.tail hmem) h

variable {labels : List L}

/-- An execution extends a run by allowed steps. -/
theorem Run.extend {allowed : S → L → Bool} {t : S} (run : Run sys history s)
    (h : sys.execute allowed s labels = some t) :
    ∃ later, Run sys (later ++ history) t ∧ Steps (fun s l => allowed s l = true) later := by
  induction labels generalizing s history with
  | nil =>
    obtain rfl : s = t := by simpa [System.execute] using h
    exact ⟨[], run, fun _ hp => absurd hp List.not_mem_nil⟩
  | cons l rest ih =>
    unfold System.execute at h
    split at h
    case isFalse => cases h
    case isTrue hal =>
      split at h
      case h_2 => cases h
      case h_1 next hnext =>
        obtain ⟨later, hrun, hsteps⟩ := ih (run.next hnext) h
        refine ⟨later ++ [(s, l)], by simpa using hrun, ?_⟩
        intro past hpast
        rcases List.mem_append.mp hpast with hpast | hpast
        · exact hsteps past hpast
        · obtain rfl := List.mem_singleton.mp hpast
          exact hal

/-- A run of allowed steps, found by executing labels from an initial state, and what holds
where it ends. -/
theorem Run.of_labels (sys : System S L) {P : S → Prop} {Q : S → L → Prop}
    [∀ s l, Decidable (Q s l)] (hinit : sys.init s) (labels : List L)
    (h : ∃ t, sys.execute (fun s l => decide (Q s l)) s labels = some t ∧ P t) :
    ∃ history t, Run sys history t ∧ Steps Q history ∧ P t := by
  obtain ⟨t, ht, hend⟩ := h
  obtain ⟨history, run, hsteps⟩ := Run.extend (.start hinit) ht
  exact ⟨history, t, by simpa using run, hsteps.mono fun _ _ => of_decide_eq_true, hend⟩

/-- The same for steps of any kind. -/
theorem Run.reaching (sys : System S L) {P : S → Prop} (hinit : sys.init s) (labels : List L)
    (h : ∃ t, sys.execute (fun _ _ => true) s labels = some t ∧ P t) :
    ∃ history t, Run sys history t ∧ P t := by
  obtain ⟨history, t, run, -, hend⟩ := Run.of_labels sys (Q := fun _ _ => True) hinit labels h
  exact ⟨history, t, run, hend⟩

/-- A recorded execution is a run. -/
theorem Run.of_record {history' : List (S × L)} {t : S} (run : Run sys history s)
    (h : sys.record history s labels = some (history', t)) :
    Run sys history' t := by
  induction labels generalizing s history with
  | nil =>
    cases h
    exact run
  | cons l rest ih =>
    obtain ⟨next, hnext, hrest⟩ := Option.bind_eq_some_iff.mp h
    exact ih (run.next hnext) hrest

/-- A run found by executing labels from an initial state, and what holds of its history and
where it ends. -/
theorem Run.recording (sys : System S L) {P : List (S × L) → S → Prop} (hinit : sys.init s)
    (labels : List L) (h : ∃ run, sys.record [] s labels = some run ∧ P run.1 run.2) :
    ∃ history t, Run sys history t ∧ P history t := by
  obtain ⟨⟨history, t⟩, hrec, hend⟩ := h
  exact ⟨history, t, .of_record (.start hinit) hrec, hend⟩

end Babylon.Lib
