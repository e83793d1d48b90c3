/-
  Fallible computations.

  A handler is a `do` block of `Except`.  The two combinators below write the
  guard clauses of such a block, and the `_ok_iff` lemmas turn a successful run
  of the whole block into the conjunction of what its guards checked and what
  its calls returned.
-/
import Mathlib.Logic.Basic
import Mathlib.Tactic.Common

set_option autoImplicit false

namespace Babylon.Lib

variable {E A B : Type}

/-- Continue when the condition holds, fail otherwise. -/
def ensure (condition : Prop) [Decidable condition] (failure : E) : Except E Unit :=
  if condition then .ok () else .error failure

/-- The value of an optional result, or a failure. -/
def orThrow (value : Option A) (failure : E) : Except E A :=
  match value with
  | some a => .ok a
  | none => .error failure

/-- Whether a computation succeeds. -/
def succeeds (computation : Except E A) : Bool :=
  match computation with
  | .ok _ => true
  | .error _ => false

theorem bind_ok_iff {x : Except E A} {f : A → Except E B} {r : B} :
    (x >>= f) = .ok r ↔ ∃ a, x = .ok a ∧ f a = .ok r := by
  cases x with
  | error e | ok a => simp [bind, Except.bind]

@[simp] theorem ok_bind (a : A) (f : A → Except E B) : ((.ok a : Except E A) >>= f) = f a := rfl

@[simp] theorem error_bind (e : E) (f : A → Except E B) :
    ((.error e : Except E A) >>= f) = .error e := rfl

variable {condition : Prop} {failure : E}

theorem ensure_ok_iff [Decidable condition] {u : Unit} :
    ensure condition failure = .ok u ↔ condition := by
  unfold ensure
  split_ifs with h <;> simp [h]

theorem ensure_of [Decidable condition] (failure : E) (h : condition) :
    ensure condition failure = .ok () :=
  if_pos h

theorem ensure_of_not [Decidable condition] (failure : E) (h : ¬ condition) :
    ensure condition failure = .error failure :=
  if_neg h

theorem orThrow_ok_iff {value : Option A} {a : A} :
    orThrow value failure = .ok a ↔ value = some a := by
  cases value <;> simp [orThrow]

@[simp] theorem orThrow_some (a : A) (failure : E) : orThrow (some a) failure = .ok a := rfl

@[simp] theorem orThrow_none (failure : E) :
    orThrow (none : Option A) failure = .error failure := rfl

theorem pure_ok_iff {a b : A} : (pure a : Except E A) = .ok b ↔ a = b := by
  simp [pure, Except.pure]

/-- A block that succeeded: what its calls returned and its guards checked. -/
theorem ok_iff :
    (∀ {E A B : Type} {x : Except E A} {f : A → Except E B} {r : B},
      (x >>= f) = .ok r ↔ ∃ a, x = .ok a ∧ f a = .ok r) ∧
    (∀ {E : Type} {condition : Prop} {failure : E} [Decidable condition] {u : Unit},
      ensure condition failure = .ok u ↔ condition) ∧
    (∀ {E A : Type} {failure : E} {value : Option A} {a : A},
      orThrow value failure = .ok a ↔ value = some a) ∧
    ∀ {E A : Type} {a b : A}, (pure a : Except E A) = .ok b ↔ a = b :=
  ⟨bind_ok_iff, ensure_ok_iff, orThrow_ok_iff, pure_ok_iff⟩

theorem succeeds_iff {x : Except E A} : succeeds x = true ↔ ∃ a, x = .ok a := by
  cases x <;> simp [succeeds]

instance decidableExistsOk {x : Except E A} : Decidable (∃ a, x = .ok a) :=
  decidable_of_iff _ succeeds_iff

instance decidableExistsOkAnd {x : Except E A} {P : A → Prop} [DecidablePred P] :
    Decidable (∃ a, x = .ok a ∧ P a) :=
  match x with
  | .ok a => decidable_of_iff (P a) (by simp)
  | .error _ => .isFalse (by simp)

instance decidableExistsErrorAnd {x : Except E A} {P : E → Prop} [DecidablePred P] :
    Decidable (∃ e, x = .error e ∧ P e) :=
  match x with
  | .ok _ => .isFalse (by simp)
  | .error e => decidable_of_iff (P e) (by simp)

-- a value that may be missing is looked at, even where its type could be enumerated
instance decidableForallMem {value : Option A} {P : A → Prop} [DecidablePred P] :
    Decidable (∀ a ∈ value, P a) := Option.decidableForallMem value

theorem exists_error_of_ne_ok {x : Except E Unit} (h : x ≠ .ok ()) : ∃ e, x = .error e := by
  cases x with
  | error e => exact ⟨e, rfl⟩
  | ok u => exact absurd rfl h

theorem toOption_eq_some_iff {x : Except E A} {a : A} : x.toOption = some a ↔ x = .ok a := by
  cases x <;> simp [Except.toOption]

/-- Run a fallible state transformer over a list, left to right. -/
def foldOutcome {S : Type} (f : S → A → Except E S) : S → List A → Except E S
  | s, [] => .ok s
  | s, a :: rest => do
      let s ← f s a
      foldOutcome f s rest

variable {items : List A} {S : Type} {f : S → A → Except E S}

/-- A loop whose iterations succeed and keep the invariant succeeds. -/
theorem foldOutcome_succeeds (I : S → Prop) {s : S}
    (hstep : ∀ s a, a ∈ items → I s → ∃ t, f s a = .ok t ∧ I t) (hs : I s) :
    ∃ t, foldOutcome f s items = .ok t ∧ I t := by
  induction items generalizing s with
  | nil => exact ⟨s, rfl, hs⟩
  | cons a rest ih =>
    obtain ⟨next, hnext, hI⟩ := hstep s a List.mem_cons_self hs
    obtain ⟨t, ht, hIt⟩ := ih (fun s b hb => hstep s b (List.mem_cons_of_mem _ hb)) hI
    exact ⟨t, by simp [foldOutcome, hnext, ht], hIt⟩

/-- A loop whose iterations do not change which later items can be visited succeeds if all
items can be visited at its start. -/
theorem foldOutcome_succeeds_iff (I : S → Prop) {can : S → A → Prop}
    {R : A → A → Prop} (hcan : ∀ s a, I s → ((∃ t, f s a = .ok t) ↔ can s a))
    (hstep : ∀ s a t, I s → f s a = .ok t → I t ∧ ∀ b, R a b → (can t b ↔ can s b)) {s : S}
    (hs : I s) (hitems : items.Pairwise R) :
    (∃ t, foldOutcome f s items = .ok t) ↔ ∀ a ∈ items, can s a := by
  induction hitems generalizing s with
  | nil => simp [foldOutcome]
  | @cons a rest hfirst _ ih =>
    have hrest : ∀ next, f s a = .ok next →
        ((∃ t, foldOutcome f next rest = .ok t) ↔ ∀ b ∈ rest, can s b) := by
      intro next hnext
      obtain ⟨hI, hsame⟩ := hstep s a next hs hnext
      exact (ih hI).trans (forall₂_congr fun b hb => hsame b (hfirst b hb))
    rw [List.forall_mem_cons, ← hcan s a hs]
    simp only [foldOutcome, bind_ok_iff]
    constructor
    · rintro ⟨t, next, hnext, ht⟩
      exact ⟨⟨next, hnext⟩, (hrest next hnext).mp ⟨t, ht⟩⟩
    · rintro ⟨⟨next, hnext⟩, hall⟩
      obtain ⟨t, ht⟩ := (hrest next hnext).mpr hall
      exact ⟨t, next, hnext, ht⟩

/-- The rule for loops with an invariant that speaks about the items visited so far. -/
theorem foldOutcome_visited (I : List A → S → Prop) {s t : S}
    (hstep : ∀ visited a rest s t, items = visited ++ a :: rest → I visited s → f s a = .ok t →
      I (visited ++ [a]) t) (hs : I [] s) (h : foldOutcome f s items = .ok t) : I items t := by
  suffices hrest : ∀ rest visited s, items = visited ++ rest → I visited s →
      foldOutcome f s rest = .ok t → I items t from hrest items [] s rfl hs h
  intro rest
  induction rest with
  | nil =>
    rintro visited s hitems hI ⟨⟩
    rwa [hitems, List.append_nil]
  | cons a rest ih =>
    intro visited s hitems hI hfold
    simp only [foldOutcome, bind_ok_iff] at hfold
    obtain ⟨next, hnext, hrest⟩ := hfold
    refine ih (visited ++ [a]) next ?_ (hstep visited a rest s next hitems hI hnext) hrest
    rw [hitems, List.append_assoc, List.singleton_append]

/-- What one iteration preserves, the loop preserves. -/
theorem foldOutcome_preserves (I : S → Prop) {s t : S}
    (hstep : ∀ s a t, a ∈ items → I s → f s a = .ok t → I t) (hs : I s)
    (h : foldOutcome f s items = .ok t) : I t :=
  foldOutcome_visited (fun _ => I) (fun _ a _ s t hitems => hstep s a t (by simp [hitems])) hs h

theorem foldOutcome_append (f : S → A → Except E S) (s : S) (xs ys : List A) :
    foldOutcome f s (xs ++ ys) = foldOutcome f s xs >>= fun t => foldOutcome f t ys := by
  induction xs generalizing s with
  | nil => rfl
  | cons a rest ih =>
    cases hfa : f s a with
    | error e => simp [foldOutcome, hfa]
    | ok next => simp [foldOutcome, hfa, ih]

/-- A loop of loops visits the items of all lists. -/
theorem foldOutcome_flatMap {S B : Type} (f : S → A → Except E S) (g : B → List A) (s : S)
    (keys : List B) :
    foldOutcome (fun s key => foldOutcome f s (g key)) s keys
      = foldOutcome f s (keys.flatMap g) := by
  induction keys generalizing s with
  | nil => rfl
  | cons key rest ih =>
    rw [List.flatMap_cons, foldOutcome_append]
    simp only [foldOutcome, ih]

/-- A loop that checks each item and appends what it makes of it. -/
theorem foldOutcome_append_iff {B : Type} {f : List B → A → Except E (List B)} {P : A → Prop}
    {g : A → Option B} (hf : ∀ out a out', f out a = .ok out' ↔ P a ∧ out' = out ++ (g a).toList)
    {out out' : List B} :
    foldOutcome f out items = .ok out' ↔
      (∀ a ∈ items, P a) ∧ out' = out ++ items.filterMap g := by
  induction items generalizing out with
  | nil => simp [foldOutcome, eq_comm]
  | cons a rest ih =>
    simp only [foldOutcome, bind_ok_iff, hf]
    constructor
    · rintro ⟨_, ⟨ha, rfl⟩, hrest⟩
      obtain ⟨hall, rfl⟩ := ih.mp hrest
      refine ⟨List.forall_mem_cons.mpr ⟨ha, hall⟩, ?_⟩
      cases hg : g a <;> simp [hg]
    · rintro ⟨hall, rfl⟩
      obtain ⟨ha, hrest⟩ := List.forall_mem_cons.mp hall
      refine ⟨_, ⟨ha, rfl⟩, ih.mpr ⟨hrest, ?_⟩⟩
      cases hg : g a <;> simp [hg]

/-- A loop of which one part of the state follows an optional computation succeeds with
the result of that computation. -/
theorem foldOutcome_follows {I : Type} {g : I → A → Option I} {π : S → I}
    (hstep : ∀ s i, ∀ a ∈ items, (∃ t, f s a = .ok t ∧ π t = i) ↔ g (π s) a = some i) (s : S)
    (i : I) :
    (∃ t, foldOutcome f s items = .ok t ∧ π t = i) ↔ items.foldlM g (π s) = some i := by
  induction items generalizing s with
  | nil => simp [foldOutcome]
  | cons a rest ih =>
    have hrest := ih fun s i b hb => hstep s i b (List.mem_cons_of_mem _ hb)
    simp only [foldOutcome, bind_ok_iff, List.foldlM_cons, Option.bind_eq_bind,
      Option.bind_eq_some_iff]
    constructor
    · rintro ⟨t, ⟨next, hnext, ht⟩, hi⟩
      exact ⟨π next, (hstep s _ a List.mem_cons_self).mp ⟨next, hnext, rfl⟩,
        (hrest next).mp ⟨t, ht, hi⟩⟩
    · rintro ⟨j, hj, hi⟩
      obtain ⟨next, hnext, rfl⟩ := (hstep s j a List.mem_cons_self).mpr hj
      obtain ⟨t, ht, hi⟩ := (hrest next).mpr hi
      exact ⟨t, ⟨next, hnext, ht⟩, hi⟩

/-! ## Failures -/

/-- A computation that fails in no other than the allowed ways. -/
def FailsOnly (allowed : E → Prop) (computation : Except E A) : Prop :=
  ∀ e, computation = .error e → allowed e

namespace FailsOnly

variable {allowed : E → Prop}

theorem ok (a : A) : FailsOnly allowed (.ok a : Except E A) := by
  rintro e ⟨⟩

theorem bind {computation : Except E A} {next : A → Except E B} (h : FailsOnly allowed computation)
    (hnext : ∀ a, computation = .ok a → FailsOnly allowed (next a)) :
    FailsOnly allowed (computation >>= next) := by
  intro e he
  cases computation with
  | error e' =>
    cases he
    exact h _ rfl
  | ok a => exact hnext a rfl e he

theorem ensure [Decidable condition] (h : allowed failure) :
    FailsOnly allowed (Lib.ensure condition failure) := by
  intro e he
  unfold Lib.ensure at he
  split at he
  · cases he
  · cases he
    exact h

theorem orThrow {value : Option A} (h : value = none → allowed failure) :
    FailsOnly allowed (Lib.orThrow value failure) := by
  intro e he
  cases value with
  | none =>
    cases he
    exact h rfl
  | some a => cases he

/-- The rule for loops with an invariant. -/
theorem foldOutcome_of_invariant (I : S → Prop)
    (hstep : ∀ s a, a ∈ items → I s →
      FailsOnly allowed (f s a) ∧ ∀ t, f s a = .ok t → I t) {s : S} (hs : I s) :
    FailsOnly allowed (foldOutcome f s items) := by
  induction items generalizing s with
  | nil => exact .ok s
  | cons a rest ih =>
    obtain ⟨hfails, hnext⟩ := hstep s a List.mem_cons_self hs
    exact hfails.bind fun t ht =>
      ih (fun s b hb => hstep s b (List.mem_cons_of_mem _ hb)) (hnext t ht)

theorem foldOutcome
    (hf : ∀ s, ∀ a ∈ items, FailsOnly allowed (f s a)) (s : S) :
    FailsOnly allowed (foldOutcome f s items) :=
  foldOutcome_of_invariant (fun _ => True) (fun s a ha _ => ⟨hf s a ha, fun _ _ => trivial⟩) trivial

end FailsOnly

end Babylon.Lib
