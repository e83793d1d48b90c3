/-
  Ranking a list and selecting from its top.

  Elements are ranked by a key in a linear order.  A predicate that holds for
  everything ranked before an element it holds for is a predicate of the top of
  the ranking, so scanning until it first fails finds all elements it holds for.
-/
import Mathlib.Data.List.Sort
import Mathlib.Tactic.Common

set_option autoImplicit false

namespace Babylon.Lib

variable {A K : Type} [LinearOrder K]

/-- Sort by a key; equal keys keep their order. -/
def rankBy (key : A → K) (items : List A) : List A :=
  items.insertionSort fun a b => key a ≤ key b

/-- Ranked by a key. -/
abbrev Ranked (key : A → K) (items : List A) : Prop :=
  items.Pairwise fun a b => key a ≤ key b

theorem rankBy_perm (key : A → K) (items : List A) : (rankBy key items).Perm items :=
  List.perm_insertionSort _ items

theorem ranked_rankBy (key : A → K) (items : List A) : Ranked key (rankBy key items) := by
  have : Std.Total fun a b : A => key a ≤ key b := ⟨fun a b => le_total (key a) (key b)⟩
  have : IsTrans A fun a b => key a ≤ key b := ⟨fun _ _ _ hab hbc => hab.trans hbc⟩
  exact List.pairwise_insertionSort _ items

/-- Rankings of the same elements agree when the key tells them apart. -/
theorem Ranked.eq_of_perm {key : A → K} {left right : List A} (hleft : Ranked key left)
    (hright : Ranked key right) (hperm : left.Perm right)
    (hkey : ∀ a ∈ left, ∀ b ∈ left, key a = key b → a = b) : left = right := by
  refine hperm.eq_of_pairwise ?_ hleft hright
  intro a b ha hb hab hba
  exact hkey a ha b (hperm.mem_iff.mpr hb) (le_antisymm hab hba)

/-- In a ranking, scanning for a predicate of the top finds every element. -/
theorem Ranked.takeWhile_eq_filter {key : A → K} {items : List A} {p : A → Bool}
    (hranked : Ranked key items) (hp : ∀ a b, key a ≤ key b → p b = true → p a = true) :
    items.takeWhile p = items.filter p := by
  induction items with
  | nil => rfl
  | cons a rest ih =>
    obtain ⟨hhead, hrest⟩ := List.pairwise_cons.mp hranked
    by_cases ha : p a = true
    · simp only [List.takeWhile_cons, List.filter_cons, ha, if_true, ih hrest]
    · have hnone : rest.filter p = [] := by
        rw [List.filter_eq_nil_iff]
        intro b hb hpb
        exact ha (hp a b (hhead b hb) hpb)
      simp only [List.takeWhile_cons, List.filter_cons, ha, hnone]
      simp

end Babylon.Lib
