/-
  A sliding window kept in a circular bitmap.

  Position `k` of a stream of booleans is stored at index `(k - start) % size`, so
  that each new position overwrites the one that leaves the window.  What the
  bitmap held before `start` is gone after `size` positions.  A counter that
  changes when a bit flips then counts the marks among the last `size` positions.
-/
import Mathlib.Data.Nat.Periodic
import Mathlib.Tactic.Ring

set_option autoImplicit false

namespace Babylon.Lib

variable {size start next : Nat} {bits : Nat → Bool} {marked : Nat → Bool}

/-! ## Counting marks -/

/-- The number of marks in a bitmap. -/
def marks (size : Nat) (bits : Nat → Bool) : Nat := Nat.count (fun i => bits i = true) size

theorem marks_eq_zero (h : ∀ i, bits i = false) : marks size bits = 0 := by
  unfold marks
  induction size with
  | zero => rfl
  | succ n ih => rw [Nat.count_succ, ih, if_neg (by rw [h]; exact Bool.false_ne_true)]

/-- Overwriting a bit changes the number of marks by the flip. -/
theorem marks_update (bits : Nat → Bool) {index : Nat} (hidx : index < size) (bit : Bool) :
    (marks size (Function.update bits index bit) : Int)
      = marks size bits + bit.toNat - (bits index).toNat := by
  unfold marks
  induction size with
  | zero => omega
  | succ n ih =>
    rw [Nat.count_succ, Nat.count_succ]
    rcases Nat.lt_succ_iff_lt_or_eq.mp hidx with hlt | rfl
    · rw [Function.update_of_ne hlt.ne']
      have hrest := ih hlt
      push_cast
      omega
    · -- below the index, the two bitmaps agree
      have hbelow : Nat.count (fun i => Function.update bits index bit i = true) index
          = Nat.count (fun i => bits i = true) index := by
        rw [Nat.count_eq_card_filter_range, Nat.count_eq_card_filter_range]
        congr 1
        refine Finset.filter_congr fun i hi => ?_
        rw [Function.update_of_ne (Finset.mem_range.mp hi).ne]
      rw [hbelow, Function.update_self]
      cases bit <;> cases bits index <;> simp

/-! ## Windows -/

/-- The bitmap holds the last `size` positions from `start` up to, but not including, `next`. -/
def Aligned (size start next : Nat) (marked bits : Nat → Bool) : Prop :=
  ∀ k, start ≤ k → k < next → next ≤ k + size → bits ((k - start) % size) = marked k

/-- Nothing has been stored since `start`. -/
theorem Aligned.of_le (h : next ≤ start) : Aligned size start next marked bits := by
  intro k hstart hnext
  omega

section

variable (h : Aligned size start next marked bits)

include h

theorem Aligned.congr {other : Nat → Bool}
    (hsame : ∀ k, k < next → other k = marked k) : Aligned size start next other bits := by
  intro k hstart hnext hsize
  rw [h k hstart hnext hsize, hsame k hnext]

/-- Storing the next position. -/
theorem Aligned.store (hstart : start ≤ next) :
    Aligned size start (next + 1) marked
      (Function.update bits ((next - start) % size) (marked next)) := by
  intro k hk hnext hsize
  rcases Nat.lt_succ_iff_lt_or_eq.mp hnext with hlt | rfl
  · -- positions less than `size` apart have different indices
    have hne : (k - start) % size ≠ (next - start) % size := by
      intro heq
      have hdvd : size ∣ (next - start) - (k - start) := (Nat.modEq_iff_dvd' (by omega)).mp heq
      have hle := Nat.le_of_dvd (by omega) hdvd
      omega
    rw [Function.update_of_ne hne]
    exact h k hk hlt (by omega)
  · rw [Function.update_self]

/-- A position that is not stored, in a bitmap without marks. -/
theorem Aligned.skip (hbits : ∀ i, bits i = false)
    (hmarked : marked next = false) : Aligned size start (next + 1) marked bits := by
  intro k hk hnext hsize
  rcases Nat.lt_succ_iff_lt_or_eq.mp hnext with hlt | rfl
  · exact h k hk hlt (by omega)
  · rw [hbits, hmarked]

/-- Once `size` positions have been stored, the bitmap has as many marks as the window. -/
theorem Aligned.marks_eq (hfull : start + size ≤ next) :
    marks size bits = ((Finset.Ico (next - size) next).filter fun k => marked k = true).card := by
  have hperiodic : Function.Periodic (fun i => bits (i % size) = true) size := by
    intro i
    simp only [Nat.add_mod_right]
  have hcnt : marks size bits = Nat.count (fun i => bits (i % size) = true) size := by
    unfold marks
    rw [Nat.count_eq_card_filter_range, Nat.count_eq_card_filter_range]
    congr 1
    refine Finset.filter_congr fun i hi => ?_
    rw [Nat.mod_eq_of_lt (Finset.mem_range.mp hi)]
  rw [hcnt, ← Nat.filter_Ico_card_eq_of_periodic (next - size - start) size _ hperiodic]
  -- the window is that interval, moved by `start`
  refine Finset.card_bij (fun i _ => i + start) ?_ ?_ ?_
  · intro i hi
    obtain ⟨hrng, hbit⟩ := Finset.mem_filter.mp hi
    obtain ⟨hge, hlt⟩ := Finset.mem_Ico.mp hrng
    refine Finset.mem_filter.mpr ⟨Finset.mem_Ico.mpr ⟨by omega, by omega⟩, ?_⟩
    rw [← h (i + start) (by omega) (by omega) (by omega), Nat.add_sub_cancel]
    exact hbit
  · intro i _ j _ heq
    exact Nat.add_right_cancel heq
  · intro k hk
    obtain ⟨hrng, hmark⟩ := Finset.mem_filter.mp hk
    obtain ⟨hge, hlt⟩ := Finset.mem_Ico.mp hrng
    refine ⟨k - start, Finset.mem_filter.mpr ⟨Finset.mem_Ico.mpr ⟨by omega, by omega⟩, ?_⟩,
      by omega⟩
    rw [h k (by omega) hlt (by omega)]
    exact hmark

end

end Babylon.Lib
