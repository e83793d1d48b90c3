/-
  Events queued under ordered keys.

  A queue is a store of lists.  Events are appended under a key and removed by
  deleting whole keys.  What matters about such a queue is how often an event is
  in it, and that processing a range of keys takes out exactly what it visits.
-/
import Babylon.Lib.KVStore

set_option autoImplicit false

namespace Babylon.Lib.KVStore

variable {K A : Type} [LinearOrder K]

/-- The events under a key, oldest first. -/
def queue (store : KVStore K (List A)) (key : K) : List A := (store.get key).getD []

/-- Append an event under a key. -/
def enqueue (store : KVStore K (List A)) (key : K) (event : A) : KVStore K (List A) :=
  store.set key (store.queue key ++ [event])

theorem queue_enqueue (store : KVStore K (List A)) (key other : K) (event : A) :
    (store.enqueue key event).queue other
      = if other = key then store.queue key ++ [event] else store.queue other := by
  unfold enqueue queue
  rw [get_set]
  split <;> rfl

theorem queue_foldl_delete (store : KVStore K (List A)) (keys : List K) (key : K) :
    (keys.foldl delete store).queue key = if key ∈ keys then [] else store.queue key := by
  unfold queue
  rw [get_foldl_delete]
  split <;> rfl

variable {store : KVStore K (List A)}

section Counting

variable [DecidableEq A]

/-- How often an event is queued. -/
def queued (store : KVStore K (List A)) (event : A) : Nat :=
  store.sumBy fun _ events => events.count event

theorem elim_count_queue (store : KVStore K (List A)) (key : K) (event : A) :
    (store.get key).elim 0 (fun events => events.count event) = (store.queue key).count event := by
  unfold queue
  cases store.get key <;> simp

theorem queued_enqueue (store : KVStore K (List A)) (key : K) (event other : A) :
    (store.enqueue key event).queued other
      = store.queued other + if event = other then 1 else 0 := by
  have hset := sumBy_set store key (store.queue key ++ [event]) fun _ events => events.count other
  rw [elim_count_queue, List.count_append, List.count_singleton, ← Nat.add_assoc,
    Nat.add_right_comm] at hset
  simpa [queued, enqueue] using Nat.add_right_cancel hset

/-- Deleting keys removes as many copies of an event as the keys held. -/
theorem queued_foldl_delete (store : KVStore K (List A)) {keys : List K} (hnd : keys.Nodup)
    (event : A) :
    (keys.foldl delete store).queued event + (keys.flatMap store.queue).count event
      = store.queued event := by
  induction keys generalizing store with
  | nil => simp
  | cons key rest ih =>
    obtain ⟨hkey, hrest⟩ := List.nodup_cons.mp hnd
    have hoth : rest.flatMap (store.delete key).queue = rest.flatMap store.queue := by
      refine List.flatMap_congr fun other ho => ?_
      have hne : other ≠ key := by
        rintro rfl
        exact hkey ho
      simp [queue, get_delete, hne]
    have hloop := ih (store.delete key) hrest
    have hdelete := sumBy_delete store key fun _ events => events.count event
    rw [elim_count_queue] at hdelete
    rw [hoth] at hloop
    rw [List.foldl_cons, List.flatMap_cons, List.count_append]
    unfold queued at hloop ⊢
    omega

theorem queued_eq_zero {event : A} (h : ∀ key, event ∉ store.queue key) :
    store.queued event = 0 := by
  refine sumBy_eq_zero fun key events hget => List.count_eq_zero.mpr ?_
  have hnot := h key
  rwa [queue, hget] at hnot

theorem not_mem_of_queued_eq_zero {event : A} (h : store.queued event = 0) (key : K) :
    event ∉ store.queue key := by
  intro hmem
  have hdelete := sumBy_delete store key fun _ events => events.count event
  rw [elim_count_queue] at hdelete
  have hpos := List.count_pos_iff.mpr hmem
  unfold queued at h
  omega

theorem exists_of_queued_pos {event : A} (h : 0 < store.queued event) :
    ∃ key, event ∈ store.queue key := by
  by_contra hnone
  rw [queued_eq_zero fun key hmem => hnone ⟨key, hmem⟩] at h
  exact absurd h (Nat.lt_irrefl 0)

end Counting

end Babylon.Lib.KVStore
