/-
  Logs of linked blocks with an index from block identifiers to positions.

  A log keeps its blocks under consecutive positions and, in a second store, the
  position of every block under the identifier of the block.  Blocks are appended
  at the top and removed from the top.  `Chained` says that the log spans a range
  of positions, that neighbouring blocks are linked, and that the second store is
  the inverse of the first, with no identifier left over from a removed block.

  Identifiers of linked blocks grow in some rank (a hash cannot be known before
  what it is the hash of), so no two blocks of a chained log share one.
-/
import Babylon.Lib.KVStore

set_option autoImplicit false

namespace Babylon.Lib

/-- Blocks by position, and positions by identifier. -/
structure IndexedLog (B I : Type) [LinearOrder I] where
  blocks : KVStore Nat B
  index : KVStore I Nat

/-- How blocks are numbered, named and linked. -/
structure BlockShape (B I : Type) where
  position : B → Nat
  identifier : B → I
  /-- the second block may stand on the first -/
  links : B → B → Prop

namespace IndexedLog

variable {B I : Type} [LinearOrder I] (shape : BlockShape B I)

/-- Write a block under its position and index it. -/
def insert (log : IndexedLog B I) (b : B) : IndexedLog B I where
  blocks := log.blocks.set (shape.position b) b
  index := log.index.set (shape.identifier b) (shape.position b)

/-- Remove a block and its index entry. -/
def remove (log : IndexedLog B I) (b : B) : IndexedLog B I where
  blocks := log.blocks.delete (shape.position b)
  index := log.index.delete (shape.identifier b)

/-- The log holds linked blocks at the positions from `first` to `last`, and its
index is the inverse of the map from positions to blocks. -/
structure Chained (first last : Nat) (log : IndexedLog B I) : Prop where
  first_le : first ≤ last
  occupied : ∀ n, (log.blocks.get n).isSome = true ↔ first ≤ n ∧ n ≤ last
  position : ∀ n b, log.blocks.get n = some b → shape.position b = n
  linked : ∀ n a b, log.blocks.get n = some a → log.blocks.get (n + 1) = some b → shape.links a b
  index : ∀ i n, log.index.get i = some n ↔ ∃ b, log.blocks.get n = some b ∧ shape.identifier b = i

variable {shape} {first last : Nat} {log : IndexedLog B I} {rank : I → Nat}

namespace Chained

section

variable (h : Chained shape first last log)

include h

theorem bounds {n : Nat} {b : B} (hget : log.blocks.get n = some b) : first ≤ n ∧ n ≤ last :=
  (h.occupied n).mp (by rw [hget]; rfl)

theorem exists_block {n : Nat} (hfirst : first ≤ n)
    (hlast : n ≤ last) : ∃ b, log.blocks.get n = some b :=
  Option.isSome_iff_exists.mp ((h.occupied n).mpr ⟨hfirst, hlast⟩)

/-- The topmost block is what a reverse iterator meets first. -/
theorem last? : ∃ top, log.blocks.get last = some top ∧ log.blocks.last? = some (last, top) := by
  obtain ⟨top, htop⟩ := h.exists_block h.first_le le_rfl
  cases hlast : log.blocks.last? with
  | none =>
    have hnone := KVStore.last?_eq_none.mp hlast last
    rw [htop] at hnone
    cases hnone
  | some entry =>
    have hget : log.blocks.get entry.1 = some entry.2 := KVStore.get_of_last? hlast
    have hle : last ≤ entry.1 := KVStore.le_last? hlast htop
    have heq : entry.1 = last := le_antisymm (h.bounds hget).2 hle
    rw [heq, htop] at hget
    exact ⟨top, htop, congrArg some (Prod.ext heq (Option.some.inj hget).symm)⟩

section

variable (hrank : ∀ a b, shape.links a b → rank (shape.identifier a) < rank (shape.identifier b))

include hrank

/-- Along the log the rank of the identifiers grows. -/
theorem rank_lt
    {n m : Nat} {a b : B} (ha : log.blocks.get n = some a) (hb : log.blocks.get m = some b)
    (hlt : n < m) : rank (shape.identifier a) < rank (shape.identifier b) := by
  induction m, hlt using Nat.le_induction generalizing b with
  | base => exact hrank a b (h.linked n a b ha hb)
  | succ m hnm ih =>
    obtain ⟨c, hc⟩ := h.exists_block
      (le_trans (h.bounds ha).1 (le_trans (Nat.le_succ n) hnm))
      (le_trans (Nat.le_succ m) (h.bounds hb).2)
    exact lt_trans (ih hc) (hrank c b (h.linked m c b hc hb))

/-- Appending a block that stands on the topmost one. -/
theorem insert
    {top b : B} (htop : log.blocks.get last = some top) (hlink : shape.links top b)
    (hposn : shape.position b = last + 1) :
    Chained shape first (last + 1) (log.insert shape b) := by
  have hget : ∀ n, (log.insert shape b).blocks.get n =
      if n = last + 1 then some b else log.blocks.get n := by
    intro n
    rw [IndexedLog.insert, KVStore.get_set, hposn]
  have hold : ∀ {n c}, log.blocks.get n = some c → n ≠ last + 1 := by
    intro n c hc heq
    have := (h.bounds hc).2
    omega
  -- the identifier of the new block ranks above those of all blocks below it
  have hfr : ∀ n c, log.blocks.get n = some c → shape.identifier c ≠ shape.identifier b := by
    intro n c hc heq
    have htopLt := hrank top b hlink
    rcases Nat.lt_or_ge n last with hlt | hge
    · have := h.rank_lt hrank hc htop hlt
      rw [heq] at this
      omega
    · obtain rfl : n = last := le_antisymm (h.bounds hc).2 hge
      obtain rfl : c = top := Option.some.inj (hc.symm.trans htop)
      rw [heq] at htopLt
      omega
  refine ⟨le_trans h.first_le (Nat.le_succ _), ?_, ?_, ?_, ?_⟩
  · intro n
    rw [hget]
    split
    case isTrue heq =>
      have := h.first_le
      simp only [Option.isSome_some, true_iff]
      omega
    case isFalse hne =>
      rw [h.occupied]
      omega
  · intro n c hc
    rw [hget] at hc
    split at hc
    case isTrue heq => exact Option.some.inj hc ▸ hposn.trans heq.symm
    case isFalse => exact h.position n c hc
  · intro n a c ha hc
    rw [hget] at ha hc
    split at hc
    case isTrue heq =>
      obtain rfl : n = last := by omega
      rw [if_neg (by omega), htop] at ha
      exact Option.some.inj ha ▸ Option.some.inj hc ▸ hlink
    case isFalse hne =>
      have hn : n ≠ last + 1 := by
        have := (h.bounds hc).2
        omega
      rw [if_neg hn] at ha
      exact h.linked n a c ha hc
  · intro i n
    rw [hget]
    unfold IndexedLog.insert
    rw [KVStore.get_set, hposn]
    constructor
    · intro hi
      split at hi
      case isTrue heq =>
        obtain rfl := Option.some.inj hi
        exact ⟨b, if_pos rfl, heq.symm⟩
      case isFalse =>
        obtain ⟨c, hc, hid⟩ := (h.index i n).mp hi
        exact ⟨c, by rw [if_neg (hold hc), hc], hid⟩
    · rintro ⟨c, hc, hid⟩
      split at hc
      case isTrue heq =>
        obtain rfl := Option.some.inj hc
        rw [if_pos hid.symm, heq]
      case isFalse =>
        have hne : i ≠ shape.identifier b := fun heq => hfr n c hc (hid.trans heq)
        rw [if_neg hne]
        exact (h.index i n).mpr ⟨c, hc, hid⟩

end

end

end Chained

theorem blocks_foldl_remove (removed : List B) (log : IndexedLog B I) :
    (removed.foldl (remove shape) log).blocks =
      (removed.map shape.position).foldl KVStore.delete log.blocks := by
  induction removed generalizing log with
  | nil => rfl
  | cons b rest ih => exact ih (log.remove shape b)

theorem index_foldl_remove (removed : List B) (log : IndexedLog B I) :
    (removed.foldl (remove shape) log).index =
      (removed.map shape.identifier).foldl KVStore.delete log.index := by
  induction removed generalizing log with
  | nil => rfl
  | cons b rest ih => exact ih (log.remove shape b)

section

variable (h : Chained shape first last log) {m : Nat} {removed : List B}
  (hrmv : ∀ b, b ∈ removed ↔ ∃ n, m < n ∧ log.blocks.get n = some b)

include h hrmv

/-- Removing the blocks above a position leaves those up to it. -/
theorem Chained.get_removeAbove (n : Nat) :
    (removed.foldl (remove shape) log).blocks.get n =
      if n ≤ m then log.blocks.get n else none := by
  rw [blocks_foldl_remove, KVStore.get_foldl_delete]
  split
  case isTrue hmem =>
    obtain ⟨b, hb, rfl⟩ := List.mem_map.mp hmem
    obtain ⟨k, hk, hget⟩ := (hrmv b).mp hb
    rw [h.position k b hget, if_neg (by omega)]
  case isFalse hmem =>
    split
    case isTrue => rfl
    case isFalse hn =>
      cases hget : log.blocks.get n with
      | none => rfl
      | some b =>
        have hb : b ∈ removed := (hrmv b).mpr ⟨n, by omega, hget⟩
        exact absurd (List.mem_map.mpr ⟨b, hb, h.position n b hget⟩) hmem

/-- A chained log stays chained when all blocks above one of its positions are removed. -/
theorem Chained.removeAbove
    (hrank : ∀ a b, shape.links a b → rank (shape.identifier a) < rank (shape.identifier b))
    (hfirst : first ≤ m) (hlast : m ≤ last) :
    Chained shape first m (removed.foldl (remove shape) log) := by
  have hget := h.get_removeAbove hrmv
  have hkept : ∀ {n c}, (removed.foldl (remove shape) log).blocks.get n = some c →
      n ≤ m ∧ log.blocks.get n = some c := by
    intro n c hc
    rw [hget] at hc
    split at hc
    case isTrue hn => exact ⟨hn, hc⟩
    case isFalse => cases hc
  refine ⟨hfirst, ?_, ?_, ?_, ?_⟩
  · intro n
    rw [hget]
    split
    case isTrue hn =>
      rw [h.occupied]
      omega
    case isFalse hn =>
      simp only [Option.isSome_none, Bool.false_eq_true, false_iff]
      omega
  · intro n b hb
    exact h.position n b (hkept hb).2
  · intro n a b ha hb
    exact h.linked n a b (hkept ha).2 (hkept hb).2
  · intro i n
    rw [index_foldl_remove, KVStore.get_foldl_delete, hget]
    constructor
    · intro hi
      split at hi
      case isTrue => cases hi
      case isFalse hmem =>
        obtain ⟨b, hb, hid⟩ := (h.index i n).mp hi
        refine ⟨b, ?_, hid⟩
        have hn : n ≤ m := by
          by_contra hn
          exact hmem (List.mem_map.mpr ⟨b, (hrmv b).mpr ⟨n, by omega, hb⟩, hid⟩)
        rw [if_pos hn, hb]
    · rintro ⟨b, hb, hid⟩
      split at hb
      case isFalse => cases hb
      case isTrue hn =>
        -- a removed block with this identifier would stand above `b` and rank higher
        rw [if_neg, (h.index i n).mpr ⟨b, hb, hid⟩]
        intro hmem
        obtain ⟨c, hc, hcid⟩ := List.mem_map.mp hmem
        obtain ⟨k, hk, hck⟩ := (hrmv c).mp hc
        have := h.rank_lt hrank hb hck (by omega)
        rw [hid, hcid] at this
        omega

end

end IndexedLog

end Babylon.Lib
