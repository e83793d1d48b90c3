/-
  Ordered key-value stores.

  A store is the list of its entries in strictly increasing key order, the
  order in which an iterator over a prefix of the underlying database visits
  them.  The invariant is a field, so two stores with the same lookups are
  equal and no operation has to be given an ordering hypothesis.
-/
import Mathlib.Algebra.BigOperators.Finprod
import Mathlib.Algebra.BigOperators.Group.List.Basic
import Mathlib.Algebra.BigOperators.Ring.Finset
import Mathlib.Algebra.Order.BigOperators.Group.List
import Mathlib.Algebra.Order.Ring.Nat
import Mathlib.Order.Basic
import Mathlib.Data.List.Sort

set_option autoImplicit false

namespace Babylon.Lib

section Entries

variable {K V : Type} [LinearOrder K]

/-- The value stored under `key` in an association list. -/
def lookupKey (key : K) : List (K × V) → Option V
  | [] => none
  | (k, v) :: rest => if key = k then some v else lookupKey key rest

/-- Write `value` under `key`, keeping the entries ordered by key. -/
def insertKey (key : K) (value : V) : List (K × V) → List (K × V)
  | [] => [(key, value)]
  | (k, v) :: rest =>
    if key < k then (key, value) :: (k, v) :: rest
    else if key = k then (key, value) :: rest
    else (k, v) :: insertKey key value rest

/-- Remove the entry of `key`. -/
def eraseKey (key : K) (entries : List (K × V)) : List (K × V) :=
  entries.filter fun entry => entry.1 ≠ key

/-- Entries in strictly increasing key order. -/
abbrev KeySorted (entries : List (K × V)) : Prop :=
  entries.Pairwise fun left right => left.1 < right.1

theorem lookupKey_insertKey (key other : K) (value : V) (entries : List (K × V)) :
    lookupKey other (insertKey key value entries) =
      if other = key then some value else lookupKey other entries := by
  induction entries with
  | nil => simp [insertKey, lookupKey]
  | cons head rest ih =>
    rcases head with ⟨k, v⟩
    unfold insertKey
    split_ifs with hlt heq ho ho ho <;> simp_all [lookupKey]

variable {entries : List (K × V)}

theorem mem_insertKey {key : K} {value : V} {entry : K × V}
    (h : entry ∈ insertKey key value entries) :
    entry = (key, value) ∨ entry ∈ entries := by
  induction entries with
  | nil => simpa [insertKey] using h
  | cons head rest ih =>
    rcases head with ⟨k, v⟩
    unfold insertKey at h
    split_ifs at h with hlt heq
    · simpa using h
    · rcases List.mem_cons.mp h with h | h
      · exact .inl h
      · exact .inr (List.mem_cons_of_mem _ h)
    · rcases List.mem_cons.mp h with h | h
      · exact .inr (h ▸ List.mem_cons_self)
      · exact (ih h).imp id (List.mem_cons_of_mem _)

theorem keySorted_insertKey (key : K) (value : V) (h : KeySorted entries) :
    KeySorted (insertKey key value entries) := by
  induction entries with
  | nil => simp [insertKey, KeySorted]
  | cons head rest ih =>
    rcases head with ⟨k, v⟩
    obtain ⟨hhead, hrest⟩ := List.pairwise_cons.mp h
    unfold insertKey
    split_ifs with hlt heq
    · refine List.pairwise_cons.mpr ⟨?_, h⟩
      intro entry hmem
      rcases List.mem_cons.mp hmem with rfl | hmem
      · exact hlt
      · exact hlt.trans (hhead entry hmem)
    · subst heq
      exact List.pairwise_cons.mpr ⟨hhead, hrest⟩
    · refine List.pairwise_cons.mpr ⟨?_, ih hrest⟩
      intro entry hmem
      rcases mem_insertKey hmem with rfl | hmem
      · exact lt_of_le_of_ne (not_lt.mp hlt) (Ne.symm heq)
      · exact hhead entry hmem

theorem lookupKey_eq_none_of_lt {key : K} (h : ∀ entry ∈ entries, key < entry.1) :
    lookupKey key entries = none := by
  induction entries with
  | nil => rfl
  | cons head rest ih =>
    have hne : key ≠ head.1 := (h head List.mem_cons_self).ne
    simp only [lookupKey, if_neg hne]
    exact ih fun entry hmem => h entry (List.mem_cons_of_mem _ hmem)

/-- In an ordered list the lookups are exactly the entries. -/
theorem mem_iff_lookupKey (h : KeySorted entries) {key : K} {value : V} :
    (key, value) ∈ entries ↔ lookupKey key entries = some value := by
  induction entries with
  | nil => simp [lookupKey]
  | cons head rest ih =>
    rcases head with ⟨k, v⟩
    obtain ⟨hhead, hrest⟩ := List.pairwise_cons.mp h
    by_cases hk : key = k
    · subst hk
      have hnone : lookupKey key rest = none := lookupKey_eq_none_of_lt hhead
      have hnot : (key, value) ∉ rest := by
        intro hmem
        exact absurd (hhead _ hmem) (lt_irrefl key)
      simp [lookupKey, hnot, eq_comm]
    · simp [lookupKey, hk, ih hrest]

theorem lookupKey_eraseKey (key other : K) (entries : List (K × V)) :
    lookupKey other (eraseKey key entries) =
      if other = key then none else lookupKey other entries := by
  induction entries with
  | nil => simp [eraseKey, lookupKey]
  | cons head rest ih =>
    rcases head with ⟨k, v⟩
    unfold eraseKey at ih ⊢
    rw [List.filter_cons]
    by_cases hk : k = key <;> by_cases ho : other = k <;> simp_all [lookupKey]

theorem insertKey_perm_of_lookupKey_eq_none {key : K} (value : V)
    (h : lookupKey key entries = none) :
    (insertKey key value entries).Perm ((key, value) :: entries) := by
  induction entries with
  | nil => rfl
  | cons head rest ih =>
    rcases head with ⟨k, v⟩
    have hne : key ≠ k := by
      intro heq
      simp [lookupKey, heq] at h
    have hrest : lookupKey key rest = none := by simpa [lookupKey, hne] using h
    unfold insertKey
    split_ifs with hlt
    · rfl
    · exact ((ih hrest).cons (k, v)).trans (List.Perm.swap _ _ _)

theorem eq_of_lookupKey_eq {left right : List (K × V)} (hl : KeySorted left) (hr : KeySorted right)
    (h : ∀ key, lookupKey key left = lookupKey key right) : left = right := by
  have hnd : ∀ {entries : List (K × V)}, KeySorted entries → entries.Nodup := by
    intro entries hs
    exact hs.imp fun hlt heq => absurd (heq ▸ hlt) (lt_irrefl _)
  have hperm : left.Perm right := by
    refine (List.perm_ext_iff_of_nodup (hnd hl) (hnd hr)).mpr ?_
    rintro ⟨key, value⟩
    rw [mem_iff_lookupKey hl, mem_iff_lookupKey hr, h key]
  refine hperm.eq_of_pairwise ?_ hl hr
  intro a b _ _ hab hba
  exact absurd (hab.trans hba) (lt_irrefl _)

end Entries

/-- A key-value store, as the ordered list of its entries. -/
structure KVStore (K V : Type) [LinearOrder K] where
  entries : List (K × V)
  sorted : KeySorted entries

namespace KVStore

variable {K V : Type} [LinearOrder K]

/-- The empty store. -/
def empty : KVStore K V := ⟨[], List.Pairwise.nil⟩

/-- Read a key. -/
def get (store : KVStore K V) (key : K) : Option V :=
  lookupKey key store.entries

/-- Whether a key is present. -/
def has (store : KVStore K V) (key : K) : Bool :=
  (store.get key).isSome

/-- Write a key. -/
def set (store : KVStore K V) (key : K) (value : V) : KVStore K V :=
  ⟨insertKey key value store.entries, keySorted_insertKey key value store.sorted⟩

/-- Delete a key. -/
def delete (store : KVStore K V) (key : K) : KVStore K V :=
  ⟨eraseKey key store.entries, store.sorted.filter _⟩

/-- The keys in increasing order. -/
def keys (store : KVStore K V) : List K := store.entries.map Prod.fst

/-- The entry with the smallest key, as a forward iterator finds it. -/
def first? (store : KVStore K V) : Option (K × V) := store.entries.head?

/-- The entry with the largest key, as a reverse iterator finds it. -/
def last? (store : KVStore K V) : Option (K × V) := store.entries.getLast?

/-- The number of entries. -/
def size (store : KVStore K V) : Nat := store.entries.length

/-- Sum of a quantity over all entries. -/
def sumBy {M : Type} [AddCommMonoid M] (store : KVStore K V) (f : K → V → M) : M :=
  (store.entries.map fun entry => f entry.1 entry.2).sum

@[simp] theorem get_empty (key : K) : (empty : KVStore K V).get key = none := rfl

theorem get_set (store : KVStore K V) (key other : K) (value : V) :
    (store.set key value).get other = if other = key then some value else store.get other :=
  lookupKey_insertKey key other value store.entries

@[simp] theorem get_set_self (store : KVStore K V) (key : K) (value : V) :
    (store.set key value).get key = some value := by
  simp [get_set]

variable {key other : K}

theorem get_set_of_ne (store : KVStore K V) (value : V) (h : other ≠ key) :
    (store.set key value).get other = store.get other := by
  simp [get_set, h]

theorem get_delete (store : KVStore K V) (key other : K) :
    (store.delete key).get other = if other = key then none else store.get other :=
  lookupKey_eraseKey key other store.entries

theorem get_delete_self (store : KVStore K V) (key : K) : (store.delete key).get key = none := by
  rw [get_delete, if_pos rfl]

theorem get_foldl_delete (store : KVStore K V) (keys : List K) (key : K) :
    (keys.foldl delete store).get key = if key ∈ keys then none else store.get key := by
  induction keys generalizing store with
  | nil => simp
  | cons first rest ih =>
    rw [List.foldl_cons, ih, get_delete]
    by_cases hrest : key ∈ rest <;> by_cases hfirst : key = first <;> simp [hrest, hfirst]

variable {store : KVStore K V} {value : V}

theorem mem_entries : (key, value) ∈ store.entries ↔ store.get key = some value :=
  mem_iff_lookupKey store.sorted

variable {left right : KVStore K V}

/-- Stores are determined by their lookups. -/
theorem ext_get (h : ∀ key, left.get key = right.get key) : left = right := by
  rcases left with ⟨left, hl⟩
  rcases right with ⟨right, hr⟩
  have heq : left = right := eq_of_lookupKey_eq hl hr h
  subst heq
  rfl

theorem set_eq_self_of_get (h : store.get key = some value) : store.set key value = store := by
  refine ext_get fun other => ?_
  rw [get_set]
  split_ifs with heq
  · rw [heq, h]
  · rfl

theorem set_set (store : KVStore K V) (key : K) (first second : V) :
    (store.set key first).set key second = store.set key second := by
  refine ext_get fun other => ?_
  rw [get_set, get_set, get_set]
  split_ifs <;> rfl

theorem set_delete (store : KVStore K V) (key : K) (value : V) :
    (store.delete key).set key value = store.set key value := by
  refine ext_get fun other => ?_
  rw [get_set, get_set, get_delete]
  split_ifs <;> rfl

theorem set_comm (store : KVStore K V) (h : key ≠ other) (value value' : V) :
    (store.set key value).set other value' = (store.set other value').set key value := by
  refine ext_get fun k => ?_
  rw [get_set, get_set, get_set, get_set]
  split_ifs with ho hkey
  · exact absurd (hkey.symm.trans ho) h
  · rfl
  · rfl
  · rfl

/-- What is found after a write was written, or was there before. -/
theorem of_get_set {found : V} (h : (store.set key value).get other = some found) :
    other = key ∧ value = found ∨ other ≠ key ∧ store.get other = some found := by
  rw [get_set] at h
  split at h
  case isTrue heq => exact .inl ⟨heq, Option.some.inj h⟩
  case isFalse hne => exact .inr ⟨hne, h⟩

/-- A property of all entries is kept by a write that has it. -/
theorem forall_set {P : K → V → Prop} (h : ∀ key value, store.get key = some value → P key value)
    (hnew : P key value) (other : K) (found : V)
    (hget : (store.set key value).get other = some found) : P other found := by
  obtain ⟨rfl, rfl⟩ | ⟨-, hold⟩ := of_get_set hget
  · exact hnew
  · exact h other found hold

theorem nodup_keys (store : KVStore K V) : store.keys.Nodup := by
  exact List.Pairwise.map _ (fun _ _ hlt => hlt.ne) store.sorted

theorem mem_keys : key ∈ store.keys ↔ ∃ value, store.get key = some value := by
  constructor
  · intro h
    obtain ⟨⟨k, value⟩, hmem, rfl⟩ := List.mem_map.mp h
    exact ⟨value, mem_entries.mp hmem⟩
  · rintro ⟨value, h⟩
    exact List.mem_map.mpr ⟨(key, value), mem_entries.mpr h, rfl⟩

theorem get_of_first? (h : store.first? = some (key, value)) : store.get key = some value :=
  mem_entries.mp (List.mem_of_mem_head? h)

theorem first?_le {v : V} (h : store.first? = some (key, value)) (ho : store.get other = some v) :
    key ≤ other := by
  have hmem := mem_entries.mpr ho
  have hsrt := store.sorted
  obtain ⟨rest, hents⟩ := List.head?_eq_some_iff.mp h
  rw [hents] at hmem hsrt
  rcases List.mem_cons.mp hmem with heq | hmem
  · exact (congrArg Prod.fst heq).ge
  · exact ((List.pairwise_cons.mp hsrt).1 _ hmem).le

theorem first?_eq_none : store.first? = none ↔ ∀ key, store.get key = none := by
  unfold first?
  rw [List.head?_eq_none_iff]
  constructor
  · intro h key
    simp [get, h, lookupKey]
  · intro h
    refine List.eq_nil_iff_forall_not_mem.mpr ?_
    rintro ⟨key, value⟩ hmem
    exact absurd (mem_entries.mp hmem) (by simp [h key])

theorem get_of_last? (h : store.last? = some (key, value)) : store.get key = some value :=
  mem_entries.mp (List.mem_of_getLast? h)

theorem le_last? {v : V} (h : store.last? = some (key, value)) (ho : store.get other = some v) :
    other ≤ key := by
  have hmem := mem_entries.mpr ho
  obtain ⟨initial, hinitial⟩ := List.getLast?_eq_some_iff.mp h
  have hsrt := store.sorted
  rw [hinitial] at hmem hsrt
  rcases List.mem_append.mp hmem with hmem | hmem
  · exact ((List.pairwise_append.mp hsrt).2.2 _ hmem _ (List.mem_singleton_self _)).le
  · simp only [List.mem_singleton, Prod.mk.injEq] at hmem
    exact hmem.1.le

theorem last?_eq_none : store.last? = none ↔ ∀ key, store.get key = none := by
  rw [← first?_eq_none]
  simp [last?, first?]

theorem keys_getLast? (store : KVStore K V) : store.keys.getLast? = store.last?.map Prod.fst :=
  List.getLast?_map

/-- Writing a key above all others appends it. -/
theorem entries_set_of_forall_lt (h : ∀ other ∈ store.keys, other < key) :
    (store.set key value).entries = store.entries ++ [(key, value)] := by
  have happend : ∀ entries : List (K × V), (∀ entry ∈ entries, entry.1 < key) →
      insertKey key value entries = entries ++ [(key, value)] := by
    intro entries hlt
    induction entries with
    | nil => rfl
    | cons head rest ih =>
      rcases head with ⟨k, v⟩
      have hk : k < key := hlt (k, v) List.mem_cons_self
      rw [insertKey, if_neg hk.not_gt, if_neg hk.ne',
        ih fun entry hmem => hlt entry (List.mem_cons_of_mem _ hmem)]
      rfl
  exact happend store.entries fun entry hmem => h entry.1 (List.mem_map_of_mem hmem)

theorem keys_set_of_forall_lt (h : ∀ other ∈ store.keys, other < key) :
    (store.set key value).keys = store.keys ++ [key] := by
  unfold keys
  rw [entries_set_of_forall_lt h, List.map_append]
  rfl

theorem size_set_of_none (h : store.get key = none) :
    (store.set key value).size = store.size + 1 := by
  simpa [size, set] using (insertKey_perm_of_lookupKey_eq_none value h).length_eq

section Sums

variable {M : Type} [AddCommMonoid M]

theorem sumBy_set_of_none (f : K → V → M) (h : store.get key = none) :
    (store.set key value).sumBy f = f key value + store.sumBy f := by
  simpa [sumBy, set] using
    ((insertKey_perm_of_lookupKey_eq_none value h).map fun e => f e.1 e.2).sum_eq

theorem sumBy_delete (store : KVStore K V) (key : K) (f : K → V → M) :
    (store.delete key).sumBy f + (store.get key).elim 0 (f key) = store.sumBy f := by
  cases hget : store.get key with
  | none =>
    have hsame : store.delete key = store := by
      refine ext_get fun other => ?_
      rw [get_delete]
      split
      case isTrue heq => rw [heq, hget]
      case isFalse => rfl
    rw [hsame, Option.elim_none, add_zero]
  | some value =>
    rw [Option.elim_some, add_comm, ← sumBy_set_of_none f (get_delete_self store key), set_delete,
      set_eq_self_of_get hget]

/-- A written entry takes the place of the old one, if there was one. -/
theorem sumBy_set (store : KVStore K V) (key : K) (value : V) (f : K → V → M) :
    (store.set key value).sumBy f + (store.get key).elim 0 (f key)
      = store.sumBy f + f key value := by
  rw [← set_delete, sumBy_set_of_none f (get_delete_self store key), add_assoc, sumBy_delete,
    add_comm]

theorem size_set_of_some {old : V} (h : store.get key = some old) :
    (store.set key value).size = store.size := by
  have hset := sumBy_set store key value fun _ _ => 1
  rw [h] at hset
  simpa [sumBy, size] using hset

variable {f : K → V → M}

variable {g : K → V → M}

theorem sumBy_congr (h : ∀ key value, store.get key = some value → f key value = g key value) :
    store.sumBy f = store.sumBy g := by
  unfold sumBy
  congr 1
  refine List.map_congr_left fun entry hmem => ?_
  exact h entry.1 entry.2 (mem_entries.mp hmem)

theorem sumBy_add (store : KVStore K V) (f g : K → V → M) :
    (store.sumBy fun key value => f key value + g key value) = store.sumBy f + store.sumBy g := by
  exact List.sum_map_add

theorem sumBy_eq_zero (h : ∀ key value, store.get key = some value → f key value = 0) :
    store.sumBy f = 0 := by
  refine List.sum_eq_zero fun x hx => ?_
  obtain ⟨entry, hmem, rfl⟩ := List.mem_map.mp hx
  exact h entry.1 entry.2 (mem_entries.mp hmem)

theorem sumBy_eq_finsum (store : KVStore K V) (f : K → V → M) :
    store.sumBy f = ∑ᶠ key, (store.get key).elim 0 (f key) := by
  have hkeys : Function.support (fun key => (store.get key).elim 0 (f key)) ⊆
      store.keys.toFinset := by
    intro key hne
    rw [List.coe_toFinset]
    refine mem_keys.mpr (Option.ne_none_iff_exists'.mp fun hnone => hne ?_)
    simp only [hnone, Option.elim_none]
  rw [finsum_eq_sum_of_support_subset _ hkeys, List.sum_toFinset _ store.nodup_keys, keys,
    List.map_map]
  refine congrArg List.sum (List.map_congr_left fun entry hmem => ?_)
  rw [Function.comp_apply, mem_entries.mp hmem, Option.elim_some]

/-- Sums over two stores in which every key counts the same. -/
theorem sumBy_eq_sumBy
    (h : ∀ key, (left.get key).elim 0 (f key) = (right.get key).elim 0 (g key)) :
    left.sumBy f = right.sumBy g := by
  rw [sumBy_eq_finsum, sumBy_eq_finsum]
  exact finsum_congr h

/-- Sums over two stores that agree up to one key differ only there. -/
theorem exists_sumBy_of_agree_off (hget : ∀ other, other ≠ key → left.get other = right.get other)
    (hsame : ∀ other value, other ≠ key → right.get other = some value →
      f other value = g other value) :
    ∃ others, left.sumBy f = others + (left.get key).elim 0 (f key) ∧
      right.sumBy g = others + (right.get key).elim 0 (g key) := by
  have hdelete : left.delete key = right.delete key := by
    refine ext_get fun other => ?_
    rw [get_delete, get_delete]
    split
    case isTrue => rfl
    case isFalse hne => exact hget other hne
  refine ⟨(right.delete key).sumBy g, ?_, (sumBy_delete right key g).symm⟩
  rw [← sumBy_delete left key f, hdelete]
  congr 1
  refine sumBy_congr fun other value ho => ?_
  rw [get_delete] at ho
  split at ho
  case isTrue => cases ho
  case isFalse hne => exact hsame other value hne ho

/-- Apply a function to all values. -/
def map {W : Type} (store : KVStore K V) (f : V → W) : KVStore K W :=
  ⟨store.entries.map fun entry => (entry.1, f entry.2), List.pairwise_map.mpr store.sorted⟩

theorem get_map {W : Type} (store : KVStore K V) (f : V → W) (key : K) :
    (store.map f).get key = (store.get key).map f := by
  have hents : ∀ entries : List (K × V),
      lookupKey key (entries.map fun entry => (entry.1, f entry.2))
        = (lookupKey key entries).map f := by
    intro entries
    induction entries with
    | nil => rfl
    | cons entry rest ih =>
      simp only [List.map_cons, lookupKey]
      split
      case isTrue => rfl
      case isFalse => exact ih
  exact hents store.entries

theorem map_set {W : Type} (store : KVStore K V) (f : V → W) (key : K) (value : V) :
    (store.set key value).map f = (store.map f).set key (f value) := by
  refine ext_get fun other => ?_
  rw [get_map, get_set, get_set, get_map]
  split <;> rfl

theorem map_congr {W : Type} {f g : V → W}
    (h : ∀ key value, store.get key = some value → f value = g value) :
    store.map f = store.map g := by
  refine ext_get fun key => ?_
  rw [get_map, get_map]
  exact Option.map_congr fun value hget => h key value hget

theorem sumBy_map {W : Type} (store : KVStore K V) (f : V → W) (g : K → W → M) :
    (store.map f).sumBy g = store.sumBy fun key value => g key (f value) := by
  unfold sumBy map
  rw [List.map_map]
  rfl

/-- A sum with one entry that counts. -/
theorem sumBy_single (store : KVStore K V) (key : K) (f : V → M) :
    (store.sumBy fun k value => if k = key then f value else 0) = (store.get key).elim 0 f := by
  rw [sumBy_eq_finsum, finsum_eq_single _ key]
  · simp
  · intro k hne
    cases store.get k <;> simp [hne]

/-- A sum of integers that are not negative. -/
theorem sumBy_toNat {f : K → V → Int}
    (h : ∀ key value, store.get key = some value → 0 ≤ f key value) :
    ((store.sumBy fun key value => (f key value).toNat : Nat) : Int) = store.sumBy f := by
  unfold sumBy
  rw [Nat.cast_list_sum, List.map_map]
  refine congrArg List.sum (List.map_congr_left fun entry hmem => ?_)
  exact Int.toNat_of_nonneg (h entry.1 entry.2 (mem_entries.mp hmem))

theorem sumBy_le {f g : K → V → Nat}
    (h : ∀ key value, store.get key = some value → f key value ≤ g key value) :
    store.sumBy f ≤ store.sumBy g := by
  refine List.sum_le_sum fun entry hmem => ?_
  exact h entry.1 entry.2 (mem_entries.mp hmem)

/-- Two quorums of more than two thirds of the weight share more than one third. -/
theorem third_of_two_quorums {store : KVStore K Nat} {p q r : K → Prop} [DecidablePred p]
    [DecidablePred q] [DecidablePred r] (h : ∀ key, p key → q key → r key)
    (hp : store.sumBy (fun _ weight => weight) * 2 <
      store.sumBy (fun key weight => if p key then weight else 0) * 3)
    (hq : store.sumBy (fun _ weight => weight) * 2 <
      store.sumBy (fun key weight => if q key then weight else 0) * 3) :
    store.sumBy (fun _ weight => weight) <
      store.sumBy (fun key weight => if r key then weight else 0) * 3 := by
  -- the weights of both sets cover the whole weight and that of their common keys
  have hinter : store.sumBy (fun key weight =>
        (if p key then weight else 0) + if q key then weight else 0) ≤
      store.sumBy (fun key weight => weight + if r key then weight else 0) := by
    refine sumBy_le fun key weight _ => ?_
    have hboth := h key
    split_ifs <;> first | omega | exact absurd (hboth ‹_› ‹_›) ‹_›
  rw [sumBy_add, sumBy_add] at hinter
  omega

end Sums

/-! ## Stores of stores

A database whose keys are pairs is a store of stores, one for each first
component. -/

/-- The sum over a store of amounts, from a list of its positive entries. -/
theorem sumBy_eq_sum {store : KVStore K Nat} {items : List (K × Nat)}
    (hnd : (items.map Prod.fst).Nodup) (hpos : ∀ item ∈ items, 0 < item.2)
    (h : ∀ key value, 0 < value → (store.get key = some value ↔ (key, value) ∈ items)) :
    store.sumBy (fun _ value => value) = (items.map Prod.snd).sum := by
  have hfilter : ∀ entries : List (K × Nat), (entries.map Prod.snd).sum
      = ((entries.filter fun entry => 0 < entry.2).map Prod.snd).sum := by
    intro entries
    induction entries with
    | nil => rfl
    | cons entry rest ih =>
      by_cases hent : 0 < entry.2
      · simp [hent, ih]
      · simp [Nat.eq_zero_of_not_pos hent, ih]
  have hperm : (store.entries.filter fun entry => 0 < entry.2).Perm items := by
    refine (List.perm_ext_iff_of_nodup ?_ (List.Nodup.of_map _ hnd)).mpr ?_
    · exact (List.Nodup.of_map _ store.nodup_keys).filter _
    · rintro ⟨key, value⟩
      rw [List.mem_filter, mem_entries, decide_eq_true_eq]
      constructor
      · exact fun hent => (h key value hent.2).mp hent.1
      · exact fun hitem => ⟨(h key value (hpos _ hitem)).mpr hitem, hpos _ hitem⟩
  calc store.sumBy (fun _ value => value)
      = (store.entries.map Prod.snd).sum := rfl
    _ = ((store.entries.filter fun entry => 0 < entry.2).map Prod.snd).sum := hfilter _
    _ = (items.map Prod.snd).sum := (hperm.map _).sum_eq

variable {items : List (K × V)}

section Nested

variable {P : Type} [LinearOrder P]

/-- The entries whose keys start with `first`. -/
def under (store : KVStore P (KVStore K V)) (first : P) : KVStore K V :=
  (store.get first).getD empty

/-- Write the key made of `first` and `key`. -/
def setUnder (store : KVStore P (KVStore K V)) (first : P) (key : K) (value : V) :
    KVStore P (KVStore K V) :=
  store.set first ((store.under first).set key value)

@[simp] theorem under_empty (first : P) :
    (empty : KVStore P (KVStore K V)).under first = empty := rfl

variable (store : KVStore P (KVStore K V)) (first other : P)

theorem under_setUnder (key : K) (value : V) :
    (store.setUnder first key value).under other =
      if other = first then (store.under first).set key value else store.under other := by
  unfold setUnder under
  rw [get_set]
  split_ifs <;> rfl

theorem setUnder_setUnder (key : K) (old value : V) :
    (store.setUnder first key old).setUnder first key value = store.setUnder first key value := by
  have hunder : (store.setUnder first key old).under first = (store.under first).set key old :=
    (under_setUnder store first first key old).trans (if_pos rfl)
  unfold setUnder at hunder ⊢
  rw [hunder, set_set, set_set]

theorem get_under_setUnder (key k : K) (value : V) :
    ((store.setUnder first key value).under other).get k =
      if other = first ∧ k = key then some value else (store.under other).get k := by
  rw [under_setUnder]
  by_cases hfirst : other = first
  · subst hfirst
    rw [if_pos rfl, get_set]
    simp
  · simp [hfirst]

theorem forall_setUnder {Q : P → K → V → Prop} {key : K} {value : V}
    (h : ∀ first key value, (store.under first).get key = some value → Q first key value)
    (hnew : Q first key value) (other : P) (k : K) (found : V)
    (hget : ((store.setUnder first key value).under other).get k = some found) :
    Q other k found := by
  rw [get_under_setUnder] at hget
  split at hget
  case isTrue heq =>
    obtain ⟨rfl, rfl⟩ := heq
    cases hget
    exact hnew
  case isFalse => exact h other k found hget

/-- Write several keys that start with `first`. -/
def setMany (store : KVStore P (KVStore K V)) (first : P) (items : List (K × V)) :
    KVStore P (KVStore K V) :=
  items.foldl (fun store item => store.setUnder first item.1 item.2) store

theorem get_under_setMany_of_not_mem (h : key ∉ items.map Prod.fst) :
    ((store.setMany first items).under first).get key = (store.under first).get key := by
  unfold setMany
  induction items generalizing store with
  | nil => rfl
  | cons item rest ih =>
    rw [List.map_cons, List.mem_cons, not_or] at h
    rw [List.foldl_cons, ih _ h.2, get_under_setUnder, if_neg fun heq => h.1 heq.2]

/-- With different keys, every item is found under its key. -/
theorem get_under_setMany (hnd : (items.map Prod.fst).Nodup) (h : (key, value) ∈ items) :
    ((store.setMany first items).under first).get key = some value := by
  induction items generalizing store with
  | nil => simp at h
  | cons item rest ih =>
    rw [List.map_cons, List.nodup_cons] at hnd
    rcases List.mem_cons.mp h with rfl | hmem
    · have hlast := get_under_setMany_of_not_mem (store.setUnder first key value) first hnd.1
      rw [get_under_setUnder, if_pos ⟨rfl, rfl⟩] at hlast
      exact hlast
    · exact ih (store.setUnder first item.1 item.2) hnd.2 hmem

theorem get_setMany (h : other ≠ first ∨ items = []) :
    (store.setMany first items).get other = store.get other := by
  unfold setMany
  induction items generalizing store with
  | nil => rfl
  | cons item rest ih =>
    have hne : other ≠ first := h.resolve_right (List.cons_ne_nil _ _)
    rw [List.foldl_cons, ih _ (.inl hne), setUnder, get_set_of_ne _ _ hne]

theorem get_setMany_self (h : items ≠ []) :
    (store.setMany first items).get first = some ((store.setMany first items).under first) := by
  unfold setMany
  induction items generalizing store with
  | nil => exact absurd rfl h
  | cons item rest ih =>
    rw [List.foldl_cons]
    by_cases hrest : rest = []
    · subst hrest
      simp [setUnder, under]
    · exact ih _ hrest

variable {store first other}

/-- Writing keys removes nothing. -/
theorem isSome_get_setMany (h : (store.get other).isSome = true) :
    ((store.setMany first items).get other).isSome = true := by
  by_cases hsame : other ≠ first ∨ items = []
  · rwa [get_setMany _ _ _ hsame]
  · obtain ⟨ho, hitems⟩ := not_or.mp hsame
    rw [not_not.mp ho, get_setMany_self _ _ hitems]
    rfl

end Nested

end KVStore

end Babylon.Lib
