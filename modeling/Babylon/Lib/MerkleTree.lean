/-
  Merkle trees in the Bitcoin style.

  A level is paired up from the left and an odd last node is paired with
  itself.  An authentication path is walked from a leaf to the root with the
  bits of an index, lowest first.  The main result says what a walk that ends in
  the root proves when the combining function is injective: its length is the
  depth of the tree and the start is one of the leaves, the first one exactly
  when the bits that were consumed are all zero.  Which leaf it is follows from the
  index only if the index is below the number of leaves: higher bits are not consumed,
  and an odd last node can be reached as its own sibling.
-/
import Mathlib.Logic.Function.Basic
import Mathlib.Data.List.Induction
import Mathlib.Data.List.ReduceOption
import Mathlib.Data.Nat.Bitwise
import Mathlib.Data.Nat.Log
import Mathlib.Tactic.Common
import Mathlib.Tactic.Ring

set_option autoImplicit false

namespace Babylon.Lib.Merkle

variable {H : Type} (combine : H → H → H)

/-- One level up: combine neighbours, an odd last node with itself. -/
def nextLevel : List H → List H
  | [] => []
  | [a] => [combine a a]
  | a :: b :: rest => combine a b :: nextLevel rest

/-- The level at a given height above the leaves. -/
def level (leaves : List H) : Nat → List H
  | 0 => leaves
  | k + 1 => nextLevel combine (level leaves k)

/-- The root: go up until one node is left. -/
def rootWithin : Nat → List H → Option H
  | _, [] => none
  | _, [a] => some a
  | 0, _ => none
  | fuel + 1, nodes => rootWithin fuel (nextLevel combine nodes)

/-- The Merkle root of a list of leaves; a tree has fewer levels than leaves. -/
def root (leaves : List H) : Option H :=
  rootWithin combine leaves.length leaves

/-- Walk up an authentication path; bit `i` of the index says on which side the
`i`-th sibling stands. -/
def walk : H → List H → Nat → H
  | current, [], _ => current
  | current, next :: rest, index =>
    walk (if index % 2 = 1 then combine next current else combine current next) rest (index / 2)

/-- The levels of a tree one after the other, from the leaves to the root.  Each one is filled
up with empty places. -/
def flatten : Nat → List H → List (Option H)
  | 0, nodes => nodes.map some
  | depth + 1, nodes =>
    nodes.map some ++ List.replicate (2 ^ (depth + 1) - nodes.length) none ++
      flatten depth (nextLevel combine nodes)

variable {combine}

/-! ## Levels -/

/-- A node above the leaves combines its two children; the right child of an odd
last node is that node again. -/
theorem nextLevel_getElem? {nodes : List H} {position : Nat} {node : H}
    (h : (nextLevel combine nodes)[position]? = some node) :
    ∃ left right, nodes[2 * position]? = some left ∧
      node = combine left right ∧
      (nodes[2 * position + 1]? = some right ∨
        (nodes.length = 2 * position + 1 ∧ right = left)) := by
  fun_induction nextLevel combine nodes generalizing position with
  | case1 => simp at h
  | case2 a =>
    cases position with
    | zero =>
      obtain rfl : combine a a = node := by simpa using h
      exact ⟨a, a, rfl, rfl, .inr ⟨rfl, rfl⟩⟩
    | succ p => simp at h
  | case3 a b rest ih =>
    cases position with
    | zero =>
      obtain rfl : combine a b = node := by simpa using h
      exact ⟨a, b, rfl, rfl, .inl rfl⟩
    | succ p =>
      obtain ⟨left, right, hleft, hnode, hright⟩ := ih (by simpa using h)
      refine ⟨left, right, by simpa [Nat.mul_succ] using hleft, hnode, ?_⟩
      rcases hright with hright | ⟨hlen, hright⟩
      · exact .inl (by simpa [Nat.mul_succ] using hright)
      · refine .inr ⟨?_, hright⟩
        simp only [List.length_cons, hlen]
        omega

/-- The root is the only node of the first level that has one. -/
theorem exists_depth_of_rootWithin {fuel : Nat} {nodes : List H} {r : H}
    (h : rootWithin combine fuel nodes = some r) :
    ∃ depth, level combine nodes depth = [r] ∧
      ∀ k < depth, 2 ≤ (level combine nodes k).length := by
  have hshift : ∀ (nodes : List H) (k : Nat),
      level combine (nextLevel combine nodes) k = level combine nodes (k + 1) := by
    intro nodes k
    induction k with
    | zero => rfl
    | succ k ih => rw [level, ih, ← level]
  fun_induction rootWithin combine fuel nodes with
  | case1 => cases h
  | case2 fuel a =>
    obtain rfl : a = r := by simpa using h
    exact ⟨0, rfl, by simp⟩
  | case3 nodes hnil hone => cases h
  | case4 fuel nodes hnil hone ih =>
    obtain ⟨depth, hdep, hlong⟩ := ih h
    refine ⟨depth + 1, by rw [← hshift, hdep], ?_⟩
    intro k hk
    cases k with
    | zero =>
      rcases nodes with _ | ⟨a, _ | ⟨b, rest⟩⟩
      · exact absurd rfl hnil
      · exact absurd rfl (hone a)
      · simp [level]
    | succ k =>
      rw [← hshift]
      exact hlong k (by omega)

theorem length_nextLevel (combine : H → H → H) (nodes : List H) :
    (nextLevel combine nodes).length = (nodes.length + 1) / 2 := by
  fun_induction nextLevel combine nodes with
  | case1 | case2 => simp
  | case3 a b rest ih =>
    simp only [List.length_cons, ih]
    omega

/-- The node above a node combines it with its sibling, which is the node itself if it is an
odd last one. -/
theorem nextLevel_half (combine : H → H → H) {nodes : List H} {index : Nat} {node : H}
    (h : nodes[index]? = some node) :
    ∃ sibling, nodes[min (index ^^^ 1) (nodes.length - 1)]? = some sibling ∧
      (nextLevel combine nodes)[index / 2]? =
        some (if index % 2 = 1 then combine sibling node else combine node sibling) := by
  obtain ⟨hlt, -⟩ := List.getElem?_eq_some_iff.mp h
  have hup : index / 2 < (nextLevel combine nodes).length := by rw [length_nextLevel]; omega
  obtain ⟨left, right, hleft, hnode, hright⟩ := nextLevel_getElem? (List.getElem?_eq_getElem hup)
  rw [List.getElem?_eq_getElem hup, hnode]
  rcases Nat.even_or_odd' index with ⟨half, rfl | rfl⟩
  · rw [Nat.mul_div_cancel_left half Nat.two_pos] at hleft hright
    cases hleft.symm.trans h
    refine ⟨right, ?_, by rw [if_neg (by omega)]⟩
    rw [Nat.xor_one_of_even (even_two_mul half)]
    rcases hright with hright | ⟨hlen, rfl⟩
    · have := (List.getElem?_eq_some_iff.mp hright).1
      rwa [Nat.min_eq_left (by omega)]
    · rwa [Nat.min_eq_right (by omega), hlen]
  · rw [show (2 * half + 1) / 2 = half by omega] at hleft hright
    cases (hright.resolve_right (by omega)).symm.trans h
    refine ⟨left, ?_, by rw [if_pos (by omega)]⟩
    rwa [Nat.xor_one_of_odd (odd_two_mul_add_one half), Nat.min_eq_left (by omega)]

/-- A level has at most twice as many nodes for each level one goes up. -/
theorem length_level_le (combine : H → H → H) (leaves : List H) (k m : Nat) :
    (level combine leaves k).length ≤ 2 ^ m * (level combine leaves (k + m)).length := by
  induction m with
  | zero => simp
  | succ m ih =>
    have hnext : (level combine leaves (k + m)).length ≤
        2 * (level combine leaves (k + (m + 1))).length := by
      rw [← Nat.add_assoc, level, length_nextLevel]
      omega
    calc (level combine leaves k).length
        ≤ 2 ^ m * (level combine leaves (k + m)).length := ih
      _ ≤ 2 ^ m * (2 * (level combine leaves (k + (m + 1))).length) := Nat.mul_le_mul_left _ hnext
      _ = 2 ^ (m + 1) * (level combine leaves (k + (m + 1))).length := by rw [pow_succ, mul_assoc]

theorem reduceOption_flatten (depth : Nat) (nodes : List H) :
    (flatten combine (depth + 1) nodes).reduceOption
      = nodes ++ (flatten combine depth (nextLevel combine nodes)).reduceOption := by
  simp [flatten, List.reduceOption]

/-! ## Walks -/

theorem walk_append_singleton (current : H) (path : List H) (last : H) (index : Nat) :
    walk combine current (path ++ [last]) index =
      if index / 2 ^ path.length % 2 = 1 then combine last (walk combine current path index)
      else combine (walk combine current path index) last := by
  induction path generalizing current index with
  | nil => simp [walk]
  | cons next rest ih =>
    have hshift : index / 2 / 2 ^ rest.length = index / 2 ^ (rest.length + 1) := by
      rw [Nat.div_div_eq_div_mul, ← pow_succ']
    simp only [List.cons_append, walk, ih, List.length_cons, hshift]

/-- Nodes that are not combinations: what is hashed into a leaf differs from
every pair of nodes. -/
def IsLeaf (combine : H → H → H) (node : H) : Prop :=
  ∀ left right, node ≠ combine left right

variable {leaves : List H}

/-- Splitting the index at bit `n`. -/
theorem mod_two_pow_succ_eq_zero (index n : Nat) :
    index % 2 ^ (n + 1) = 0 ↔ index % 2 ^ n = 0 ∧ index / 2 ^ n % 2 = 0 := by
  rw [pow_succ, Nat.mod_mul, Nat.add_eq_zero_iff, Nat.mul_eq_zero]
  simp

/-- The position below a node at which the bits of an index lead, one level further down. -/
theorem position_step (position index n : Nat) :
    position * 2 ^ (n + 1) + index % 2 ^ (n + 1) =
      (2 * position + index / 2 ^ n % 2) * 2 ^ n + index % 2 ^ n := by
  rw [pow_succ, Nat.mod_mul]
  ring

section

variable (hinj : ∀ a b c d, combine a b = combine c d → a = c ∧ b = d)
  (hleaf : ∀ node ∈ leaves, IsLeaf combine node)

include hinj hleaf

/-- A walk that ends in a node of level `k` starts in a node of a level below,
unless it goes through a leaf: in the node to which the bits of the index lead, if
there is one.  The induction removes the topmost sibling: by injectivity the walk then
ends in a child. -/
theorem walk_start {depth : Nat}
    (hlong : ∀ k < depth, 2 ≤ (level combine leaves k).length)
    {start : H} {index : Nat} (path : List H) {k position : Nat} (hk : k ≤ depth)
    (h : (level combine leaves k)[position]? = some (walk combine start path index)) :
    path.length ≤ k ∧ ∃ origin, (level combine leaves (k - path.length))[origin]? = some start ∧
      (origin = 0 ↔ position = 0 ∧ index % 2 ^ path.length = 0) ∧
      (position * 2 ^ path.length + index % 2 ^ path.length <
          (level combine leaves (k - path.length)).length →
        origin = position * 2 ^ path.length + index % 2 ^ path.length) := by
  induction path using List.reverseRecOn generalizing k position with
  | nil =>
    exact ⟨Nat.zero_le _, position, by simpa [walk] using h, by simp [Nat.mod_one],
      fun _ => by simp [Nat.mod_one]⟩
  | append_singleton path last ih =>
    rw [walk_append_singleton] at h
    cases k with
    | zero =>
      -- a leaf would be a combination
      have hmem := List.mem_of_getElem? h
      split_ifs at hmem
      · exact absurd rfl (hleaf _ hmem _ _)
      · exact absurd rfl (hleaf _ hmem _ _)
    | succ k =>
      obtain ⟨left, right, hleft, hnode, hright⟩ := nextLevel_getElem? h
      have hlen := hlong k (by omega)
      -- the child the walk came through, with its position
      obtain ⟨child, hchild, hzero, hbits⟩ : ∃ child,
          (level combine leaves k)[child]? = some (walk combine start path index) ∧
            (child = 0 ↔ position = 0 ∧ index / 2 ^ path.length % 2 = 0) ∧
            (child = 2 * position + index / 2 ^ path.length % 2 ∨
              (level combine leaves k).length =
                2 * position + index / 2 ^ path.length % 2) := by
        by_cases hbit : index / 2 ^ path.length % 2 = 1
        · rw [if_pos hbit] at hnode
          obtain ⟨-, hwalk⟩ := hinj _ _ _ _ hnode
          rcases hright with hright | ⟨hodd, hright⟩
          · exact ⟨2 * position + 1, by rw [hright, hwalk], by omega, by omega⟩
          · exact ⟨2 * position, by rw [hleft, hwalk, hright], by omega, by omega⟩
        · rw [if_neg hbit] at hnode
          obtain ⟨hwalk, -⟩ := hinj _ _ _ _ hnode
          exact ⟨2 * position, by rw [hleft, hwalk], by omega, by omega⟩
      obtain ⟨hle, origin, horigin, hiff, hat⟩ := ih (by omega) hchild
      have hsub : k + 1 - (path.length + 1) = k - path.length := by omega
      rw [List.length_append, List.length_singleton, hsub]
      refine ⟨by omega, origin, horigin, ?_, fun hlt => ?_⟩
      · rw [mod_two_pow_succ_eq_zero, hiff, hzero]
        tauto
      · rw [position_step] at hlt ⊢
        rcases hbits with hbits | hodd
        · rw [← hbits] at hlt ⊢
          exact hat hlt
        · -- the bits lead past the last node of this level
          have hlevel := length_level_le combine leaves (k - path.length) path.length
          rw [Nat.sub_add_cancel hle, hodd, mul_comm] at hlevel
          omega

/-- What an accepted authentication path proves.  The start is a leaf of the
tree, the path has the depth of the tree, and the leaf is the first one exactly
when the consumed bits of the index are zero.  It is the one at the index, if that is
the position of a leaf. -/
theorem leaf_of_walk_eq_root {start : H} (hstart : IsLeaf combine start)
    {path : List H} {index : Nat}
    (h : root combine leaves = some (walk combine start path index)) :
    ∃ origin, leaves[origin]? = some start ∧
      (origin = 0 ↔ index % 2 ^ path.length = 0) ∧ (index < leaves.length → origin = index) := by
  obtain ⟨depth, hdep, hlong⟩ := exists_depth_of_rootWithin h
  have htop : (level combine leaves depth)[0]? = some (walk combine start path index) := by
    rw [hdep]
    rfl
  obtain ⟨hle, origin, horigin, hiff, hat⟩ := walk_start hinj hleaf hlong path le_rfl htop
  -- a path that is too short would start in a combination
  have hlen : depth - path.length = 0 := by
    cases hgap : depth - path.length with
    | zero => rfl
    | succ gap =>
      rw [hgap] at horigin
      obtain ⟨left, right, -, hnode, -⟩ := nextLevel_getElem? horigin
      exact absurd hnode (hstart left right)
  rw [hlen] at horigin hat
  refine ⟨origin, horigin, by simpa using hiff, fun hlt => ?_⟩
  have hfits : leaves.length ≤ 2 ^ path.length := by
    have hlevel := length_level_le combine leaves 0 depth
    rw [Nat.zero_add, hdep, List.length_singleton, mul_one] at hlevel
    rwa [show path.length = depth by omega]
  have hmod : index % 2 ^ path.length = index := Nat.mod_eq_of_lt (lt_of_lt_of_le hlt hfits)
  rw [hmod, Nat.zero_mul, Nat.zero_add] at hat
  exact hat hlt

end

end Babylon.Lib.Merkle
