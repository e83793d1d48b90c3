/-
  `x/checkpointing/keeper/ckpt_state.go`: listing the checkpoints of a status.

  The store of checkpoints lies under `CkptsObjectPrefix` already, and the iterator of
  `GetRawCkptsWithMetaByStatus` applies the prefix to it once more.  What it meets are the
  checkpoints whose own keys begin with these two bytes.
-/
import Babylon.Checkpointing.Keeper
import Babylon.Finality.Types

set_option autoImplicit false

namespace Babylon.Checkpointing

open Lib

/-- `CkptsObjectPrefix`. -/
def ckptsObjectPrefix : Bytes := [0x1, 0x0]

/-- `CkptsObjectKey`. -/
def ckptsObjectKey (epoch : Nat) : Bytes := Finality.uint64ToBigEndian epoch

section Loop

variable {σ : Type} (f : RawCheckpointWithMeta → σ → Bool × σ)

/-- The calls of `f`, one after the other, until it asks to stop. -/
def callEach : List RawCheckpointWithMeta → σ → σ
  | [], state => state
  | ckptWithMeta :: rest, state =>
    let (stop, state) := f ckptWithMeta state
    if stop then state else callEach rest state

/-- The loop of `GetRawCkptsWithMetaByStatus`. -/
def listFrom (status : CheckpointStatus) : List RawCheckpointWithMeta → σ → σ
  | [], state => state
  | ckptWithMeta :: rest, state =>
    if status ≠ .confirmed ∧ ckptWithMeta.status = .confirmed then state
    else if ckptWithMeta.status ≠ status then listFrom status rest state
    else
      let (stop, state) := f ckptWithMeta state
      if stop then state else listFrom status rest state

end Loop

/-- `GetRawCkptsWithMetaByStatus`. -/
def State.getRawCkptsWithMetaByStatus (s : State) (status : CheckpointStatus) {σ : Type}
    (f : RawCheckpointWithMeta → σ → Bool × σ) (state : σ) : σ :=
  let iter := s.checkpoints.entries.reverse.filter fun entry =>
    ckptsObjectPrefix.isPrefixOf (ckptsObjectKey entry.1)
  listFrom f status (iter.map Prod.snd) state

/-- The stored checkpoints of a status, the last epoch first. -/
def State.withStatus (s : State) (status : CheckpointStatus) : List RawCheckpointWithMeta :=
  (s.checkpoints.entries.reverse.map Prod.snd).filter fun ckptWithMeta =>
    ckptWithMeta.status = status

/-- The loop passes over the checkpoints before the first confirmed one. -/
theorem listFrom_eq {σ : Type} (f : RawCheckpointWithMeta → σ → Bool × σ)
    (status : CheckpointStatus) (ckpts : List RawCheckpointWithMeta) (state : σ) :
    listFrom f status ckpts state = callEach f ((ckpts.takeWhile fun ckptWithMeta =>
      status = .confirmed ∨ ckptWithMeta.status ≠ .confirmed).filter fun ckptWithMeta =>
        ckptWithMeta.status = status) state := by
  induction ckpts generalizing state with
  | nil => rfl
  | cons ckptWithMeta rest ih =>
    unfold listFrom
    split
    case isTrue hlast => simp [hlast, callEach]
    case isFalse hmore =>
      have hon : status = .confirmed ∨ ckptWithMeta.status ≠ .confirmed := by tauto
      rw [List.takeWhile_cons_of_pos (by simpa using hon)]
      split
      case isTrue hne => rw [ih, List.filter_cons_of_neg (by simpa using hne)]
      case isFalse heq =>
        rw [List.filter_cons_of_pos (by simpa using heq), callEach]
        simp only [ih]

theorem callEach_record (ckpts seen : List RawCheckpointWithMeta) :
    callEach (fun ckptWithMeta seen => (false, seen ++ [ckptWithMeta])) ckpts seen
      = seen ++ ckpts := by
  induction ckpts generalizing seen with
  | nil => simp [callEach]
  | cons ckptWithMeta rest ih => simp [callEach, ih]

/-- Calls that record what they are given tell two lists apart. -/
theorem callEach_eq_iff {left right : List RawCheckpointWithMeta} :
    (∀ (σ : Type) (f : RawCheckpointWithMeta → σ → Bool × σ) (state : σ),
      callEach f left state = callEach f right state) ↔ left = right := by
  constructor
  · intro h
    simpa [callEach_record] using h _ (fun ckptWithMeta seen => (false, seen ++ [ckptWithMeta])) []
  · rintro rfl σ f state
    rfl

/-- In an ordered list, `takeWhile` keeps what has no failure before it. -/
theorem mem_takeWhile_iff {α : Type} {r : α → α → Prop} (hr : ∀ a b, r a b → ¬ r b a) {p : α → Bool}
    {items : List α} (h : items.Pairwise r) (a : α) :
    a ∈ items.takeWhile p ↔ a ∈ items ∧ p a = true ∧ ∀ b ∈ items, r b a → p b = true := by
  induction items with
  | nil => simp
  | cons first rest ih =>
    obtain ⟨hfirst, hrest⟩ := List.pairwise_cons.mp h
    have hirr : ¬ r first first := fun hself => hr _ _ hself hself
    rw [List.takeWhile_cons]
    split
    case isTrue hp =>
      rw [List.mem_cons, ih hrest]
      aesop
    case isFalse hp =>
      aesop

theorem map_eq_map_iff_subset {α β : Type} {f : α → β} {part items : List α}
    (h : part.Sublist items) (hnodup : items.Nodup) :
    part.map f = items.map f ↔ ∀ a ∈ items, a ∈ part := by
  constructor
  · intro hmap a ha
    rwa [h.eq_of_length (by simpa using congrArg List.length hmap)]
  · intro hsub
    rw [h.eq_of_length_le (hnodup.subperm hsub).length_le]

/-- The checkpoints of a status are listed, the last epoch first, exactly if each of them has a key
that begins with the prefix and, unless confirmed ones are asked for, no confirmed checkpoint with
such a key comes after it. -/
theorem getRawCkptsWithMetaByStatus_lists_iff (s : State) (status : CheckpointStatus) :
    (∀ (σ : Type) (f : RawCheckpointWithMeta → σ → Bool × σ) (state : σ),
      s.getRawCkptsWithMetaByStatus status f state = callEach f (s.withStatus status) state) ↔
    ∀ epoch ckptWithMeta, s.checkpoints.get epoch = some ckptWithMeta →
      ckptWithMeta.status = status →
      ckptsObjectPrefix <+: ckptsObjectKey epoch ∧ (status = .confirmed ∨
        ∀ later, epoch < later → ckptsObjectPrefix <+: ckptsObjectKey later →
          s.getStatus later ≠ some .confirmed) := by
  have hdesc : s.checkpoints.entries.reverse.Pairwise fun a b => b.1 < a.1 :=
    List.pairwise_reverse.mpr s.checkpoints.sorted
  have hnodup : s.checkpoints.entries.reverse.Nodup :=
    hdesc.imp fun hlt heq => absurd (congrArg Prod.fst heq) hlt.ne'
  simp only [State.getRawCkptsWithMetaByStatus, State.withStatus, listFrom_eq, List.takeWhile_map,
    List.filter_map, callEach_eq_iff]
  rw [map_eq_map_iff_subset (((List.takeWhile_sublist _).trans List.filter_sublist).filter _)
    (hnodup.filter _)]
  simp only [List.mem_filter, mem_takeWhile_iff (fun a b h => h.asymm) (hdesc.filter _),
    Prod.forall, List.mem_reverse, KVStore.mem_entries, List.isPrefixOf_iff_prefix,
    Function.comp_apply, decide_eq_true_eq]
  refine forall₂_congr fun epoch ckptWithMeta => ⟨?_, ?_⟩
  · intro h hget hstatus
    obtain ⟨⟨⟨-, hkey⟩, -, hlater⟩, -⟩ := h ⟨hget, hstatus⟩
    refine ⟨hkey, or_iff_not_imp_left.mpr fun hne later hlt hkey' hconf => ?_⟩
    obtain ⟨ckpt, hckpt, hconf⟩ := Option.map_eq_some_iff.mp hconf
    exact (hlater later ckpt ⟨hckpt, hkey'⟩ hlt).elim hne (· hconf)
  · rintro h ⟨hget, hstatus⟩
    obtain ⟨hkey, hlater⟩ := h hget hstatus
    refine ⟨⟨⟨hget, hkey⟩, hstatus ▸ Decidable.em _, fun later ckpt hckpt hlt => ?_⟩, hstatus⟩
    refine hlater.imp_right fun hnone hconf => hnone later hlt hckpt.2 ?_
    rw [State.getStatus, hckpt.1, Option.map_some, hconf]

/-- A sealed checkpoint of the first epoch is never listed. -/
theorem first_checkpoint_not_listed :
    ∃ s, State.blank.sealCheckpoint (fun _ => true) ⟨⟨1, [], [], []⟩, .sealed⟩ = .ok s ∧
      s.getStatus 1 = some .sealed ∧
      s.getRawCkptsWithMetaByStatus .sealed (fun _ calls => (false, calls + 1)) 0 = 0 :=
  ⟨_, rfl, by decide, by decide⟩

end Babylon.Checkpointing
