/-
  Calls of `InsertHeaders` and their sequences.

  One call either fails and changes nothing, or puts a batch in the place of what
  stood above a stored header (`Reorganized`).  Over every sequence of calls the
  store keeps one main chain, and its tip only gains work.
-/
import Babylon.BTCLightClient.MainChain

set_option autoImplicit false

namespace Babylon.LightClient

open Lib KVStore BtcChainParams HeadersState List Option

variable {W : Type} {p : BtcChainParams} {hooks : BTCLightClientHooks W}
  {base tip : BTCHeaderInfo} {s : HeadersState} {w : W}

/-! ## One call -/

/-- The hooks called for the headers of a batch. -/
def afterInserted (hooks : BTCLightClientHooks W) (w : W) (inserted : List BTCHeaderInfo) : W :=
  inserted.foldl (fun w info =>
    hooks.afterBTCRollForward (hooks.afterBTCHeaderInserted w info) info) w

theorem foldl_insertAndTrigger (inserted : List BTCHeaderInfo) (s : HeadersState) (w : W) :
    inserted.foldl (insertAndTrigger hooks) (s, w) =
      (inserted.foldl insertHeader s, afterInserted hooks w inserted) := by
  induction inserted generalizing s w with
  | nil => rfl
  | cons info rest ih => exact ih _ _

/-- The entries a batch on top of `parent` is stored as. -/
def entriesOn (p : BtcChainParams) (parent : BTCHeaderInfo) (headers : List BlockHeader) :
    List BTCHeaderInfo :=
  (chainFrom parent.toLocalInfo headers).map p.toBTCHeaderInfo

/-- The batch stands above `parent` in place of whatever stood there: the headers up to
`parent` are those of before, the headers above are exactly the batch. -/
structure Reorganized (p : BtcChainParams) (parent : BTCHeaderInfo) (headers : List BlockHeader)
    (before after : HeadersState) : Prop where
  kept : ∀ height, height ≤ parent.height → after.headers.get height = before.headers.get height
  replaced : ∀ height, parent.height < height →
    after.headers.get height = (entriesOn p parent headers)[height - parent.height - 1]?

/-- The state after the batch was put on top of `parent`, with the hooks called. -/
structure Accepted (p : BtcChainParams) (hooks : BTCLightClientHooks W)
    (base tip : BTCHeaderInfo) (s : HeadersState) (w : W) (headers : List BlockHeader)
    (parent newTip : BTCHeaderInfo) (s' : HeadersState) (w' : W) : Prop where
  stands : Stands p s parent headers
  mainChain : MainChain p base newTip s'
  reorganized : Reorganized p parent headers s s'
  newTip_height : newTip.height = parent.height + headers.length
  newTip_work : newTip.work = parent.work + (headers.map calcHeaderWork).sum
  more_work : tip.work < newTip.work
  hooks_called : parent = tip ∧ w' = afterInserted hooks w (entriesOn p parent headers) ∨
    parent.height < tip.height ∧
      w' = afterInserted hooks (hooks.afterBTCRollBack w tip parent) (entriesOn p parent headers)

variable {parent : BTCHeaderInfo} {headers : List BlockHeader}

/-- Putting a batch on top of the store cut off at its parent. -/
theorem exists_mainChain_insertHeaders (hp : p.Sound) (h : MainChain p base tip s)
    {cut : HeadersState} (hstands : Stands p s parent headers)
    (hcut : IndexedLog.Chained (headerShape p) base.height parent.height cut.log)
    (hget : ∀ n, cut.headers.get n = if n ≤ parent.height then s.headers.get n else none)
    {last : LocalHeaderInfo} (hlast : (chainFrom parent.toLocalInfo headers).getLast? = some last) :
    MainChain p base (p.toBTCHeaderInfo last)
        ((entriesOn p parent headers).foldl insertHeader cut) ∧
      Reorganized p parent headers s
        ((entriesOn p parent headers).foldl insertHeader cut) := by
  have hprtH := (h.labelled _ _ hstands.stored).2
  have hparentCut : cut.headers.get parent.height = some parent := by
    rw [hget, if_pos le_rfl, hstands.stored]
  obtain ⟨hchained, haft⟩ := chained_insertHeaders hp hcut hparentCut hprtH hstands.linked
  have hreo : Reorganized p parent headers s
      ((entriesOn p parent headers).foldl insertHeader cut) := by
    constructor
    · intro height hle
      exact (haft height).trans (by rw [if_pos hle, hget, if_pos hle])
    · intro height hlt
      exact (haft height).trans (by rw [if_neg (by omega)]; rfl)
  have hbaseLe : base.height ≤ parent.height := (h.height_le hstands.stored).1
  have hbase : ((entriesOn p parent headers).foldl insertHeader cut).headers.get
      base.height = some base :=
    (hreo.kept _ hbaseLe).trans h.base_stored
  obtain ⟨newTip, hmain, hht, hnew⟩ :=
    MainChain.of_chained hchained hbase (h.labelled _ _ h.base_stored).2
  have hlastHeight := (chainFrom_getLast? hlast).1
  -- the last entry of the batch is what the store holds at the new tip height
  have hne : headers ≠ [] := by
    rintro rfl
    cases hlast
  have hpos := length_pos_iff.mpr hne
  have htop : (entriesOn p parent headers)[headers.length - 1]?
      = some (p.toBTCHeaderInfo last) := by
    unfold entriesOn
    rw [getElem?_map, ← length_chainFrom parent.toLocalInfo headers, ← getLast?_eq_getElem?, hlast]
    rfl
  have hrep := hreo.replaced (parent.height + headers.length) (by omega)
  rw [show parent.height + headers.length - parent.height - 1 = headers.length - 1 by omega, htop]
    at hrep
  obtain rfl : newTip = p.toBTCHeaderInfo last := some.inj (hnew.symm.trans hrep)
  exact ⟨hmain, hreo⟩

/-- A batch adds work to what it stands on. -/
theorem Stands.work_lt (hp : p.Sound) (hstands : Stands p s parent headers) (hne : headers ≠ []) :
    parent.work < parent.work + (headers.map calcHeaderWork).sum := by
  obtain ⟨header, hmem⟩ := exists_mem_of_ne_nil headers hne
  have hpos := calcHeaderWork_pos hp (hstands.valid.checkProofOfWork hmem)
  have hle : calcHeaderWork header ≤ (headers.map calcHeaderWork).sum :=
    single_le_sum (fun _ _ => Nat.zero_le _) _ (mem_map_of_mem hmem)
  omega

variable {first : BlockHeader} {rest : List BlockHeader}

/-- A header that a fork stands on is below the tip. -/
theorem Stands.height_lt (h : MainChain p base tip s) (hstands : Stands p s parent (first :: rest))
    (hfork : first.prevBlock ≠ tip.hash) :
    parent.height < tip.height := by
  refine lt_of_le_of_ne (h.height_le hstands.stored).2 fun heq => hfork ?_
  have hprt := hstands.stored
  rw [heq, h.get_tip] at hprt
  obtain rfl := some.inj hprt
  rw [(h.labelled _ _ h.get_tip).2]
  exact (linked_cons_iff.mp hstands.linked).1

/-- A batch stands on one header only. -/
theorem Stands.parent_unique (h : MainChain p base tip s) {other : BTCHeaderInfo}
    (hne : headers ≠ []) (hprt : Stands p s parent headers) (ho : Stands p s other headers) :
    parent = other := by
  obtain ⟨first, rest, rfl⟩ := exists_cons_of_ne_nil hne
  have hfnd : ∀ {info}, Stands p s info (first :: rest) →
      s.getHeaderByHash first.prevBlock = .ok (some info) := fun hstands =>
    h.getHeaderByHash_some_iff.mpr ⟨hstands.stored,
      (h.labelled _ _ hstands.stored).2.trans (linked_cons_iff.mp hstands.linked).1.symm⟩
  exact some.inj (Except.ok.inj ((hfnd hprt).symm.trans (hfnd ho)))

section

variable (hp : p.Sound) (hooks : BTCLightClientHooks W) (w : W) (h : MainChain p base tip s)

include hp h

/-- The keeper carries out what `BtcLightClient.InsertHeaders` says, without panicking. -/
theorem exists_accepted {result : InsertResult}
    (hres : p.insertHeaders s (first :: rest) = .ok result) :
    ∃ parent newTip s' w', Accepted p hooks base tip s w (first :: rest) parent newTip s' w' ∧
      insertHeadersWithHookAndEvents p hooks (s, w) (first :: rest) = (.ok (), s', w') := by
  have hcall : insertHeadersWithHookAndEvents p hooks (s, w) (first :: rest) =
      triggerEventAndHandleHooksHandler hooks (s, w) result := by
    simp only [insertHeadersWithHookAndEvents, if_neg (cons_ne_nil first rest), hres]
  rw [hcall]
  rcases (insertHeaders_ok_iff hp h).mp hres with
    ⟨-, hstands, rfl⟩ | ⟨hfork, -, parent, last, hstands, hlast, hwork, rfl⟩
  · -- the tip is extended
    obtain ⟨last, hlast⟩ := exists_last tip.toLocalInfo (cons_ne_nil first rest)
    have huncut : ∀ n, s.headers.get n = if n ≤ tip.height then s.headers.get n else none := by
      intro n
      split
      case isTrue => rfl
      case isFalse hn =>
        cases hget : s.headers.get n with
        | none => rfl
        | some info => exact absurd (h.height_le hget).2 hn
    obtain ⟨hmain, hreo⟩ := exists_mainChain_insertHeaders hp h hstands h.chained huncut hlast
    obtain ⟨hht, htot⟩ := chainFrom_getLast? hlast
    have hmore : tip.work < last.totalWork := by
      rw [htot]
      exact hstands.work_lt hp (cons_ne_nil _ _)
    exact ⟨tip, p.toBTCHeaderInfo last, _, _,
      ⟨hstands, hmain, hreo, hht, htot, hmore, .inl ⟨rfl, rfl⟩⟩,
      congrArg (Prod.mk _) (foldl_insertAndTrigger _ s w)⟩
  · -- the chain above the parent is replaced
    have hlt := hstands.height_lt h hfork
    obtain ⟨hcut, hget⟩ := h.rollBackHeadersUpTo hp (h.height_le hstands.stored).1 hlt.le
    obtain ⟨hmain, hreo⟩ := exists_mainChain_insertHeaders hp h hstands hcut hget hlast
    obtain ⟨hht, htot⟩ := chainFrom_getLast? hlast
    refine ⟨parent, p.toBTCHeaderInfo last, _, _,
      ⟨hstands, hmain, hreo, hht, htot, hwork, .inr ⟨hlt, rfl⟩⟩, ?_⟩
    have hinvariants : checkRollBackInvariants s.getTip parent = .ok tip := by
      rw [h.tip_stored]
      simp only [checkRollBackInvariants, ok_iff]
      exact ⟨tip, rfl, (), hlt, rfl⟩
    simp only [triggerEventAndHandleHooksHandler, hinvariants]
    exact congrArg (Prod.mk _) (foldl_insertAndTrigger _ _ _)

/-- One call: it fails and changes nothing, or the batch is put on top of its parent. -/
theorem insertHeadersWithHookAndEvents_cases (headers : List BlockHeader) :
    (∃ fault, insertHeadersWithHookAndEvents p hooks (s, w) headers = (.error fault, s, w)) ∨
      ∃ parent newTip s' w', Accepted p hooks base tip s w headers parent newTip s' w' ∧
        insertHeadersWithHookAndEvents p hooks (s, w) headers = (.ok (), s', w') := by
  cases headers with
  | nil => exact .inl ⟨_, if_pos rfl⟩
  | cons first rest =>
    cases hres : p.insertHeaders s (first :: rest) with
    | error fault =>
      refine .inl ⟨fault, ?_⟩
      simp only [insertHeadersWithHookAndEvents, if_neg (cons_ne_nil first rest), hres]
    | ok result => exact .inr (exists_accepted hp hooks w h hres)

/-- Which batches the keeper accepts that do not extend the tip. -/
theorem insertHeadersWithHookAndEvents_fork_iff (hfork : first.prevBlock ≠ tip.hash) :
    (insertHeadersWithHookAndEvents p hooks (s, w) (first :: rest)).1 = .ok () ↔
      (∀ height info, s.headers.get height = some info → info.hash ≠ p.blockHash first) ∧
        ∃ parent last, Stands p s parent (first :: rest) ∧
          (chainFrom parent.toLocalInfo (first :: rest)).getLast? = some last ∧
          tip.work < last.totalWork := by
  constructor
  · intro hok
    cases hres : p.insertHeaders s (first :: rest) with
    | error fault =>
      simp only [insertHeadersWithHookAndEvents, if_neg (cons_ne_nil first rest), hres] at hok
      cases hok
    | ok result =>
      rcases (insertHeaders_ok_iff hp h).mp hres with
        ⟨hprev, -, -⟩ | ⟨-, hunknown, parent, last, hstands, hlast, hwork, -⟩
      · exact absurd hprev hfork
      · exact ⟨hunknown, parent, last, hstands, hlast, hwork⟩
  · rintro ⟨hunknown, parent, last, hstands, hlast, hwork⟩
    have hres := (insertHeaders_ok_iff hp h).mpr
      (.inr ⟨hfork, hunknown, parent, last, hstands, hlast, hwork, rfl⟩)
    obtain ⟨_, _, s', w', -, hcall⟩ := exists_accepted hp hooks w h hres
    rw [hcall]

end

/-! ## All sequences of calls -/

/-- A base header, as `BTCHeaderInfo.Validate` accepts it at genesis. -/
structure BTCHeaderInfo.Valid (p : BtcChainParams) (base : BTCHeaderInfo) : Prop where
  hash_eq : base.hash = p.blockHash base.header
  work_ne_zero : base.work ≠ 0

/-- Sequences of `InsertHeaders` calls, accepted or not, from a base header on. -/
def headerSystem (p : BtcChainParams) (hooks : BTCLightClientHooks W) (base : BTCHeaderInfo) :
    System (HeadersState × W) (List BlockHeader) where
  init state := base.Valid p ∧ state.1 = empty.insertHeader base
  step state headers := some (insertHeadersWithHookAndEvents p hooks state headers).2

theorem mainChain_base (hbase : base.Valid p) :
    MainChain p base base (empty.insertHeader base) where
  base_stored := get_set_self _ _ _
  tip_stored := rfl
  heights := by
    intro height
    show ((empty.set base.height base).get height).isSome = true ↔ _
    rw [get_set]
    split
    case isTrue heq => simp [heq]
    case isFalse hne =>
      simp only [get_empty, isSome_none, Bool.false_eq_true, false_iff]
      omega
  labelled := by
    exact forall_set nofun ⟨rfl, hbase.hash_eq⟩
  linked := by
    intro height below info hbelow hinfo
    obtain ⟨rfl, -⟩ | ⟨-, hnone⟩ := of_get_set hbelow
    · obtain ⟨hsame, -⟩ | ⟨-, hnone⟩ := of_get_set hinfo
      · omega
      · cases hnone
    · cases hnone
  index := by
    intro hash height
    show (empty.set base.hash base.height).get hash = some height ↔
      ∃ info, (empty.set base.height base).get height = some info ∧ info.hash = hash
    constructor
    · intro hidx
      obtain ⟨rfl, rfl⟩ | ⟨-, hnone⟩ := of_get_set hidx
      · exact ⟨base, get_set_self _ _ _, rfl⟩
      · cases hnone
    · rintro ⟨info, hget, rfl⟩
      obtain ⟨rfl, rfl⟩ | ⟨-, hnone⟩ := of_get_set hget
      · exact get_set_self _ _ _
      · cases hnone

variable {history : List ((HeadersState × W) × List BlockHeader)} {state : HeadersState × W}

/-- After every sequence of calls the store holds one main chain on the base header. -/
theorem exists_mainChain_of_run (hp : p.Sound)
    (run : Run (headerSystem p hooks base) history state) :
    ∃ tip, MainChain p base tip state.1 := by
  refine run.invariant (fun state => ∃ tip, MainChain p base tip state.1) ?_ ?_ .trivial
  · rintro state ⟨hbase, hstate⟩
    rw [hstate]
    exact ⟨base, mainChain_base hbase⟩
  · rintro ⟨s, w⟩ headers next ⟨tip, h⟩ - hstep
    obtain rfl := some.inj hstep
    rcases insertHeadersWithHookAndEvents_cases hp hooks w h headers with
      ⟨fault, hcall⟩ | ⟨parent, newTip, s', w', hacc, hcall⟩
    · rw [hcall]
      exact ⟨tip, h⟩
    · rw [hcall]
      exact ⟨newTip, hacc.mainChain⟩

/-- The light client chain invariant: after every sequence of `InsertHeaders` calls from a
valid base header, the stored headers form one linked chain with its cumulative work and
an exact index, and a rejected call changes nothing. -/
theorem headers_form_main_chain (hp : p.Sound) (hooks : BTCLightClientHooks W)
    (base : BTCHeaderInfo) (run : Run (headerSystem p hooks base) history state) :
    (∃ tip, MainChain p base tip state.1) ∧
      ∀ headers fault, (insertHeadersWithHookAndEvents p hooks state headers).1 = .error fault →
        (insertHeadersWithHookAndEvents p hooks state headers).2 = state := by
  obtain ⟨tip, h⟩ := exists_mainChain_of_run hp run
  refine ⟨⟨tip, h⟩, fun headers fault hfault => ?_⟩
  rcases insertHeadersWithHookAndEvents_cases hp hooks state.2 h headers with
    ⟨_, hcall⟩ | ⟨_, _, _, _, _, hcall⟩
  · exact congrArg Prod.snd hcall
  · rw [show state = (state.1, state.2) from rfl, hcall] at hfault
    cases hfault

/-! ## A small chain to evaluate on -/

namespace Sample

/-- No module follows the light client. -/
def noHooks : BTCLightClientHooks Unit := ⟨fun _ _ _ => (), fun _ _ => (), fun _ _ => ()⟩

/-- A header of Bitcoin's lowest difficulty. -/
def header (prevBlock : ChainHash) (nonce : Nat) : BlockHeader :=
  { prevBlock, merkleRoot := 0, bits := 0x1d00ffff, nonce }

/-- The base header, at height 5. -/
def root : BTCHeaderInfo := ⟨header 0 0, simple.blockHash (header 0 0), 5, 1⟩

/-- Headers that stand on a hash, each with the same nonce. -/
def batch (nonce : Nat) : ChainHash → Nat → List BlockHeader
  | _, 0 => []
  | prevBlock, length + 1 => header prevBlock nonce ::
      batch nonce (simple.blockHash (header prevBlock nonce)) length

theorem root_valid : root.Valid simple := ⟨rfl, by decide⟩

/-- The state after a list of calls. -/
def after (batches : List (List BlockHeader)) : HeadersState × Unit :=
  batches.foldl
    (fun state headers =>
      (insertHeadersWithHookAndEvents simple noHooks state headers).2)
    (empty.insertHeader root, ())

theorem exists_run (batches : List (List BlockHeader)) : ∃ history,
    Run (headerSystem simple noHooks root) history (after batches) := by
  induction batches using reverseRecOn with
  | nil => exact ⟨[], .start ⟨root_valid, rfl⟩⟩
  | append_singleton batches headers ih =>
    obtain ⟨history, run⟩ := ih
    refine ⟨(after batches, headers) :: history, run.next ?_⟩
    unfold after
    rw [foldl_append]
    rfl

/-- Two headers on the base header. -/
def twoHeaders : List BlockHeader := batch 0 root.hash 2

/-- A fork of three headers on the base header. -/
def threeHeaders : List BlockHeader := batch 1 root.hash 3

/-- The first of the two headers, and two other headers on top of it. -/
def knownStart : List BlockHeader :=
  header root.hash 0 :: batch 1 (simple.blockHash (header root.hash 0)) 2

end Sample

/-- Two headers, then a longer fork from the base header, then one that is too short. -/
theorem sample_headers_form_main_chain :
    (∃ tip, MainChain simple Sample.root tip
      (Sample.after [Sample.twoHeaders, Sample.threeHeaders,
        Sample.batch 2 Sample.root.hash 1]).1) ∧
    (Sample.after [Sample.twoHeaders, Sample.threeHeaders,
      Sample.batch 2 Sample.root.hash 1]).1.getTip.map BTCHeaderInfo.height = some 8 := by
  obtain ⟨history, run⟩ := Sample.exists_run
    [Sample.twoHeaders, Sample.threeHeaders, Sample.batch 2 Sample.root.hash 1]
  refine ⟨(headers_form_main_chain simple_sound Sample.noHooks Sample.root run).1, ?_⟩
  decide +kernel

/-! ## The most-work rule -/

/-- The most-work rule.  An accepted batch leaves a tip with strictly more work.  A batch that
does not extend the tip is accepted exactly if its first header is new, its headers form a
valid chain from a stored header, and its last cumulative work exceeds that of the tip; then
the headers up to that stored header are untouched and those above are exactly the batch. -/
theorem insertHeaders_follows_most_work (hp : p.Sound) (hooks : BTCLightClientHooks W)
    (base : BTCHeaderInfo) (run : Run (headerSystem p hooks base) history state)
    {tip : BTCHeaderInfo} (htip : state.1.getTip = some tip) (headers : List BlockHeader) :
    ((insertHeadersWithHookAndEvents p hooks state headers).1 = .ok () →
      ∃ newTip, (insertHeadersWithHookAndEvents p hooks state headers).2.1.getTip = some newTip ∧
        tip.work < newTip.work) ∧
    ∀ first rest, headers = first :: rest → first.prevBlock ≠ tip.hash →
      ((insertHeadersWithHookAndEvents p hooks state headers).1 = .ok () ↔
        (∀ height info, state.1.headers.get height = some info → info.hash ≠ p.blockHash first) ∧
          ∃ parent last, Stands p state.1 parent headers ∧
            (chainFrom parent.toLocalInfo headers).getLast? = some last ∧
            tip.work < last.totalWork) ∧
      ∀ parent, (insertHeadersWithHookAndEvents p hooks state headers).1 = .ok () →
        Stands p state.1 parent headers →
        Reorganized p parent headers state.1
          (insertHeadersWithHookAndEvents p hooks state headers).2.1 := by
  obtain ⟨top, h⟩ := exists_mainChain_of_run hp run
  obtain rfl : top = tip := some.inj (h.tip_stored.symm.trans htip)
  have haccepted : (insertHeadersWithHookAndEvents p hooks state headers).1 = .ok () →
      ∃ parent newTip, Accepted p hooks base top state.1 state.2 headers parent newTip
        (insertHeadersWithHookAndEvents p hooks state headers).2.1
        (insertHeadersWithHookAndEvents p hooks state headers).2.2 := by
    intro hok
    rcases insertHeadersWithHookAndEvents_cases hp hooks state.2 h headers with
      ⟨_, hcall⟩ | ⟨parent, newTip, s', w', haccepted, hcall⟩
    · rw [show state = (state.1, state.2) from rfl, hcall] at hok
      cases hok
    · rw [show state = (state.1, state.2) from rfl, hcall]
      exact ⟨parent, newTip, haccepted⟩
  refine ⟨?_, ?_⟩
  · intro hok
    obtain ⟨parent, newTip, haccepted⟩ := haccepted hok
    exact ⟨newTip, haccepted.mainChain.tip_stored, haccepted.more_work⟩
  · rintro first rest rfl hfork
    refine ⟨insertHeadersWithHookAndEvents_fork_iff hp hooks state.2 h hfork, ?_⟩
    intro parent hok hstands
    obtain ⟨other, newTip, haccepted⟩ := haccepted hok
    obtain rfl := hstands.parent_unique h (cons_ne_nil _ _) haccepted.stands
    exact haccepted.reorganized

/-- A batch that was processed stands on its parent. -/
theorem Stands.of_processed (hsto : s.headers.get parent.height = some parent)
    (hlinked : p.Linked (parent.header :: headers))
    (hproc : succeeds (processNewHeadersChain p s [] parent.toLocalInfo headers) = true) :
    Stands p s parent headers := by
  obtain ⟨result, hres⟩ := succeeds_iff.mp hproc
  obtain ⟨-, hval, hfits⟩ := processNewHeadersChain_nil_ok_iff.mp hres
  exact ⟨hsto, hlinked, hval, hfits⟩

/-- The fork of three headers replaces the two headers. -/
theorem sample_follows_most_work :
    (insertHeadersWithHookAndEvents simple Sample.noHooks
      (Sample.after [Sample.twoHeaders]) Sample.threeHeaders).1 = .ok () ∧
    Reorganized simple Sample.root Sample.threeHeaders
      (Sample.after [Sample.twoHeaders]).1
      (insertHeadersWithHookAndEvents simple Sample.noHooks
        (Sample.after [Sample.twoHeaders]) Sample.threeHeaders).2.1 := by
  obtain ⟨history, run⟩ := Sample.exists_run [Sample.twoHeaders]
  obtain ⟨tip, h⟩ := exists_mainChain_of_run simple_sound run
  have hstands : Stands simple (Sample.after [Sample.twoHeaders]).1 Sample.root
      Sample.threeHeaders :=
    .of_processed (by decide +kernel) (by decide +kernel) (by decide +kernel)
  have hfork : Sample.root.hash ≠ tip.hash := by
    have hne : (Sample.after [Sample.twoHeaders]).1.getTip.map BTCHeaderInfo.hash ≠
        some Sample.root.hash := by decide +kernel
    rw [h.tip_stored] at hne
    exact fun heq => hne (congrArg some heq.symm)
  have hok : (insertHeadersWithHookAndEvents simple Sample.noHooks
      (Sample.after [Sample.twoHeaders]) Sample.threeHeaders).1 = .ok () := by
    obtain ⟨_, hcall⟩ := succeeds_iff.mp (show succeeds (insertHeadersWithHookAndEvents
      simple Sample.noHooks (Sample.after [Sample.twoHeaders])
      Sample.threeHeaders).1 = true by decide +kernel)
    exact hcall
  have hrule := insertHeaders_follows_most_work simple_sound Sample.noHooks
    Sample.root run h.tip_stored Sample.threeHeaders
  exact ⟨hok, (hrule.2 _ _ rfl hfork).2 Sample.root hok hstands⟩

/-- A batch is rejected that starts with a header of the main chain, although its headers
form a valid chain from a header of the main chain with more work than the tip. -/
theorem known_first_header_rejected :
    ∃ (tip : BTCHeaderInfo) (last : LocalHeaderInfo),
      MainChain simple Sample.root tip (Sample.after [Sample.twoHeaders]).1 ∧
      Sample.root.hash ≠ tip.hash ∧
      Stands simple (Sample.after [Sample.twoHeaders]).1 Sample.root Sample.knownStart ∧
      (chainFrom Sample.root.toLocalInfo Sample.knownStart).getLast? = some last ∧
      tip.work < last.totalWork ∧
      (insertHeadersWithHookAndEvents simple Sample.noHooks
        (Sample.after [Sample.twoHeaders]) Sample.knownStart).1 ≠ .ok () := by
  obtain ⟨history, run⟩ := Sample.exists_run [Sample.twoHeaders]
  obtain ⟨tip, h⟩ := exists_mainChain_of_run simple_sound run
  have hne : Sample.knownStart ≠ [] := cons_ne_nil _ _
  obtain ⟨last, hlast⟩ := exists_last Sample.root.toLocalInfo hne
  have hcheck : (Sample.after [Sample.twoHeaders]).1.getTip.any (fun tip =>
      (chainFrom Sample.root.toLocalInfo Sample.knownStart).getLast?.any fun last =>
        tip.hash ≠ Sample.root.hash && tip.work < last.totalWork) = true := by decide +kernel
  simp only [h.tip_stored, hlast, any_some, Bool.and_eq_true, decide_eq_true_eq] at hcheck
  refine ⟨tip, last, h, hcheck.1.symm, ?_, hlast, hcheck.2, ?_⟩
  · exact .of_processed (by decide +kernel) (by decide +kernel) (by decide +kernel)
  · intro hok
    have hfails : succeeds (insertHeadersWithHookAndEvents simple Sample.noHooks
        (Sample.after [Sample.twoHeaders]) Sample.knownStart).1 = false := by decide +kernel
    rw [hok] at hfails
    cases hfails

end Babylon.LightClient
