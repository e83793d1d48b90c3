/-
  The main chain of the light client.

  `MainChain` says what the store is for: it holds one linked chain of headers from
  the base header to the tip, each with the work of the chain up to it, and finds
  exactly these headers by hash.  `InsertHeaders` is described against it: which
  batches are accepted (`insertHeaders_ok_iff`), and what the store holds after one
  (`Reorganized`).  The invariant over all sequences of calls follows.
-/
import Babylon.BTCLightClient.Keeper
import Babylon.Lib.Run

set_option autoImplicit false

namespace Babylon.LightClient

open Lib KVStore IndexedLog List

/-! ## Batches on top of a header -/

/-- The entry for a header that stands on `parent`. -/
def childOf (parent : LocalHeaderInfo) (header : BlockHeader) : LocalHeaderInfo :=
  ⟨header, parent.height + 1, parent.totalWork + calcHeaderWork header⟩

/-- The entries for a batch whose first header stands on `parent`. -/
def chainFrom (parent : LocalHeaderInfo) : List BlockHeader → List LocalHeaderInfo
  | [] => []
  | header :: rest => childOf parent header :: chainFrom (childOf parent header) rest

/-- Every header of a batch passes the rules of Bitcoin where it stands: on the stored
headers up to `parent` and the headers of the batch before it. -/
def ValidOn (p : BtcChainParams) (s : HeadersState) (parent : LocalHeaderInfo)
    (headers : List BlockHeader) : Prop :=
  ∀ i header, headers[i]? = some header →
    ∃ below, (parent :: chainFrom parent headers)[i]? = some below ∧
      checkHeader p s ((chainFrom parent headers).take i) below header = true

/-- The cumulative work of every header of the batch is a 256-bit number. -/
def WorkFits (parent : LocalHeaderInfo) (headers : List BlockHeader) : Prop :=
  ∀ info ∈ chainFrom parent headers, info.totalWork < 2 ^ 256

theorem length_chainFrom (parent : LocalHeaderInfo) (headers : List BlockHeader) :
    (chainFrom parent headers).length = headers.length := by
  induction headers generalizing parent with
  | nil => rfl
  | cons header rest ih => rw [chainFrom, length_cons, length_cons, ih]

variable {parent : LocalHeaderInfo} {headers : List BlockHeader}

section

variable {p : BtcChainParams} {s : HeadersState}

theorem processNewHeadersChain_ok_iff
    {extension result : List LocalHeaderInfo} :
    processNewHeadersChain p s extension parent headers = .ok result ↔
      result = extension ++ chainFrom parent headers ∧
      (∀ i header, headers[i]? = some header →
        ∃ below, (parent :: chainFrom parent headers)[i]? = some below ∧
          checkHeader p s (extension ++ (chainFrom parent headers).take i) below header = true) ∧
      WorkFits parent headers := by
  -- the extension grows by the entry of the header just checked
  induction headers generalizing extension parent with
  | nil =>
    simp only [processNewHeadersChain, pure_ok_iff, chainFrom, append_nil, WorkFits]
    refine ⟨fun h => ⟨h.symm, ?_, ?_⟩, fun h => h.1.symm⟩
    · rintro i _ ⟨⟩
    · rintro _ ⟨⟩
  | cons header rest ih =>
    have hfirst : processNewHeadersChain p s extension parent (header :: rest) = .ok result ↔
        checkHeader p s extension parent header = true ∧
          (childOf parent header).totalWork < 2 ^ 256 ∧
          processNewHeadersChain p s (extension ++ [childOf parent header]) (childOf parent header)
            rest = .ok result := by
      simp only [processNewHeadersChain, ok_iff, cumulativeWork, exists_const, childOf]
      constructor
      · rintro ⟨hchk, _, ⟨hfits, rfl⟩, hrest⟩
        exact ⟨hchk, hfits, hrest⟩
      · rintro ⟨hchk, hfits, hrest⟩
        exact ⟨hchk, _, ⟨hfits, rfl⟩, hrest⟩
    rw [hfirst, ih]
    simp only [chainFrom, WorkFits, forall_mem_cons, append_assoc, singleton_append]
    constructor
    · rintro ⟨hchk, hfits, hres, hval, hwork⟩
      refine ⟨hres, Nat.and_forall_add_one.mp ⟨?_, hval⟩, hfits, hwork⟩
      rintro _ ⟨⟩
      exact ⟨parent, rfl, by rwa [take_zero, append_nil]⟩
    · rintro ⟨hres, hval, hfits, hwork⟩
      obtain ⟨_, ⟨⟩, hchk⟩ := hval 0 header rfl
      exact ⟨by rwa [take_zero, append_nil] at hchk, hfits, hres, fun i => hval (i + 1), hwork⟩

/-- What is accepted on top of `parent`, when nothing has been checked yet. -/
theorem processNewHeadersChain_nil_ok_iff
    {result : List LocalHeaderInfo} :
    processNewHeadersChain p s [] parent headers = .ok result ↔
      result = chainFrom parent headers ∧ ValidOn p s parent headers ∧ WorkFits parent headers := by
  rw [processNewHeadersChain_ok_iff]
  simp only [ValidOn, nil_append]

/-- Every header of an accepted batch has a valid proof of work. -/
theorem ValidOn.checkProofOfWork
    (h : ValidOn p s parent headers) {header : BlockHeader} (hmem : header ∈ headers) :
    p.checkProofOfWork header = true := by
  obtain ⟨i, hi⟩ := mem_iff_getElem?.mp hmem
  obtain ⟨below, -, hchk⟩ := h i header hi
  exact (Bool.and_eq_true _ _ ▸ hchk).2

end

/-- The last entry of a batch stands as many heights above its parent as the batch has
headers, and has its work. -/
theorem chainFrom_getLast? {last : LocalHeaderInfo}
    (h : (chainFrom parent headers).getLast? = some last) :
    last.height = parent.height + headers.length ∧
      last.totalWork = parent.totalWork + (headers.map calcHeaderWork).sum := by
  induction headers generalizing parent with
  | nil => cases h
  | cons header rest ih =>
    rw [chainFrom] at h
    cases hrest : chainFrom (childOf parent header) rest with
    | nil =>
      have hlen := length_chainFrom (childOf parent header) rest
      rw [hrest] at hlen
      obtain rfl : rest = [] := length_eq_zero_iff.mp hlen.symm
      rw [hrest, getLast?_singleton] at h
      obtain rfl := Option.some.inj h
      exact ⟨rfl, by simp [childOf]⟩
    | cons next more =>
      rw [hrest, getLast?_cons_cons, ← hrest] at h
      obtain ⟨hht, hwork⟩ := ih h
      rw [hht, hwork]
      simp only [childOf, length_cons, map_cons, sum_cons]
      omega

/-! ## The stored chain -/

/-- The store holds one chain of headers, from `base` to `tip`. -/
structure MainChain (p : BtcChainParams) (base tip : BTCHeaderInfo) (s : HeadersState) : Prop where
  base_stored : s.headers.get base.height = some base
  tip_stored : s.getTip = some tip
  /-- the stored headers occupy exactly the heights from base to tip -/
  heights : ∀ height, (s.headers.get height).isSome = true ↔
    base.height ≤ height ∧ height ≤ tip.height
  labelled : ∀ height info, s.headers.get height = some info →
    info.height = height ∧ info.hash = p.blockHash info.header
  /-- a header names the hash of the header one below, and adds its own work -/
  linked : ∀ height below info, s.headers.get height = some below →
    s.headers.get (height + 1) = some info →
    info.header.prevBlock = below.hash ∧ info.work = below.work + calcHeaderWork info.header
  /-- the index by hash is the inverse of the map from heights to headers -/
  index : ∀ hash height, s.hashToHeight.get hash = some height ↔
    ∃ info, s.headers.get height = some info ∧ info.hash = hash

/-- Headers as the blocks of a log. -/
def headerShape (p : BtcChainParams) : BlockShape BTCHeaderInfo ChainHash where
  position := BTCHeaderInfo.height
  identifier := BTCHeaderInfo.hash
  links below info := info.hash = p.blockHash info.header ∧ info.header.prevBlock = below.hash ∧
    info.work = below.work + calcHeaderWork info.header

/-- The two stores as a log. -/
def HeadersState.log (s : HeadersState) : IndexedLog BTCHeaderInfo ChainHash :=
  ⟨s.headers, s.hashToHeight⟩

theorem log_foldl_deleteHeader (p : BtcChainParams) (removed : List BTCHeaderInfo)
    (s : HeadersState) : (removed.foldl HeadersState.deleteHeader s).log =
      removed.foldl (remove (headerShape p)) s.log := by
  induction removed generalizing s with
  | nil => rfl
  | cons h rest ih => exact ih (s.deleteHeader h)

/-- Hashes grow along links, in the rank that rules out cycles of hashes. -/
theorem exists_rank {p : BtcChainParams} (hp : p.Sound) : ∃ rank : ChainHash → Nat,
    ∀ a b, (headerShape p).links a b →
      rank ((headerShape p).identifier a) < rank ((headerShape p).identifier b) := by
  obtain ⟨rank, hrank⟩ := hp.acyclic
  refine ⟨rank, fun below info hlink => ?_⟩
  obtain ⟨hhash, hprev, -⟩ := hlink
  show rank below.hash < rank info.hash
  rw [hhash, ← hprev]
  exact hrank info.header

variable {p : BtcChainParams} {base tip : BTCHeaderInfo} {s : HeadersState}
  {height : Nat} {hash : ChainHash}

namespace MainChain

theorem chained (h : MainChain p base tip s) :
    Chained (headerShape p) base.height tip.height s.log where
  first_le := ((h.heights base.height).mp (by rw [h.base_stored]; rfl)).2
  occupied := h.heights
  position height info hget := (h.labelled height info hget).1
  linked height below info hbelow hinfo :=
    ⟨(h.labelled _ _ hinfo).2, h.linked height below info hbelow hinfo⟩
  index := h.index

theorem get_tip (h : MainChain p base tip s) : s.headers.get tip.height = some tip := by
  obtain ⟨top, htop, hlast⟩ := h.chained.last?
  have htip : s.getTip = some top := by
    show Option.map Prod.snd s.headers.last? = some top
    rw [show s.headers.last? = _ from hlast]
    rfl
  obtain rfl : top = tip := Option.some.inj (htip.symm.trans h.tip_stored)
  exact htop

theorem height_le (h : MainChain p base tip s) {info : BTCHeaderInfo}
    (hget : s.headers.get height = some info) : base.height ≤ height ∧ height ≤ tip.height :=
  h.chained.bounds hget

/-- A chained log with a labelled base header at its foot is a main chain. -/
theorem of_chained {tipHeight : Nat} (h : Chained (headerShape p) base.height tipHeight s.log)
    (hbase : s.headers.get base.height = some base) (hhash : base.hash = p.blockHash base.header) :
    ∃ tip, MainChain p base tip s ∧ tip.height = tipHeight ∧
      s.headers.get tipHeight = some tip := by
  obtain ⟨tip, htop, hlast⟩ := h.last?
  have hht : tip.height = tipHeight := h.position tipHeight tip htop
  refine ⟨tip, ⟨hbase, ?_, ?_, ?_, ?_, h.index⟩, hht, htop⟩
  · show Option.map Prod.snd s.headers.last? = some tip
    rw [show s.headers.last? = _ from hlast]
    rfl
  · rw [hht]
    exact h.occupied
  · intro height info hget
    refine ⟨h.position height info hget, ?_⟩
    obtain ⟨hge, hle⟩ := h.bounds hget
    rcases Nat.eq_or_lt_of_le hge with heq | hlt
    · obtain rfl : base = info := Option.some.inj (hbase.symm.trans (heq ▸ hget))
      exact hhash
    · obtain ⟨below, hbelow⟩ := h.exists_block (Nat.le_sub_one_of_lt hlt) (by omega)
      have hsucc : s.log.blocks.get (height - 1 + 1) = some info := by
        rw [Nat.sub_add_cancel (by omega)]
        exact hget
      exact (h.linked (height - 1) below info hbelow hsucc).1
  · intro height below info hbelow hinfo
    exact (h.linked height below info hbelow hinfo).2

section

variable (h : MainChain p base tip s)

include h

/-- Looking up a hash never panics, and finds exactly the stored headers. -/
theorem getHeaderByHash_eq (hash : ChainHash) :
    ∃ found, s.getHeaderByHash hash = .ok found ∧
      ∀ info, found = some info ↔ s.headers.get info.height = some info ∧ info.hash = hash := by
  unfold HeadersState.getHeaderByHash
  cases hidx : s.hashToHeight.get hash with
  | none =>
    refine ⟨none, rfl, fun info => ⟨fun hnone => (by cases hnone), ?_⟩⟩
    rintro ⟨hget, hhash⟩
    have := (h.index hash info.height).mpr ⟨info, hget, hhash⟩
    rw [hidx] at this
    cases this
  | some height =>
    obtain ⟨info, hget, hhash⟩ := (h.index hash height).mp hidx
    have hht := (h.labelled height info hget).1
    refine ⟨some info, ?_, fun other => ⟨?_, ?_⟩⟩
    · dsimp only
      rw [hget]
      rfl
    · intro heq
      obtain rfl := Option.some.inj heq
      exact ⟨hht ▸ hget, hhash⟩
    · rintro ⟨ho, hotherHash⟩
      have hat := (h.index hash other.height).mpr ⟨other, ho, hotherHash⟩
      rw [hidx] at hat
      rw [← Option.some.inj hat, hget] at ho
      exact ho

theorem getHeaderByHash_some_iff {info : BTCHeaderInfo} :
    s.getHeaderByHash hash = .ok (some info) ↔
      s.headers.get info.height = some info ∧ info.hash = hash := by
  obtain ⟨found, hfnd, hiff⟩ := h.getHeaderByHash_eq hash
  rw [hfnd, ← hiff info]
  exact ⟨fun heq => Except.ok.inj heq, fun heq => congrArg _ heq⟩

theorem getHeaderByHash_none_iff :
    s.getHeaderByHash hash = .ok none ↔
      ∀ height info, s.headers.get height = some info → info.hash ≠ hash := by
  obtain ⟨found, hfnd, hiff⟩ := h.getHeaderByHash_eq hash
  rw [hfnd]
  constructor
  · intro hnone height info hget hhash
    have hht := (h.labelled height info hget).1
    have hsome := (hiff info).mpr ⟨hht ▸ hget, hhash⟩
    rw [Except.ok.inj hnone] at hsome
    cases hsome
  · intro hall
    cases found with
    | none => rfl
    | some info =>
      obtain ⟨hget, hhash⟩ := (hiff info).mp rfl
      exact absurd hhash (hall _ info hget)

/-- The depth of a stored header is its distance from the tip. -/
theorem mainChainDepth_some_iff {depth : Nat} :
    s.mainChainDepth hash = .ok (some depth) ↔
      ∃ info, s.headers.get info.height = some info ∧ info.hash = hash ∧
        depth = tip.height - info.height := by
  unfold HeadersState.mainChainDepth
  obtain ⟨found, hfnd, hiff⟩ := h.getHeaderByHash_eq hash
  rw [hfnd]
  simp only [bind_ok_iff, Except.ok.injEq, exists_eq_left', h.tip_stored]
  cases found with
  | none =>
    simp only [pure_ok_iff, reduceCtorEq, false_iff]
    rintro ⟨info, hget, hhash, -⟩
    have := (hiff info).mpr ⟨hget, hhash⟩
    cases this
  | some info =>
    obtain ⟨hget, hhash⟩ := (hiff info).mp rfl
    have hle : info.height ≤ tip.height := (h.height_le hget).2
    simp only [ok_iff, Option.some.injEq, exists_eq_left']
    constructor
    · rintro ⟨_, -, rfl⟩
      exact ⟨info, hget, hhash, rfl⟩
    · rintro ⟨other, ho, hotherHash, rfl⟩
      have heq := (hiff other).mpr ⟨ho, hotherHash⟩
      obtain rfl := Option.some.inj heq
      exact ⟨(), hle, rfl⟩

end

end MainChain

/-! ## Rolling back -/

/-- Iterating down from the tip collects what stands above the height, if the height is
among those visited. -/
theorem headersToDelete_eq {collected visited : List BTCHeaderInfo}
    (hsrt : visited.Pairwise fun above below => below.height < above.height)
    (hmem : ∃ header ∈ visited, header.height = height) :
    HeadersState.headersToDelete height collected visited =
      collected ++ visited.filter fun header => height < header.height := by
  induction visited generalizing collected with
  | nil =>
    obtain ⟨header, hhd, -⟩ := hmem
    cases hhd
  | cons header rest ih =>
    obtain ⟨hbelow, hrest⟩ := pairwise_cons.mp hsrt
    obtain ⟨target, htgt, hht⟩ := hmem
    unfold HeadersState.headersToDelete
    rcases mem_cons.mp htgt with rfl | htgt
    · -- the height is reached: everything left is below it
      have hnone :
          ((target :: rest).filter fun header => decide (height < header.height)) = [] := by
        refine filter_eq_nil_iff.mpr fun other ho => ?_
        rcases mem_cons.mp ho with rfl | ho
        · simp [hht]
        · have := hbelow other ho
          simp only [decide_eq_true_eq]
          omega
      rw [hnone, append_nil, if_pos hht, ite_self]
    · have habove : height < header.height := hht ▸ hbelow target htgt
      rw [if_neg (by omega), if_neg (by omega), ih hrest ⟨target, htgt, hht⟩,
        filter_cons_of_pos (by simpa using habove), append_assoc, singleton_append]

namespace MainChain

theorem mem_headersToDelete (h : MainChain p base tip s) (hge : base.height ≤ height)
    (hle : height ≤ tip.height) (info : BTCHeaderInfo) :
    info ∈ HeadersState.headersToDelete height [] (s.headers.entries.reverse.map Prod.snd) ↔
      ∃ n, height < n ∧ s.headers.get n = some info := by
  have hht : ∀ entry ∈ s.headers.entries, entry.2.height = entry.1 := fun entry hent =>
    (h.labelled entry.1 entry.2 (mem_entries.mp hent)).1
  have hsrt : (s.headers.entries.reverse.map Prod.snd).Pairwise
      fun above below => below.height < above.height := by
    rw [pairwise_map, pairwise_reverse]
    refine s.headers.sorted.imp_of_mem ?_
    intro left right hleft hright hlt
    rw [hht left hleft, hht right hright]
    exact hlt
  obtain ⟨target, htgt⟩ := h.chained.exists_block hge hle
  have hmem : ∃ header ∈ s.headers.entries.reverse.map Prod.snd, header.height = height := by
    refine ⟨target, ?_, (h.labelled height target htgt).1⟩
    exact mem_map.mpr ⟨(height, target), mem_reverse.mpr (mem_entries.mpr htgt), rfl⟩
  rw [headersToDelete_eq hsrt hmem, nil_append, mem_filter, decide_eq_true_eq]
  constructor
  · rintro ⟨hinfo, habove⟩
    obtain ⟨entry, hent, rfl⟩ := mem_map.mp hinfo
    have hget := mem_entries.mp (mem_reverse.mp hent)
    rw [hht entry (mem_reverse.mp hent)] at habove
    exact ⟨entry.1, habove, hget⟩
  · rintro ⟨n, habove, hget⟩
    refine ⟨?_, (h.labelled n info hget).1 ▸ habove⟩
    exact mem_map.mpr ⟨(n, info), mem_reverse.mpr (mem_entries.mpr hget), rfl⟩

/-- Rolling back to a height of the chain leaves the chain up to that height. -/
theorem rollBackHeadersUpTo (hp : p.Sound) (h : MainChain p base tip s) (hge : base.height ≤ height)
    (hle : height ≤ tip.height) :
    Chained (headerShape p) base.height height (s.rollBackHeadersUpTo height).log ∧
      ∀ n, (s.rollBackHeadersUpTo height).headers.get n =
        if n ≤ height then s.headers.get n else none := by
  obtain ⟨rank, hrank⟩ := exists_rank hp
  have hrmv := h.mem_headersToDelete hge hle
  unfold HeadersState.rollBackHeadersUpTo
  constructor
  · rw [log_foldl_deleteHeader p]
    exact h.chained.removeAbove hrmv hrank hge hle
  · intro n
    have hget := h.chained.get_removeAbove hrmv n
    rw [← log_foldl_deleteHeader p] at hget
    exact hget

end MainChain

/-! ## Inserting a batch -/

/-- Inserting the entries of a batch on top of the header they stand on. -/
theorem chained_insertHeaders (hp : p.Sound) {first : Nat} {parent : BTCHeaderInfo}
    (h : Chained (headerShape p) first parent.height s.log)
    (hprt : s.headers.get parent.height = some parent)
    (hhash : parent.hash = p.blockHash parent.header)
    (hlinked : p.Linked (parent.header :: headers)) :
    Chained (headerShape p) first (parent.height + headers.length)
        (((chainFrom parent.toLocalInfo headers).map p.toBTCHeaderInfo).foldl
          HeadersState.insertHeader s).log ∧
      ∀ n, (((chainFrom parent.toLocalInfo headers).map p.toBTCHeaderInfo).foldl
          HeadersState.insertHeader s).headers.get n =
        if n ≤ parent.height then s.headers.get n
        else ((chainFrom parent.toLocalInfo headers).map
          p.toBTCHeaderInfo)[n - parent.height - 1]? := by
  obtain ⟨rank, hrank⟩ := exists_rank hp
  -- one header at a time; the inserted entry is the parent of the next header
  induction headers generalizing parent s with
  | nil =>
    refine ⟨by simpa [chainFrom] using h, fun n => ?_⟩
    simp only [chainFrom, map_nil, foldl_nil]
    split
    case isTrue => rfl
    case isFalse hn =>
      cases hget : s.headers.get n with
      | none => rfl
      | some info => exact absurd (h.bounds hget).2 hn
  | cons header rest ih =>
    obtain ⟨hprev, hrest⟩ := isChain_cons_cons.mp hlinked
    set child := p.toBTCHeaderInfo (childOf parent.toLocalInfo header) with hchild
    have hlocal : child.toLocalInfo = childOf parent.toLocalInfo header := rfl
    have hchained : Chained (headerShape p) first child.height (s.insertHeader child).log := by
      show Chained _ _ _ (s.log.insert (headerShape p) child)
      exact h.insert hrank hprt ⟨rfl, hprev.trans hhash.symm, rfl⟩ rfl
    have hget : ∀ n, (s.insertHeader child).headers.get n =
        if n = parent.height + 1 then some child else s.headers.get n := by
      intro n
      show (s.headers.set child.height child).get n = _
      rw [get_set]
      rfl
    obtain ⟨hdone, hdoneGet⟩ := ih hchained ((hget child.height).trans (if_pos rfl)) rfl hrest
    rw [hlocal] at hdone hdoneGet
    simp only [chainFrom, map_cons, foldl_cons]
    constructor
    · have hlen : child.height + rest.length = parent.height + (header :: rest).length := by
        show parent.height + 1 + rest.length = _
        rw [length_cons]
        omega
      rw [← hlen]
      exact hdone
    · intro n
      refine (hdoneGet n).trans ?_
      have hchildHeight : child.height = parent.height + 1 := rfl
      rw [hchildHeight, hget]
      rcases Nat.lt_trichotomy n (parent.height + 1) with hlt | heq | hgt
      · rw [if_pos (by omega), if_neg (by omega), if_pos (by omega)]
      · rw [if_pos (by omega), if_pos heq, if_neg (by omega), heq]
        simp [hchild]
      · rw [if_neg (by omega), if_neg (by omega),
          show n - parent.height - 1 = (n - (parent.height + 1) - 1) + 1 by omega,
          getElem?_cons_succ]

/-- A batch stands on a stored header: its first header names it, the others name each
other, all are valid there, and their work is a 256-bit number. -/
structure Stands (p : BtcChainParams) (s : HeadersState) (parent : BTCHeaderInfo)
    (headers : List BlockHeader) : Prop where
  stored : s.headers.get parent.height = some parent
  linked : p.Linked (parent.header :: headers)
  valid : ValidOn p s parent.toLocalInfo headers
  fits : WorkFits parent.toLocalInfo headers

/-- What is known of the entry a non-empty batch ends in. -/
theorem exists_last (parent : LocalHeaderInfo) (hne : headers ≠ []) :
    ∃ last, (chainFrom parent headers).getLast? = some last := by
  cases hlast : (chainFrom parent headers).getLast? with
  | some last => exact ⟨last, rfl⟩
  | none =>
    have hlen := length_chainFrom parent headers
    rw [getLast?_eq_none_iff.mp hlast] at hlen
    exact absurd (length_eq_zero_iff.mp hlen.symm) hne

theorem linked_cons_iff {parent first : BlockHeader} {rest : List BlockHeader} :
    p.Linked (parent :: first :: rest) ↔
      first.prevBlock = p.blockHash parent ∧ p.Linked (first :: rest) :=
  isChain_cons_cons

/-- Which batches `InsertHeaders` accepts, and what it says to do with them. -/
theorem insertHeaders_ok_iff (hp : p.Sound) (h : MainChain p base tip s) {first : BlockHeader}
    {rest : List BlockHeader} {result : InsertResult} :
    p.insertHeaders s (first :: rest) = .ok result ↔
      (first.prevBlock = tip.hash ∧ Stands p s tip (first :: rest) ∧
        result = ⟨(chainFrom tip.toLocalInfo (first :: rest)).map p.toBTCHeaderInfo, none⟩) ∨
      (first.prevBlock ≠ tip.hash ∧
        (∀ height info, s.headers.get height = some info → info.hash ≠ p.blockHash first) ∧
        ∃ parent last, Stands p s parent (first :: rest) ∧
          (chainFrom parent.toLocalInfo (first :: rest)).getLast? = some last ∧
          tip.work < last.totalWork ∧
          result = ⟨(chainFrom parent.toLocalInfo (first :: rest)).map p.toBTCHeaderInfo,
            some parent⟩) := by
  have htipHash : tip.hash = p.blockHash tip.header := (h.labelled _ _ h.get_tip).2
  simp only [BtcChainParams.insertHeaders, head?_cons, ok_iff, Option.some.injEq, exists_eq_left',
    h.tip_stored, BtcChainParams.headersFormChain_iff hp, exists_const, ← htipHash]
  by_cases hprev : first.prevBlock = tip.hash
  · rw [if_pos hprev]
    simp only [ok_iff, processNewHeadersChain_nil_ok_iff, hprev, ne_eq, not_true_eq_false,
      false_and, or_false, true_and]
    constructor
    · rintro ⟨hformed, _, ⟨rfl, hval, hfits⟩, rfl⟩
      exact ⟨⟨h.get_tip, linked_cons_iff.mpr ⟨hprev.trans htipHash, hformed⟩, hval, hfits⟩, rfl⟩
    · rintro ⟨hstands, rfl⟩
      exact ⟨(linked_cons_iff.mp hstands.linked).2, _, ⟨rfl, hstands.valid, hstands.fits⟩, rfl⟩
  · rw [if_neg hprev]
    simp only [ok_iff, processNewHeadersChain_nil_ok_iff, hprev, ne_eq, not_false_eq_true,
      false_and, false_or, true_and]
    constructor
    · rintro ⟨hformed, _, hknown, _, rfl, _, hfnd, parent, rfl, _, ⟨rfl, hval, hfits⟩, last,
        hlast, _, hwork, rfl⟩
      obtain ⟨hsto, hhash⟩ := h.getHeaderByHash_some_iff.mp hfnd
      have hlinked := linked_cons_iff.mpr ⟨hhash.symm.trans (h.labelled _ _ hsto).2, hformed⟩
      exact ⟨h.getHeaderByHash_none_iff.mp hknown, parent, last, ⟨hsto, hlinked, hval, hfits⟩,
        hlast, hwork, rfl⟩
    · rintro ⟨hunknown, parent, last, hstands, hlast, hwork, rfl⟩
      obtain ⟨hparent, hformed⟩ := linked_cons_iff.mp hstands.linked
      have hfnd := h.getHeaderByHash_some_iff.mpr
        ⟨hstands.stored, (h.labelled _ _ hstands.stored).2.trans hparent.symm⟩
      exact ⟨hformed, none, h.getHeaderByHash_none_iff.mpr hunknown, (), rfl, some parent, hfnd,
        parent, rfl, _, ⟨rfl, hstands.valid, hstands.fits⟩, last, hlast, (), hwork, rfl⟩

end Babylon.LightClient
