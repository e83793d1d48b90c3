/-
  The contexts in which headers are checked, `types/btc_light_client.go`.

  The rules of Bitcoin that look at ancestors start from a context for the parent of
  a header and go down with `Parent` and `RelativeAncestorCtx`.  A batch may stand on
  any stored header, so such a walk leaves the headers of the batch for the stored
  ones.  `candidate` is the chain that the batch proposes; every context that is
  handed out is one of its headers, at the height that was asked for.
-/
import Babylon.BTCLightClient.InsertHeaders

set_option autoImplicit false

namespace Babylon.LightClient

open Lib List BtcChainParams

/-- `lightHeaderCtx`; the store is passed beside it. -/
structure LightHeaderCtx where
  height : Nat
  bits : UInt32
  timestamp : Nat
deriving DecidableEq

/-- `newLightHeaderCtx`. -/
def newLightHeaderCtx (height : Nat) (header : BlockHeader) : LightHeaderCtx :=
  ⟨height, header.bits, header.timestamp⟩

/-- `getHeaderAtHeight` reads the headers checked so far at an index that they have. -/
def inRange (extension : List LocalHeaderInfo) (height : Nat) : Bool :=
  match extension with
  | [] => true
  | lowest :: _ => decide (height < lowest.height + extension.length)

/-- `RelativeAncestorCtx`; `none` is nil, and `Parent` is the ancestor at distance 1. -/
def LightHeaderCtx.relativeAncestorCtx (s : HeadersState) (extension : List LocalHeaderInfo)
    (l : LightHeaderCtx) (distance : Int) : Outcome (Option LightHeaderCtx) := do
  let ancestorHeight : Int := l.height - distance
  if ancestorHeight < 0 then return none
  else
    let height := ancestorHeight.toNat
    ensure (inRange extension height = true) (.panic "index out of range [%d] with length %d")
    return (getHeaderAtHeight s extension height).map fun ancestor =>
      newLightHeaderCtx height ancestor.header

/-- The calls of `checkHeader` that `processNewHeadersChain` makes, up to the first header
that is refused: the headers checked before, the parent, and the header. -/
def checkHeaderCalls (p : BtcChainParams) (s : HeadersState) : List LocalHeaderInfo →
    LocalHeaderInfo → List BlockHeader →
    List (List LocalHeaderInfo × LocalHeaderInfo × BlockHeader)
  | _, _, [] => []
  | extension, parentHeaderInfo, blockHeader :: chain =>
    (extension, parentHeaderInfo, blockHeader) ::
      if checkHeader p s extension parentHeaderInfo blockHeader = true then
        match cumulativeWork parentHeaderInfo.totalWork (calcHeaderWork blockHeader) with
        | .ok totalWork =>
          let newHeaderInfo : LocalHeaderInfo :=
            ⟨blockHeader, parentHeaderInfo.height + 1, totalWork⟩
          checkHeaderCalls p s (extension ++ [newHeaderInfo]) newHeaderInfo chain
        | .error _ => []
      else []

/-- The contexts that are handed out from the context of the parent on.  The rules of
Bitcoin ask for no negative distance. -/
inductive Handed (s : HeadersState) (extension : List LocalHeaderInfo)
    (parentHeaderCtx : LightHeaderCtx) : LightHeaderCtx → Prop
  | parent : Handed s extension parentHeaderCtx parentHeaderCtx
  | ancestor {l found : LightHeaderCtx} (h : Handed s extension parentHeaderCtx l)
      (distance : Nat) (hfound : l.relativeAncestorCtx s extension distance = .ok (some found)) :
      Handed s extension parentHeaderCtx found

/-- The chain that a batch on top of `parent` proposes, by height: the stored headers below
`parent`, then `parent` and the batch. -/
def candidate (s : HeadersState) (parent : BTCHeaderInfo) (headers : List BlockHeader)
    (height : Nat) : Option BlockHeader :=
  if height < parent.height then (s.getHeaderByHeight height).map BTCHeaderInfo.header
  else (parent.header :: headers)[height - parent.height]?

variable {p : BtcChainParams} {base tip parent : BTCHeaderInfo} {s : HeadersState}
  {headers : List BlockHeader}

theorem map_header_chainFrom (parent : LocalHeaderInfo) (headers : List BlockHeader) :
    (chainFrom parent headers).map LocalHeaderInfo.header = headers := by
  induction headers generalizing parent with
  | nil => rfl
  | cons header rest ih => rw [chainFrom, map_cons, ih, childOf]

variable {header : BlockHeader}

/-- A call is made with the part of the batch before the header. -/
theorem mem_checkHeaderCalls {extension before : List LocalHeaderInfo}
    {parent below : LocalHeaderInfo}
    (h : (before, below, header) ∈ checkHeaderCalls p s extension parent headers) :
    ∃ i, headers[i]? = some header ∧ (parent.header :: headers)[i]? = some below.header ∧
      below.height = parent.height + i ∧
      before = extension ++ (chainFrom parent headers).take i := by
  induction headers generalizing extension parent with
  | nil => cases h
  | cons first rest ih =>
    rw [checkHeaderCalls] at h
    rcases mem_cons.mp h with heq | hrest
    · cases heq
      exact ⟨0, rfl, rfl, rfl, (append_nil _).symm⟩
    · split at hrest
      case isFalse => cases hrest
      case isTrue =>
        split at hrest
        case h_2 => cases hrest
        case h_1 totalWork hwork =>
          simp only [cumulativeWork, ok_iff] at hwork
          obtain ⟨-, -, rfl⟩ := hwork
          obtain ⟨i, hhd, hbelow, hht, rfl⟩ := ih hrest
          refine ⟨i + 1, hhd, hbelow, by rw [hht, Nat.add_right_comm, Nat.add_assoc], ?_⟩
          rw [chainFrom, take_succ_cons, append_assoc]
          rfl

section

variable (hstored : s.headers.get parent.height = some parent)

include hstored

/-- With the first `i` headers of the batch checked, the headers up to the last of them are
found, and they are those of the candidate. -/
theorem getHeaderAtHeight_take {i height : Nat}
    (hi : i ≤ headers.length) (hle : height ≤ parent.height + i) :
    inRange ((chainFrom parent.toLocalInfo headers).take i) height = true ∧
      (getHeaderAtHeight s ((chainFrom parent.toLocalInfo headers).take i) height).map
        LocalHeaderInfo.header = candidate s parent headers height := by
  -- up to the parent the stored headers are read
  have hlow : height ≤ parent.height →
      ((s.getHeaderByHeight height).map BTCHeaderInfo.toLocalInfo).map LocalHeaderInfo.header
        = candidate s parent headers height := by
    intro hle
    unfold candidate
    split
    case isTrue => exact Option.map_map _ _ _
    case isFalse hge =>
      obtain rfl : height = parent.height := by omega
      rw [HeadersState.getHeaderByHeight, hstored, Nat.sub_self]
      rfl
  cases i with
  | zero => exact ⟨rfl, hlow hle⟩
  | succ i =>
    cases headers with
    | nil => cases hi
    | cons first rest =>
      have hlen : i ≤ (chainFrom (childOf parent.toLocalInfo first) rest).length := by
        rw [length_chainFrom]
        exact Nat.le_of_succ_le_succ hi
      have hlowest : (childOf parent.toLocalInfo first).height = parent.height + 1 := rfl
      rw [chainFrom, take_succ_cons]
      constructor
      · rw [inRange, length_cons, length_take, min_eq_left hlen, hlowest]
        exact decide_eq_true (by omega)
      · rw [getHeaderAtHeight, hlowest]
        split
        case isTrue hlt => exact hlow (by omega)
        case isFalse hge =>
          rw [candidate, if_neg (by omega), ← take_succ_cons, getElem?_take_of_lt (by omega),
            ← chainFrom, ← getElem?_map, map_header_chainFrom,
            show height - parent.height = height - (parent.height + 1) + 1 by omega,
            getElem?_cons_succ]

/-- What a context finds below it, when the headers of the batch up to it have been checked. -/
theorem relativeAncestorCtx_eq {i : Nat} (hi : i ≤ headers.length) {l : LightHeaderCtx}
    (hle : l.height ≤ parent.height + i) (distance : Nat) :
    l.relativeAncestorCtx s ((chainFrom parent.toLocalInfo headers).take i) distance =
      .ok (if distance ≤ l.height then
        (candidate s parent headers (l.height - distance)).map
          (newLightHeaderCtx (l.height - distance)) else none) := by
  unfold LightHeaderCtx.relativeAncestorCtx
  by_cases hd : distance ≤ l.height
  · have hnat : ((l.height : Int) - distance).toNat = l.height - distance := by omega
    have hbelow : l.height - distance ≤ parent.height + i := (Nat.sub_le _ _).trans hle
    obtain ⟨hin, hget⟩ := getHeaderAtHeight_take hstored hi hbelow
    rw [if_pos hd, if_neg (by omega), hnat, ← hget, Option.map_map]
    simp only [hin]
    rfl
  · rw [if_neg hd, if_pos (by omega)]
    rfl

theorem candidate_linked (hmain : MainChain p base tip s)
    (hlinked : p.Linked (parent.header :: headers)) {height : Nat} {below : BlockHeader}
    (hbelow : candidate s parent headers height = some below)
    (hheader : candidate s parent headers (height + 1) = some header) :
    header.prevBlock = p.blockHash below := by
  unfold candidate at hbelow hheader
  split at hbelow
  case isTrue hlt =>
    have hget : ∃ info, s.headers.get (height + 1) = some info ∧ info.header = header := by
      split at hheader
      case isTrue => exact Option.map_eq_some_iff.mp hheader
      case isFalse hge =>
        obtain heq : height + 1 = parent.height := by omega
        rw [heq, Nat.sub_self] at hheader
        exact ⟨parent, heq ▸ hstored, Option.some.inj hheader⟩
    obtain ⟨info, hinfo, rfl⟩ := hget
    obtain ⟨info', hinfo', rfl⟩ := Option.map_eq_some_iff.mp hbelow
    rw [(hmain.linked height info' info hinfo' hinfo).1, (hmain.labelled height info' hinfo').2]
  case isFalse hge =>
    rw [if_neg (by omega), show height + 1 - parent.height = height - parent.height + 1 by omega]
      at hheader
    obtain ⟨_, rfl⟩ := List.getElem?_eq_some_iff.mp hbelow
    obtain ⟨hlt, rfl⟩ := List.getElem?_eq_some_iff.mp hheader
    exact isChain_iff_getElem.mp hlinked _ hlt

/-- Going down from a header of the candidate stays on the candidate. -/
theorem Handed.on_candidate {i : Nat} (hi : i ≤ headers.length)
    (hheader : candidate s parent headers (parent.height + i) = some header) {l : LightHeaderCtx}
    (h : Handed s ((chainFrom parent.toLocalInfo headers).take i)
      (newLightHeaderCtx (parent.height + i) header) l) :
    l.height ≤ parent.height + i ∧ ∃ own,
      candidate s parent headers l.height = some own ∧ l = newLightHeaderCtx l.height own := by
  induction h with
  | parent => exact ⟨le_refl _, header, hheader, rfl⟩
  | ancestor _ distance hfound ih =>
    rw [relativeAncestorCtx_eq hstored hi ih.1 distance] at hfound
    have hfound := Except.ok.inj hfound
    split at hfound
    case isTrue =>
      obtain ⟨own, hown, rfl⟩ := Option.map_eq_some_iff.mp hfound
      exact ⟨(Nat.sub_le _ _).trans ih.1, own, hown, rfl⟩
    case isFalse => cases hfound

end

/-- While a batch on top of a stored header is checked, every context handed out is that of the
candidate's header at its height: of the batch above `parent`, of the stored chain up to it.  An
ancestor that is asked for is found if the candidate has one, and no lookup is out of range.  The
candidate is one chain: each header names the hash of the one below. -/
theorem batch_checked_on_own_history (hmain : MainChain p base tip s)
    (hstored : s.headers.get parent.height = some parent)
    (hlinked : p.Linked (parent.header :: headers)) :
    (∀ height below header, candidate s parent headers height = some below →
      candidate s parent headers (height + 1) = some header →
      header.prevBlock = p.blockHash below) ∧
    ∀ extension below header,
      (extension, below, header) ∈ checkHeaderCalls p s [] parent.toLocalInfo headers →
      candidate s parent headers below.height = some below.header ∧
      candidate s parent headers (below.height + 1) = some header ∧
      ∀ l, Handed s extension (newLightHeaderCtx below.height below.header) l →
        (∃ own, candidate s parent headers l.height = some own ∧
          l = newLightHeaderCtx l.height own) ∧
        ∀ distance : Nat, l.relativeAncestorCtx s extension distance =
          .ok (if distance ≤ l.height then
            (candidate s parent headers (l.height - distance)).map
              (newLightHeaderCtx (l.height - distance)) else none) := by
  refine ⟨fun height below header => candidate_linked hstored hmain hlinked, ?_⟩
  intro extension below header hcall
  obtain ⟨i, hheader, hbelow, hht, rfl⟩ := mem_checkHeaderCalls hcall
  have hi : i ≤ headers.length := (List.getElem?_eq_some_iff.mp hheader).1.le
  have hown : candidate s parent headers (parent.height + i) = some below.header := by
    rw [candidate, if_neg (by omega), Nat.add_sub_cancel_left]
    exact hbelow
  replace hht : below.height = parent.height + i := hht
  rw [hht, nil_append]
  refine ⟨hown, ?_, fun l hl => ?_⟩
  · rw [candidate, if_neg (by omega), Nat.add_assoc, Nat.add_sub_cancel_left]
    exact hheader
  · obtain ⟨hle, hon⟩ := hl.on_candidate hstored hi hown
    exact ⟨hon, relativeAncestorCtx_eq hstored hi hle⟩

/-- The third header of a fork is checked with the base header as the ancestor two below its
parent. -/
theorem sample_fork_checked :
    ∃ extension below header,
      (extension, below, header) ∈ checkHeaderCalls simple (Sample.after [Sample.twoHeaders]).1 []
        Sample.root.toLocalInfo Sample.threeHeaders ∧
      below.height = 7 ∧
      (newLightHeaderCtx below.height below.header).relativeAncestorCtx
        (Sample.after [Sample.twoHeaders]).1 extension 2
          = .ok (some (newLightHeaderCtx 5 Sample.root.header)) := by
  obtain ⟨history, run⟩ := Sample.exists_run [Sample.twoHeaders]
  obtain ⟨tip, hmain⟩ := exists_mainChain_of_run simple_sound run
  have hcall : ∃ call ∈ checkHeaderCalls simple (Sample.after [Sample.twoHeaders]).1 []
      Sample.root.toLocalInfo Sample.threeHeaders, call.2.1.height = 7 := by decide +kernel
  obtain ⟨⟨extension, below, header⟩, hcall, hht⟩ := hcall
  have hstored : (Sample.after [Sample.twoHeaders]).1.headers.get Sample.root.height
      = some Sample.root := by decide +kernel
  have hlookups := (batch_checked_on_own_history hmain hstored
    (by decide +kernel)).2 extension below header hcall
  refine ⟨extension, below, header, hcall, hht, ?_⟩
  have hfound := (hlookups.2.2 _ .parent).2 2
  rw [show (newLightHeaderCtx below.height below.header).height = 7 from hht] at hfound
  exact hfound

end Babylon.LightClient
