/-
  `x/btcstaking/keeper/btc_reorg.go`: the largest reorganization of the Bitcoin
  chain, and the check that halts Babylon when it reached the confirmation depth.

  A staking transaction is accepted when its block is `BtcConfirmationDepth` deep.
  When all headers carry the same work, a reorganization that removes fewer headers
  than that leaves the block where it is, and makes the chain longer, so the block is
  still as deep when the next reorganization comes.
-/
import Babylon.BTCLightClient.InsertHeaders
import Babylon.BTCStaking.Keeper

set_option autoImplicit false

namespace Babylon.BTCStaking

open Lib LightClient BtcChainParams LightClient.Sample LightClient.BTCHeaderInfo BtcPrimitives List

/-- `LargestBtcReOrg`. -/
structure LargestBtcReOrg where
  blockDiff : Nat
  rollbackFrom : LightClient.BTCHeaderInfo
  rollbackTo : LightClient.BTCHeaderInfo

/-- `NewLargestBtcReOrg`. -/
def newLargestBtcReOrg (rollbackFrom rollbackTo : LightClient.BTCHeaderInfo) : LargestBtcReOrg :=
  ⟨rollbackFrom.height - rollbackTo.height, rollbackFrom, rollbackTo⟩

/-- `SetLargestBtcReorg`: the stored value after the call. -/
def setLargestBtcReorg (current : Option LargestBtcReOrg) (newLargestBlockReorg : LargestBtcReOrg) :
    Option LargestBtcReOrg :=
  match current with
  | none => some newLargestBlockReorg
  | some currentLargestReorg =>
    if newLargestBlockReorg.blockDiff ≤ currentLargestReorg.blockDiff then current
    else some newLargestBlockReorg

/-- `HaltIfBtcReorgLargerThanConfirmationDepth`, which `EndBlocker` calls. -/
def haltIfBtcReorgLargerThanConfirmationDepth (largestReorg : Option LargestBtcReOrg)
    (btcConfirmationDepth : Nat) : Outcome Unit :=
  match largestReorg with
  | none => return ()
  | some reorg => ensure (reorg.blockDiff < btcConfirmationDepth)
      (.panic "Reorg %d is larger than BTC confirmation Depth %d.\n%s\n%s")

/-- The hooks of `btcstaking` on the light client. -/
def lightClientHooks : BTCLightClientHooks (Option LargestBtcReOrg) where
  afterBTCRollBack current rollbackFrom rollbackTo :=
    setLargestBtcReorg current (newLargestBtcReOrg rollbackFrom rollbackTo)
  afterBTCHeaderInserted current _ := current
  afterBTCRollForward current _ := current

/-- What the light client answers to `btcstaking`. -/
def lightClientView (s : HeadersState) : BTCLightClient where
  tipHeight := (s.getTip.map height).getD 0
  baseHeight := min ((s.headers.first?.map Prod.fst).getD 0) ((s.getTip.map height).getD 0)
  headerByHash hash :=
    match s.getHeaderByHash hash with
    | .ok (some info) =>
      if 0 < info.height ∧ info.height ≤ (s.getTip.map height).getD 0 then
        some ⟨info.height, info.header.merkleRoot⟩
      else none
    | _ => none
  base_le_tip := Nat.min_le_right _ _
  header_le_tip := by
    intro hash header hheader
    split at hheader
    case h_1 info _ =>
      split at hheader
      case isTrue h =>
        obtain rfl := Option.some.inj hheader
        exact h.2
      case isFalse => cases hheader
    case h_2 => cases hheader
  header_pos := by
    intro hash header hheader
    split at hheader
    case h_1 info _ =>
      split at hheader
      case isTrue h =>
        obtain rfl := Option.some.inj hheader
        exact h.1
      case isFalse => cases hheader
    case h_2 => cases hheader

/-! ## Headers, inclusion proofs and the halt check -/

/-- What happens to the light client within blocks, and at their ends. -/
inductive ReorgOperation where
  | insertHeaders (headers : List BlockHeader)
  /-- a message is executed whose inclusion proof of a staking transaction is accepted -/
  | acceptInclusionProof (stakingTx : MsgTx) (stakingTime unbondingTime : Nat)
      (inclusionProof : InclusionProof)
  | endBlock

/-- The light client with the halt check of `btcstaking`, for a confirmation depth that does
not change.  A failed halt check stops the chain. -/
def reorgSystem (p : BtcChainParams) (prim : BtcPrimitives) (btcConfirmationDepth : Nat)
    (base : LightClient.BTCHeaderInfo) :
    System (HeadersState × Option LargestBtcReOrg) ReorgOperation where
  init state := base.Valid p ∧ state.1 = HeadersState.empty.insertHeader base
  step state
    | .insertHeaders headers =>
      some (insertHeadersWithHookAndEvents p lightClientHooks state headers).2
    | .acceptInclusionProof stakingTx stakingTime unbondingTime inclusionProof =>
      if succeeds (verifyInclusionProofAndGetHeight prim (lightClientView state.1) stakingTx
        btcConfirmationDepth stakingTime unbondingTime inclusionProof) then some state else none
    | .endBlock =>
      if succeeds (haltIfBtcReorgLargerThanConfirmationDepth state.2 btcConfirmationDepth) then
        some state else none

/-- All headers of the operation have the given work. -/
def ReorgOperation.HasWork (work : Nat) : ReorgOperation → Prop
  | .insertHeaders headers => ∀ header ∈ headers, calcHeaderWork header = work
  | .acceptInclusionProof _ _ _ _ => True
  | .endBlock => True

instance (work : Nat) : (operation : ReorgOperation) → Decidable (operation.HasWork work)
  | .insertHeaders headers =>
    inferInstanceAs (Decidable (∀ header ∈ headers, calcHeaderWork header = work))
  | .acceptInclusionProof _ _ _ _ => isTrue trivial
  | .endBlock => isTrue trivial

variable {p : BtcChainParams} {prim : BtcPrimitives} {btcConfirmationDepth work : Nat}
  {base tip : LightClient.BTCHeaderInfo} {s : HeadersState}
  {largest : Option LargestBtcReOrg}

/-- A reorganization of at least the confirmation depth was recorded. -/
def DeepReorg (btcConfirmationDepth : Nat) (largest : Option LargestBtcReOrg) : Prop :=
  ∃ reorg, largest = some reorg ∧ btcConfirmationDepth ≤ reorg.blockDiff

theorem haltIfBtcReorgLargerThanConfirmationDepth_ok_iff :
    haltIfBtcReorgLargerThanConfirmationDepth largest btcConfirmationDepth = .ok () ↔
      ¬ DeepReorg btcConfirmationDepth largest := by
  unfold haltIfBtcReorgLargerThanConfirmationDepth DeepReorg
  cases largest with
  | none => simp [pure_ok_iff]
  | some reorg => simp [ensure_ok_iff]

/-- The recorded reorganization never gets smaller, and is at least the new one. -/
theorem deepReorg_setLargestBtcReorg {reorg : LargestBtcReOrg} :
    DeepReorg btcConfirmationDepth (setLargestBtcReorg largest reorg) ↔
      DeepReorg btcConfirmationDepth largest ∨ btcConfirmationDepth ≤ reorg.blockDiff := by
  unfold DeepReorg setLargestBtcReorg
  cases largest with
  | none => simp
  | some current =>
    dsimp only
    split
    case isTrue hle =>
      simp only [Option.some.injEq, exists_eq_left']
      omega
    case isFalse hlt =>
      simp only [Option.some.injEq, exists_eq_left']
      omega

theorem afterInserted_lightClientHooks (inserted : List LightClient.BTCHeaderInfo) :
    afterInserted lightClientHooks largest inserted = largest := by
  induction inserted with
  | nil => rfl
  | cons info rest ih => exact ih

/-- Every header above the base header has the same work. -/
def UniformWork (work : Nat) (base : LightClient.BTCHeaderInfo) (s : HeadersState) : Prop :=
  ∀ height info, base.height < height → s.headers.get height = some info →
    calcHeaderWork info.header = work

variable {info : LightClient.BTCHeaderInfo}

variable {parent : LightClient.BTCHeaderInfo}

/-- With the same work for all headers, work counts headers. -/
theorem UniformWork.work_eq (h : MainChain p base tip s) (hwork : UniformWork work base s)
    (hprt : s.headers.get parent.height = some parent)
    {height : Nat} (hle : parent.height ≤ height) (hinfo : s.headers.get height = some info) :
    info.work = parent.work + (height - parent.height) * work := by
  induction height, hle using Nat.le_induction generalizing info with
  | base =>
    obtain rfl : parent = info := Option.some.inj (hprt.symm.trans hinfo)
    rw [Nat.sub_self, Nat.zero_mul, Nat.add_zero]
  | succ height hle ih =>
    have hbase := (h.height_le hprt).1
    obtain ⟨below, hbelow⟩ := h.chained.exists_block (le_trans hbase hle)
      (le_trans (Nat.le_succ _) (h.height_le hinfo).2)
    have hlink := (h.linked height below info hbelow hinfo).2
    have hone := hwork (height + 1) info (by omega) hinfo
    rw [hlink, ih hbelow, hone, Nat.succ_sub hle, Nat.succ_mul, Nat.add_assoc]

/-- The headers an accepted batch was stored as are the headers of the batch. -/
theorem header_mem_of_mem_entriesOn
    {headers : List BlockHeader} (h : info ∈ entriesOn p parent headers) :
    info.header ∈ headers := by
  have hchain : ∀ (headers : List BlockHeader) (parent : LocalHeaderInfo),
      ∀ entry ∈ chainFrom parent headers, entry.header ∈ headers := by
    intro headers
    induction headers with
    | nil => intro parent entry hent; cases hent
    | cons header rest ih =>
      intro parent entry hent
      rcases mem_cons.mp hent with rfl | hent
      · exact mem_cons_self
      · exact mem_cons_of_mem _ (ih _ entry hent)
  obtain ⟨entry, hent, rfl⟩ := mem_map.mp h
  exact hchain headers _ entry hent

section Accepted

variable {headers : List BlockHeader} {parent newTip : LightClient.BTCHeaderInfo}
  {s' : HeadersState} {largest' : Option LargestBtcReOrg}

section Accepted

variable (h : MainChain p base tip s) (hwork : UniformWork work base s)
  (hacc : Accepted p lightClientHooks base tip s largest headers parent newTip s' largest')
  (hsame : ∀ header ∈ headers, calcHeaderWork header = work)

include hwork hacc hsame

theorem UniformWork.accepted : UniformWork work base s' := by
  intro height info hht hinfo
  rcases Nat.lt_or_ge parent.height height with hlt | hge
  · rw [hacc.reorganized.replaced height hlt] at hinfo
    exact hsame _ (header_mem_of_mem_entriesOn (mem_of_getElem? hinfo))
  · rw [hacc.reorganized.kept height hge] at hinfo
    exact hwork height info hht hinfo

include h

/-- An accepted batch makes the chain longer. -/
theorem accepted_height_lt : tip.height < newTip.height := by
  have hsto := hacc.stands.stored
  have hle := (h.height_le hsto).2
  have htip := hwork.work_eq h hsto hle h.get_tip
  have hnew := hacc.newTip_work
  have hmore := hacc.more_work
  rw [map_congr_left hsame, map_const', sum_replicate, Nat.nsmul_eq_mul] at hnew
  rw [htip, hnew] at hmore
  have hcnt : tip.height - parent.height < headers.length :=
    lt_of_mul_lt_mul_right (Nat.lt_of_add_lt_add_left hmore) (Nat.zero_le work)
  rw [hacc.newTip_height]
  omega

/-- A header as deep as the confirmation depth survives an accepted batch, and is as deep
afterwards, unless a reorganization of that depth is recorded. -/
theorem accepted_keeps_deep_header (hshal : ¬ DeepReorg btcConfirmationDepth largest')
    (hinfo : s.headers.get info.height = some info)
    (hdeep : info.height + btcConfirmationDepth ≤ tip.height) :
    s'.headers.get info.height = some info ∧
      info.height + btcConfirmationDepth ≤ newTip.height := by
  have hlonger := accepted_height_lt h hwork hacc hsame
  refine ⟨?_, by omega⟩
  have hle : info.height ≤ parent.height := by
    rcases hacc.hooks_called with ⟨rfl, -⟩ | ⟨hlt, hlargest⟩
    · omega
    · -- a rollback of fewer headers than the confirmation depth
      rw [afterInserted_lightClientHooks] at hlargest
      rw [hlargest] at hshal
      have hsmall := (not_or.mp (deepReorg_setLargestBtcReorg.not.mp hshal)).2
      have hdiff : tip.height - parent.height < btcConfirmationDepth := not_le.mp hsmall
      omega
  rw [hacc.reorganized.kept _ hle, hinfo]

end Accepted

/-- A deep reorganization stays recorded. -/
theorem accepted_deepReorg
    (hacc : Accepted p lightClientHooks base tip s largest headers parent newTip s' largest')
    (hdeep : DeepReorg btcConfirmationDepth largest) : DeepReorg btcConfirmationDepth largest' := by
  rcases hacc.hooks_called with ⟨-, hlargest⟩ | ⟨-, hlargest⟩
  · rw [hlargest, afterInserted_lightClientHooks]
    exact hdeep
  · rw [hlargest, afterInserted_lightClientHooks]
    exact deepReorg_setLargestBtcReorg.mpr (.inl hdeep)

end Accepted

/-- An accepted inclusion proof names a stored header at the confirmation depth. -/
theorem exists_deep_header (h : MainChain p base tip s) {stakingTx : MsgTx}
    {stakingTime unbondingTime : Nat} {inclusionProof : InclusionProof}
    (hacc : succeeds (verifyInclusionProofAndGetHeight prim (lightClientView s) stakingTx
      btcConfirmationDepth stakingTime unbondingTime inclusionProof) = true) :
    ∃ info, s.getHeaderByHash inclusionProof.headerHash = .ok (some info) ∧
      s.headers.get info.height = some info ∧ info.height + btcConfirmationDepth ≤ tip.height := by
  obtain ⟨range, hrng⟩ := succeeds_iff.mp hacc
  simp only [verifyInclusionProofAndGetHeight, ok_iff] at hrng
  obtain ⟨header, hhd, _, -, _, -, _, hdep, -⟩ := hrng
  have htipHeight : (lightClientView s).tipHeight = tip.height := by
    simp [lightClientView, h.tip_stored]
  rw [htipHeight] at hdep
  simp only [lightClientView] at hhd
  split at hhd
  case h_2 => cases hhd
  case h_1 info hinfo =>
    split at hhd
    case isFalse => cases hhd
    case isTrue hht =>
      obtain rfl := Option.some.inj hhd
      obtain ⟨hsto, -⟩ := h.getHeaderByHash_some_iff.mp hinfo
      have hle := (h.height_le hsto).2
      refine ⟨info, hinfo, hsto, ?_⟩
      dsimp only at hdep
      omega

/-- What is kept along a run: one main chain of headers of the same work, and every header
that served an inclusion proof is on it at the confirmation depth, unless a deep
reorganization is recorded. -/
structure ReorgInvariant (p : BtcChainParams) (btcConfirmationDepth work : Nat)
    (base : LightClient.BTCHeaderInfo)
    (history : List ((HeadersState × Option LargestBtcReOrg) × ReorgOperation))
    (state : HeadersState × Option LargestBtcReOrg) (tip : LightClient.BTCHeaderInfo) : Prop where
  mainChain : MainChain p base tip state.1
  uniform : UniformWork work base state.1
  served : ∀ past ∈ history, ∀ stakingTx stakingTime unbondingTime inclusionProof,
    past.2 = .acceptInclusionProof stakingTx stakingTime unbondingTime inclusionProof →
    ¬ DeepReorg btcConfirmationDepth state.2 →
    ∃ info, past.1.1.getHeaderByHash inclusionProof.headerHash = .ok (some info) ∧
      state.1.headers.get info.height = some info ∧
      info.height + btcConfirmationDepth ≤ tip.height

variable {history : List ((HeadersState × Option LargestBtcReOrg) × ReorgOperation)}
  {state : HeadersState × Option LargestBtcReOrg}

theorem exists_reorgInvariant (hp : p.Sound)
    (run : Run (reorgSystem p prim btcConfirmationDepth base) history state)
    (hsame : Steps (fun _ operation => operation.HasWork work) history) :
    ∃ tip, ReorgInvariant p btcConfirmationDepth work base history state tip := by
  refine run.historyInvariant
    (fun history state => ∃ tip, ReorgInvariant p btcConfirmationDepth work base history state tip)
    ?_ ?_ hsame
  · rintro state ⟨hbase, hstate⟩
    have hmain : MainChain p base base state.1 := hstate ▸ mainChain_base hbase
    refine ⟨base, hmain, ?_, fun past hpast => (by cases hpast)⟩
    intro height info hlt hget
    have hle := (hmain.height_le hget).2
    omega
  · rintro history ⟨s, largest⟩ operation next _ ⟨tip, inv⟩ hwork hstep
    cases operation with
    | insertHeaders headers =>
      obtain rfl := Option.some.inj hstep
      -- the step that is taken now accepts no inclusion proof
      have hpast : ∀ {past : (HeadersState × Option LargestBtcReOrg) × ReorgOperation}
          {stakingTx stakingTime unbondingTime inclusionProof},
          past ∈ ((s, largest), ReorgOperation.insertHeaders headers) :: history →
          past.2 = .acceptInclusionProof stakingTx stakingTime unbondingTime inclusionProof →
          past ∈ history := by
        intro past _ _ _ _ hmem heq
        rcases mem_cons.mp hmem with rfl | hmem
        · cases heq
        · exact hmem
      rcases insertHeadersWithHookAndEvents_cases hp lightClientHooks largest inv.mainChain headers
        with ⟨fault, hcall⟩ | ⟨parent, newTip, s', largest', hacc, hcall⟩
      · rw [hcall]
        exact ⟨tip, inv.mainChain, inv.uniform, fun past hmem _ _ _ _ heq =>
          inv.served past (hpast hmem heq) _ _ _ _ heq⟩
      · rw [hcall]
        refine ⟨newTip, hacc.mainChain, inv.uniform.accepted hacc hwork, ?_⟩
        intro past hmem stakingTx stakingTime unbondingTime inclusionProof heq hshal
        obtain ⟨info, hserved, hsto, hdeep⟩ := inv.served past (hpast hmem heq) _ _ _ _ heq
          fun hdeep => hshal (accepted_deepReorg hacc hdeep)
        obtain ⟨hkept, hstill⟩ := accepted_keeps_deep_header inv.mainChain inv.uniform hacc
          hwork hshal hsto hdeep
        exact ⟨info, hserved, hkept, hstill⟩
    | acceptInclusionProof stakingTx stakingTime unbondingTime inclusionProof =>
      simp only [reorgSystem, Option.ite_none_right_eq_some, Option.some.injEq] at hstep
      obtain ⟨hverd, rfl⟩ := hstep
      refine ⟨tip, inv.mainChain, inv.uniform, ?_⟩
      intro past hmem _ _ _ proof heq hshal
      rcases mem_cons.mp hmem with rfl | hmem
      · cases heq
        exact exists_deep_header inv.mainChain hverd
      · exact inv.served past hmem _ _ _ _ heq hshal
    | endBlock =>
      simp only [reorgSystem, Option.ite_none_right_eq_some, Option.some.injEq] at hstep
      obtain ⟨-, rfl⟩ := hstep
      refine ⟨tip, inv.mainChain, inv.uniform, ?_⟩
      intro past hmem _ _ _ _ heq hshal
      rcases mem_cons.mp hmem with rfl | hmem
      · cases heq
      · exact inv.served past hmem _ _ _ _ heq hshal

/-- Reorganizations do not undo activated stake: if all headers have the same work and the
halt check has not fired, every header that served an inclusion proof is still on the main
chain, the same header as then. -/
theorem included_header_stays (hp : p.Sound) (prim : BtcPrimitives)
    (btcConfirmationDepth work : Nat) (base : LightClient.BTCHeaderInfo)
    (run : Run (reorgSystem p prim btcConfirmationDepth base) history state)
    (hsame : Steps (fun _ operation => operation.HasWork work) history)
    (hhalt : haltIfBtcReorgLargerThanConfirmationDepth state.2 btcConfirmationDepth = .ok ())
    {past : (HeadersState × Option LargestBtcReOrg) × ReorgOperation} (hpast : past ∈ history)
    {stakingTx : MsgTx} {stakingTime unbondingTime : Nat} {inclusionProof : InclusionProof}
    (haccept : past.2 = .acceptInclusionProof stakingTx stakingTime unbondingTime inclusionProof) :
    ∃ info, past.1.1.getHeaderByHash inclusionProof.headerHash = .ok (some info) ∧
      state.1.getHeaderByHash inclusionProof.headerHash = .ok (some info) := by
  obtain ⟨tip, inv⟩ := exists_reorgInvariant hp run hsame
  have hshallow := haltIfBtcReorgLargerThanConfirmationDepth_ok_iff.mp hhalt
  obtain ⟨info, hserved, hstored, -⟩ := inv.served past hpast _ _ _ _ haccept hshallow
  obtain ⟨earlier, hrun, hsub, -⟩ := run.of_mem hpast
  obtain ⟨pastTip, pastInv⟩ :=
    exists_reorgInvariant hp hrun fun step hstep => hsame step (hsub hstep)
  have hhash := (pastInv.mainChain.getHeaderByHash_some_iff.mp hserved).2
  exact ⟨info, hserved, inv.mainChain.getHeaderByHash_some_iff.mpr ⟨hstored, hhash⟩⟩

namespace Sample

open LightClient.Sample

/-- A transaction in the second position of its block. -/
def stakingTx : MsgTx := { txIn := [], txOut := [] }

/-- The block of the transaction, on top of the base header. -/
def stakingHeader : BlockHeader :=
  { header root.hash 0 with
    merkleRoot := simple.hashConcat 0 (simple.txHash stakingTx) }

def stakingHeaderHash : ChainHash := simple.blockHash stakingHeader

def inclusionProof : InclusionProof := ⟨stakingHeaderHash, 1, ⟨[0], 0⟩⟩

/-- Two headers deep, the block serves the proof. -/
def confirmingHeaders : List BlockHeader := stakingHeader :: batch 0 stakingHeaderHash 2

/-- A fork that replaces the tip. -/
def forkHeaders : List BlockHeader :=
  batch 1 (simple.blockHash (header stakingHeaderHash 0)) 2

def confirmed : HeadersState × Option LargestBtcReOrg :=
  (insertHeadersWithHookAndEvents simple lightClientHooks
    (HeadersState.empty.insertHeader root, none) confirmingHeaders).2

def forked : HeadersState × Option LargestBtcReOrg :=
  (insertHeadersWithHookAndEvents simple lightClientHooks confirmed forkHeaders).2

end Sample

/-- The header that served the proof is on the main chain after a fork that replaced one header. -/
theorem sample_included_header_stays :
    Sample.forked.2.map LargestBtcReOrg.blockDiff = some 1 ∧
      ∃ info, Sample.confirmed.1.getHeaderByHash Sample.stakingHeaderHash = .ok (some info) ∧
        Sample.forked.1.getHeaderByHash Sample.stakingHeaderHash = .ok (some info) := by
  have hstart : Run (reorgSystem simple simple 2 root)
      [] (HeadersState.empty.insertHeader root, none) :=
    .start ⟨root_valid, rfl⟩
  have hconfirmed := hstart.next (t := Sample.confirmed)
    (l := .insertHeaders Sample.confirmingHeaders) rfl
  have hstep : (reorgSystem simple simple 2 root).step
      Sample.confirmed (.acceptInclusionProof Sample.stakingTx 100 1 Sample.inclusionProof) =
        some Sample.confirmed := by
    simp only [reorgSystem]
    exact if_pos (by decide +kernel)
  have haccepted := hconfirmed.next hstep
  have hforked := haccepted.next (t := Sample.forked) (l := .insertHeaders Sample.forkHeaders) rfl
  refine ⟨by decide +kernel, ?_⟩
  refine included_header_stays simple_sound simple 2 4295032833
    root hforked ?_ ?_
    (mem_cons_of_mem _ mem_cons_self) rfl
  · intro past hpast
    simp only [mem_cons, not_mem_nil, or_false] at hpast
    rcases hpast with rfl | rfl | rfl
    · decide +kernel
    · trivial
    · decide +kernel
  · obtain ⟨_, hok⟩ := succeeds_iff.mp (show succeeds (haltIfBtcReorgLargerThanConfirmationDepth
      Sample.forked.2 2) = true by decide +kernel)
    exact hok

end Babylon.BTCStaking
