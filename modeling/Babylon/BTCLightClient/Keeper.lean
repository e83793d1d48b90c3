/-
  `x/btclightclient`: the header store and `InsertHeaders`.

  `BtcLightClient.InsertHeaders` only reads the store and says what to insert and
  how far to roll back; the keeper then changes the store and calls the hooks of
  `btcstaking` and `btccheckpoint`.  The keeper call returns the store and the state
  of the hooks also when it fails, so that a failure after a write would be seen.
-/
import Babylon.BTCLightClient.Types
import Babylon.Lib.IndexedLog

set_option autoImplicit false

namespace Babylon.LightClient

open Lib

/-! ## The header store, `keeper/state.go` -/

/-- `headersState`: headers by height, and heights by hash. -/
structure HeadersState where
  headers : KVStore Nat BTCHeaderInfo
  hashToHeight : KVStore ChainHash Nat

namespace HeadersState

/-- The store before the base header is set. -/
def empty : HeadersState := ⟨KVStore.empty, KVStore.empty⟩

variable (s : HeadersState)

/-- `insertHeader`. -/
def insertHeader (h : BTCHeaderInfo) : HeadersState where
  headers := s.headers.set h.height h
  hashToHeight := s.hashToHeight.set h.hash h.height

/-- `deleteHeader`. -/
def deleteHeader (h : BTCHeaderInfo) : HeadersState where
  headers := s.headers.delete h.height
  hashToHeight := s.hashToHeight.delete h.hash

/-- The headers `rollBackHeadersUpTo` collects while it iterates from the tip down. -/
def headersToDelete (height : Nat) : List BTCHeaderInfo → List BTCHeaderInfo → List BTCHeaderInfo
  | collected, [] => collected
  | collected, header :: rest =>
    -- a rollback to a height above the tip has been requested
    if collected = [] ∧ header.height ≤ height then collected
    else if header.height = height then collected
    else headersToDelete height (collected ++ [header]) rest

/-- `rollBackHeadersUpTo`. -/
def rollBackHeadersUpTo (height : Nat) : HeadersState :=
  (headersToDelete height [] (s.headers.entries.reverse.map Prod.snd)).foldl deleteHeader s

/-- `GetHeaderByHeight`; `none` is `ErrHeaderDoesNotExist`. -/
def getHeaderByHeight (height : Nat) : Option BTCHeaderInfo :=
  s.headers.get height

/-- `GetHeaderByHash`; `none` is `ErrHeaderDoesNotExist`. -/
def getHeaderByHash (hash : ChainHash) : Outcome (Option BTCHeaderInfo) :=
  match s.hashToHeight.get hash with
  | none => return none
  | some height => do
      let header ← orThrow (s.headers.get height)
        (.panic "header height exists but header does not. HeaderHash: %s, HeaderHeight: %d")
      return some header

/-- `GetTip`. -/
def getTip : Option BTCHeaderInfo := s.headers.last?.map Prod.snd

/-- `MainChainDepth`; `none` is `ErrHeaderDoesNotExist`. -/
def mainChainDepth (headerHash : ChainHash) : Outcome (Option Nat) := do
  let header ← s.getHeaderByHash headerHash
  match header with
  | none => return none
  | some headerInfo => do
      let tipInfo ← orThrow s.getTip (.panic "invalid memory address or nil pointer dereference")
      ensure (headerInfo.height ≤ tipInfo.height) (.panic "tip height is less than header height")
      return some (tipInfo.height - headerInfo.height)

end HeadersState

/-! ## Checking a batch, `types/btc_light_client.go` -/

/-- `storeWithExtensionChain.getHeaderAtHeight`: the headers checked so far stand above
the stored ones. -/
def getHeaderAtHeight (s : HeadersState) (extension : List LocalHeaderInfo) (height : Nat) :
    Option LocalHeaderInfo :=
  match extension with
  | [] => (s.getHeaderByHeight height).map BTCHeaderInfo.toLocalInfo
  | lowest :: _ =>
    if height < lowest.height then
      (s.getHeaderByHeight height).map BTCHeaderInfo.toLocalInfo
    else
      -- past the end this is an index out of range; no ancestor of a header is there
      extension[height - lowest.height]?

/-- `checkHeader`. -/
def checkHeader (p : BtcChainParams) (s : HeadersState) (extension : List LocalHeaderInfo)
    (parentHeaderInfo : LocalHeaderInfo) (blockHeader : BlockHeader) : Bool :=
  p.checkBlockHeaderContext (getHeaderAtHeight s extension) parentHeaderInfo blockHeader &&
    -- `CheckBlockHeaderSanity`: header times are whole seconds, and the time source
    -- passed in disables the check against the future
    p.checkProofOfWork blockHeader

/-- `processNewHeadersChain`: check the headers one by one and append them to the
extension. -/
def processNewHeadersChain (p : BtcChainParams) (s : HeadersState) :
    List LocalHeaderInfo → LocalHeaderInfo → List BlockHeader → Outcome (List LocalHeaderInfo)
  | extension, _, [] => return extension
  | extension, parentHeaderInfo, blockHeader :: chain => do
      ensure (checkHeader p s extension parentHeaderInfo blockHeader = true)
        (.wrapf errInvalidHeader "provided header contains invalid header. Error msg: %s: %w")
      let totalWork ← cumulativeWork parentHeaderInfo.totalWork (calcHeaderWork blockHeader)
      let newHeaderInfo : LocalHeaderInfo := ⟨blockHeader, parentHeaderInfo.height + 1, totalWork⟩
      processNewHeadersChain p s (extension ++ [newHeaderInfo]) newHeaderInfo chain

/-- `InsertResult`. -/
structure InsertResult where
  headersToInsert : List BTCHeaderInfo
  /-- `RollbackInfo.HeaderToRollbackTo` -/
  headerToRollbackTo : Option BTCHeaderInfo

/-- `BtcLightClient.InsertHeaders`. -/
def BtcChainParams.insertHeaders (p : BtcChainParams) (readStore : HeadersState)
    (headers : List BlockHeader) : Outcome InsertResult := do
  let firstHeaderOfExtensionChain ← orThrow headers.head? (.errorf "cannot insert empty headers")
  ensure (p.headersFormChain headers = true) (.errorf "headers do not form a chain")
  let currentTip ← orThrow readStore.getTip (.errorf "cannot insert headers when tip is nil")
  if firstHeaderOfExtensionChain.prevBlock = p.blockHash currentTip.header then
    -- most common case: extending the current tip
    let extension ← processNewHeadersChain p readStore [] currentTip.toLocalInfo headers
    return ⟨extension.map p.toBTCHeaderInfo, none⟩
  else
    let known ← readStore.getHeaderByHash (p.blockHash firstHeaderOfExtensionChain)
    ensure (known = none)
      (.wrapf errForkStartWithKnownHeader "first header of extension chain is known header: %s")
    let parent ← readStore.getHeaderByHash firstHeaderOfExtensionChain.prevBlock
    let forkParent ← orThrow parent (.wrapf errHeaderParentDoesNotExist
      "cannot find parent header with hash %s for provided chain: %w")
    let extension ← processNewHeadersChain p readStore [] forkParent.toLocalInfo headers
    let tipOfNewChain ← orThrow extension.getLast? (.panic "index out of range [-1]")
    ensure (currentTip.work < tipOfNewChain.totalWork) (.wrapf errChainWithNotEnoughWork
      "new chain work %s, is not better than current tip work %s: %w")
    return ⟨extension.map p.toBTCHeaderInfo, some forkParent⟩

/-! ## The keeper, `keeper/keeper.go` and `keeper/triggers.go` -/

/-- The hooks of the modules that follow the light client, over their state `W`. -/
structure BTCLightClientHooks (W : Type) where
  afterBTCRollBack : W → BTCHeaderInfo → BTCHeaderInfo → W
  afterBTCHeaderInserted : W → BTCHeaderInfo → W
  afterBTCRollForward : W → BTCHeaderInfo → W

variable {W : Type}

/-- `CheckRollBackInvariants`; the caller panics with the error.  Returns the tip the
rollback starts from. -/
def checkRollBackInvariants (rollbackFrom : Option BTCHeaderInfo) (rollbackTo : BTCHeaderInfo) :
    Outcome BTCHeaderInfo := do
  let rollbackFrom ← orThrow rollbackFrom (.panic "Call BTC rollback without tip")
  ensure (rollbackTo.height < rollbackFrom.height)
    (.panic "BTC rollback with rollback 'To' higher or equal than 'From'\n%s\n%s")
  return rollbackFrom

/-- One iteration of the loop over `HeadersToInsert`. -/
def insertAndTrigger (hooks : BTCLightClientHooks W) (state : HeadersState × W)
    (header : BTCHeaderInfo) : HeadersState × W :=
  (state.1.insertHeader header,
    hooks.afterBTCRollForward (hooks.afterBTCHeaderInserted state.2 header) header)

/-- `triggerEventAndHandleHooksHandler`: roll back, then insert. -/
def triggerEventAndHandleHooksHandler (hooks : BTCLightClientHooks W) (state : HeadersState × W)
    (result : InsertResult) : Outcome Unit × HeadersState × W :=
  match result.headerToRollbackTo with
  | none => (.ok (), result.headersToInsert.foldl (insertAndTrigger hooks) state)
  | some rollbackTo =>
    let s := state.1.rollBackHeadersUpTo rollbackTo.height
    match checkRollBackInvariants state.1.getTip rollbackTo with
    | .error fault => (.error fault, s, state.2)
    | .ok lastTip =>
      (.ok (), result.headersToInsert.foldl (insertAndTrigger hooks)
        (s, hooks.afterBTCRollBack state.2 lastTip rollbackTo))

/-- `Keeper.InsertHeadersWithHookAndEvents`, which `MsgInsertHeaders` calls: the outcome,
and the state after the call. -/
def insertHeadersWithHookAndEvents (p : BtcChainParams) (hooks : BTCLightClientHooks W)
    (state : HeadersState × W) (headers : List BlockHeader) : Outcome Unit × HeadersState × W :=
  if headers = [] then (.error (.registered errEmptyMessage), state)
  else
    match p.insertHeaders state.1 headers with
    | .error fault => (.error fault, state)
    | .ok result => triggerEventAndHandleHooksHandler hooks state result

end Babylon.LightClient
