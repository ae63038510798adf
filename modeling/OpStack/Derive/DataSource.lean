import OpStack.Derive.L1Traversal

namespace OpStack.Derive
open Lib Eth Rollup

def blobTxType : Nat := 3
def l1DepositTxType : Nat := 0x7e

/-- The sender is the one that the L1 signer recovers, where the signature is valid. -/
structure L1Transaction where
  type : Nat
  toAddr : Option Address
  sender : Option Address
  data : Bytes
  blobHashes : List Hash

/-- A blob is known to the sources by its decoder only. -/
structure DataSourceConfig (β : Type) where
  batchInboxAddress : Address
  blobToData : β → Option Bytes

/-- The answers of the L1 node and of the beacon node during one call; a fetched blob may be nil. -/
structure DataFetcher (β : Type) where
  infoAndTxsByHash : Hash → Fetched (List L1Transaction)
  getBlobsByHash : UInt64 → List Hash → Fetched (List (Option β))

variable {β : Type} (dsCfg : DataSourceConfig β) (fetcher : DataFetcher β)

def isValidBatchTx (tx : L1Transaction) (batcherAddr : Address) : Bool :=
  if blobTxType < tx.type ∧ tx.type ≠ l1DepositTxType then false
  else if tx.toAddr ≠ some dsCfg.batchInboxAddress then false
  else tx.sender = some batcherAddr

def dataFromEVMTransactions (batcherAddr : Address) (txs : List L1Transaction) : List Bytes :=
  (txs.filter fun tx => isValidBatchTx dsCfg tx batcherAddr).map L1Transaction.data

structure CalldataSource where
  ref : L1BlockRef
  batcherAddr : Address
  data : Option (List Bytes)

namespace CalldataSource

/-- The constructor does not fail: `next` tries again. -/
def new (ref : L1BlockRef) (batcherAddr : Address) : CalldataSource :=
  match fetcher.infoAndTxsByHash ref.hash with
  | .found txs => ⟨ref,batcherAddr,some (dataFromEVMTransactions dsCfg batcherAddr txs)⟩
  | _ => ⟨ref,batcherAddr,none⟩

def pop (ds : CalldataSource) : List Bytes → CalldataSource × Except PipelineError Bytes
  | [] => ({ ds with data := some [] },.error .eof)
  | d::rest => ({ ds with data := some rest },.ok d)

def next (ds : CalldataSource) : CalldataSource × Except PipelineError Bytes :=
  match ds.data with
  | some data => ds.pop data
  | none =>
    match fetcher.infoAndTxsByHash ds.ref.hash with
    | .found txs => ds.pop (dataFromEVMTransactions dsCfg ds.batcherAddr txs)
    | .notFound => (ds,.error .reset)
    | .failed => (ds,.error .temporary)

end CalldataSource

/-- A placeholder for a blob stands until the blob is fetched. -/
inductive BlobOrCalldata (β : Type) where
  | calldata (d : Bytes)
  | blob (b : β)

structure BlobDataSource (β : Type) where
  ref : L1BlockRef
  batcherAddr : Address
  data : Option (List (BlobOrCalldata β))

def dataAndHashesFromTxs (batcherAddr : Address) :
    List L1Transaction → List (BlobOrCalldata Unit) × List Hash
  | [] => ([],[])
  | tx::txs =>
    let (data,hashes) := dataAndHashesFromTxs batcherAddr txs
    if !isValidBatchTx dsCfg tx batcherAddr then (data,hashes)
    else if tx.type ≠ blobTxType then (.calldata tx.data::data,hashes)
    else (tx.blobHashes.map (fun _ => .blob ()) ++ data,tx.blobHashes ++ hashes)

def fillBlobPointers : List (BlobOrCalldata Unit) → List (Option β) →
    Option (List (BlobOrCalldata β))
  | [],[] => some []
  | [],_::_ => none
  | .calldata d::data,blobs => (fillBlobPointers data blobs).map (.calldata d::·)
  | .blob ()::data,some b::blobs => (fillBlobPointers data blobs).map (.blob b::·)
  | .blob ()::_,_ => none

namespace BlobDataSource

def new (ref : L1BlockRef) (batcherAddr : Address) : BlobDataSource β := ⟨ref,batcherAddr,none⟩

def fetchBlobs (ref : L1BlockRef) (hashes : List Hash) : Fetched (List (Option β)) :=
  if hashes = [] then .found [] else fetcher.getBlobsByHash ref.time hashes

def openSource (ds : BlobDataSource β) : Except PipelineError (List (BlobOrCalldata β)) :=
  match fetcher.infoAndTxsByHash ds.ref.hash with
  | .notFound => .error .reset
  | .failed => .error .temporary
  | .found txs =>
    let (data,hashes) := dataAndHashesFromTxs dsCfg ds.batcherAddr txs
    match fetchBlobs fetcher ds.ref hashes with
    | .notFound => .error .reset
    | .failed => .error .temporary
    | .found blobs =>
      match fillBlobPointers data blobs with
      | none => .error .reset
      | some data => .ok data

/-- The next piece of data; a blob that cannot be parsed is ignored. -/
def pop (ds : BlobDataSource β) :
    List (BlobOrCalldata β) → BlobDataSource β × Except PipelineError Bytes
  | [] => ({ ds with data := some [] },.error .eof)
  | .calldata d::rest => ({ ds with data := some rest },.ok d)
  | .blob b::rest =>
    match dsCfg.blobToData b with
    | some d => ({ ds with data := some rest },.ok d)
    | none => pop ds rest

def next (ds : BlobDataSource β) : BlobDataSource β × Except PipelineError Bytes :=
  match ds.data with
  | some data => ds.pop dsCfg data
  | none =>
    match ds.openSource dsCfg fetcher with
    | .error e => (ds,.error e)
    | .ok data => ds.pop dsCfg data

end BlobDataSource

inductive DataIter (β : Type) where
  | calldata (ds : CalldataSource)
  | blob (ds : BlobDataSource β)

namespace DataIter

def next : DataIter β → DataIter β × Except PipelineError Bytes
  | .calldata ds =>
    let (ds,result) := ds.next dsCfg fetcher
    (.calldata ds,result)
  | .blob ds =>
    let (ds,result) := ds.next dsCfg fetcher
    (.blob ds,result)

end DataIter

/-- The factory without alternative data availability; `beacon` tells whether there is a blob
fetcher. -/
structure DataSourceFactory (β : Type) where
  dsCfg : DataSourceConfig β
  beacon : Bool
  ecotoneTime : Option UInt64

def DataSourceFactory.openData (ds : DataSourceFactory β) (ref : L1BlockRef)
    (batcherAddr : Address) : Except PipelineError (DataIter β) :=
  if ds.ecotoneTime.any (· ≤ ref.time) then
    if !ds.beacon then .error .critical
    else .ok (.blob (.new ref batcherAddr))
  else .ok (.calldata (.new ds.dsCfg fetcher ref batcherAddr))

/-- A data source with the answers `ε` of its nodes during a call and iterators `ι`. -/
structure DataAvailabilitySource (ε ι : Type) where
  openData : ε → L1BlockRef → Address → Except PipelineError ι
  next : ε → ι → ι × Except PipelineError Bytes

def DataSourceFactory.source {β : Type} (ds : DataSourceFactory β) :
    DataAvailabilitySource (DataFetcher β) (DataIter β) where
  openData fetcher ref batcherAddr := ds.openData fetcher ref batcherAddr
  next fetcher it := it.next ds.dsCfg fetcher

/-- An error that is no longer `io.EOF` itself once it is wrapped. -/
def PipelineError.wrapped : PipelineError → PipelineError
  | .eof => .other
  | e => e

/-- `L1Retrieval` with the traversal before it; `datas` is the open iterator. -/
structure L1Retrieval (ι : Type) where
  prev : L1Traversal
  datas : Option ι

namespace L1Retrieval
variable {ε ι : Type} (dataSrc : DataAvailabilitySource ε ι)

def readNext (e : ε) (prev : L1Traversal) (it : ι) : L1Retrieval ι × Except PipelineError Bytes :=
  match dataSrc.next e it with
  | (_,.error .eof) => (⟨prev,none⟩,.error .eof)
  | (it,result) => (⟨prev,some it⟩,result)

def nextData (e : ε) (l1r : L1Retrieval ι) : L1Retrieval ι × Except PipelineError Bytes :=
  match l1r.datas with
  | some it => readNext dataSrc e l1r.prev it
  | none =>
    match l1r.prev.nextL1Block with
    | (prev,none) => (⟨prev,none⟩,.error .eof)
    | (prev,some block) =>
      match dataSrc.openData e block prev.sysCfg.batcherAddr with
      | .error err => (⟨prev,none⟩,.error err.wrapped)
      | .ok it => readNext dataSrc e prev it

/-- `Reset` after that of the traversal. It opens the base block's data itself. -/
def reset (e : ε) (base : L1BlockRef) (sysCfg : SystemConfig) :
    L1Retrieval ι × Option PipelineError :=
  match dataSrc.openData e base sysCfg.batcherAddr with
  | .error err => (⟨.reset base sysCfg,none⟩,some err.wrapped)
  | .ok it => (⟨.reset base sysCfg,some it⟩,some .eof)

end L1Retrieval

end OpStack.Derive
