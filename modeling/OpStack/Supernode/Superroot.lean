import OpStack.Eth.SuperRoot

namespace OpStack.Supernode
open Lib Eth

structure SyncStatus where
  currentL1 : L1BlockRef
  safeL2 : L2BlockRef
  localSafeL2 : L2BlockRef
  finalizedL2 : L2BlockRef

def SyncStatus.zero : SyncStatus :=
  ⟨.zero,.zero,.zero,.zero⟩

/-- The answers of the container of a chain to one request. A sync status may be nil. -/
structure ChainContainer where
  syncStatus : Option (Option SyncStatus)
  verifierCurrentL1s : List BlockID
  verifiedAt : UInt64 → Fetched (BlockID × BlockID)
  outputRootAtL2BlockNumber : UInt64 → Option Hash
  optimisticOutputAtTimestamp : UInt64 → Fetched OutputV0
  optimisticAt : UInt64 → Fetched (BlockID × BlockID)

inductive SuperrootError where
  | syncStatus (chain : ChainID)
  | verifiedBlock (chain : ChainID)
  | outputRoot (chain : ChainID) (number : UInt64)
  | optimisticBlock (chain : ChainID)
  | optimisticSource (chain : ChainID)

/-- The lower block, where a zero minimum stands for none yet. -/
def takeLower (min b : BlockID) : BlockID :=
  if b.number < min.number ∨ min = .zero then b else min

structure Aggregate where
  chainIDs : List ChainID
  currentL1 : BlockID
  safeTimestamp : Option UInt64
  localSafeTimestamp : Option UInt64
  finalizedTimestamp : Option UInt64

def lowerTime (min : Option UInt64) (time : UInt64) : Option UInt64 :=
  match min with
  | none => some time
  | some m => some (if time < m then time else m)

/-- `Aggregate` of the sync statuses, in the order in which the map is ranged over. -/
def aggregate (agg : Aggregate) :
    List (ChainID × ChainContainer) → Except SuperrootError Aggregate
  | [] => .ok { agg with chainIDs := agg.chainIDs.mergeSort fun a b => a.toNat ≤ b.toNat }
  | (chainID,chain)::rest => do
    let answer ← orFail (.syncStatus chainID) chain.syncStatus
    let status := answer.getD SyncStatus.zero
    aggregate
      ⟨agg.chainIDs ++ [chainID],
        chain.verifierCurrentL1s.foldl takeLower (takeLower agg.currentL1 status.currentL1.id),
        lowerTime agg.safeTimestamp status.safeL2.time,
        lowerTime agg.localSafeTimestamp status.localSafeL2.time,
        lowerTime agg.finalizedTimestamp status.finalizedL2.time⟩ rest

structure Verified where
  minVerifiedRequiredL1 : BlockID
  chainOutputs : List ChainIDAndOutput
  notFound : Bool

def collectVerified (timestamp : UInt64) (v : Verified) :
    List (ChainID × ChainContainer) → Except SuperrootError Verified
  | [] => .ok v
  | (chainID,chain)::rest =>
    match chain.verifiedAt timestamp with
    | .notFound => collectVerified timestamp { v with notFound := true } rest
    | .failed => .error (.verifiedBlock chainID)
    | .found (verifiedL2,verifiedL1) => do
      let outRoot ← orFail (.outputRoot chainID verifiedL2.number)
        (chain.outputRootAtL2BlockNumber verifiedL2.number)
      collectVerified timestamp
        { v with
          minVerifiedRequiredL1 := takeLower v.minVerifiedRequiredL1 verifiedL1
          chainOutputs := v.chainOutputs ++ [⟨chainID,outRoot⟩] } rest

def optimisticOf (keccak256 : Bytes → Hash) (timestamp : UInt64) (chainID : ChainID)
    (chain : ChainContainer) : Except SuperrootError (Option OutputWithRequiredL1) :=
  match chain.optimisticOutputAtTimestamp timestamp with
  | .notFound => .ok none
  | .failed => .error (.optimisticBlock chainID)
  | .found output =>
    match chain.optimisticAt timestamp with
    | .notFound => .ok none
    | .failed => .error (.optimisticSource chainID)
    | .found (_,optimisticL1) => .ok (some ⟨some output,output.root keccak256,optimisticL1⟩)

def collectOptimistic (keccak256 : Bytes → Hash) (timestamp : UInt64)
    (optimistic : ChainID → Option OutputWithRequiredL1) :
    List (ChainID × ChainContainer) → Except SuperrootError (ChainID → Option OutputWithRequiredL1)
  | [] => .ok optimistic
  | (chainID,chain)::rest => do
    match ← optimisticOf keccak256 timestamp chainID chain with
    | none => collectOptimistic keccak256 timestamp optimistic rest
    | some output =>
      collectOptimistic keccak256 timestamp (Function.update optimistic chainID (some output)) rest

structure Superroot where
  chains : List (ChainID × ChainContainer)
  distinct : (chains.map Prod.fst).Nodup

/-- The orders in which the loops of a request range over the map of chains. -/
structure Superroot.Ranges (s : Superroot) where
  statuses : List (ChainID × ChainContainer)
  verified : List (ChainID × ChainContainer)
  optimistic : List (ChainID × ChainContainer)
  statuses_perm : statuses.Perm s.chains
  verified_perm : verified.Perm s.chains
  optimistic_perm : optimistic.Perm s.chains

/-- The answer of `superroot_atTimestamp`, with what its challengers do not read. -/
structure AtTimestampResponse extends SuperRootAtTimestampResponse where
  currentSafeTimestamp : UInt64
  currentLocalSafeTimestamp : UInt64
  currentFinalizedTimestamp : UInt64
  superRoot : Option Hash

def response (keccak256 : Bytes → Hash) (timestamp : UInt64) (agg : Aggregate) (v : Verified)
    (optimistic : ChainID → Option OutputWithRequiredL1) : AtTimestampResponse :=
  let superV1 := newSuperV1 timestamp v.chainOutputs
  { currentL1 := agg.currentL1
    optimisticAtTimestamp := optimistic
    chainIDs := agg.chainIDs
    data := if v.notFound then none else some ⟨v.minVerifiedRequiredL1,some superV1⟩
    currentSafeTimestamp := agg.safeTimestamp.getD 0
    currentLocalSafeTimestamp := agg.localSafeTimestamp.getD 0
    currentFinalizedTimestamp := agg.finalizedTimestamp.getD 0
    superRoot := if v.notFound then none else some (superV1.root keccak256) }

def Superroot.atTimestamp (s : Superroot) (keccak256 : Bytes → Hash) (r : s.Ranges)
    (timestamp : UInt64) : Except SuperrootError AtTimestampResponse := do
  let agg ← aggregate ⟨[],.zero,none,none,none⟩ r.statuses
  let v ← collectVerified timestamp ⟨.zero,[],false⟩ r.verified
  let optimistic ← collectOptimistic keccak256 timestamp (fun _ => none) r.optimistic
  pure (response keccak256 timestamp agg v optimistic)

end OpStack.Supernode
