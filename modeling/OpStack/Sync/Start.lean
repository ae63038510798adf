import OpStack.Lib.Outcome
import OpStack.Rollup.Config

namespace OpStack.Sync
open Lib Eth Rollup

/-- The answers of the L1 node, after the attempts that `retry.Do` makes. -/
structure L1Chain where
  l1BlockRefByNumber : UInt64 → Fetched L1BlockRef
  l1BlockRefByHash : Hash → Fetched L1BlockRef

/-- The labels of the engine; `latest` is the unsafe head. -/
inductive BlockLabel where
  | latest
  | safe
  | finalized
  deriving DecidableEq

structure L2Chain where
  l2BlockRefByHash : Hash → Fetched L2BlockRef
  l2BlockRefByLabel : BlockLabel → Fetched L2BlockRef
  l2BlockRefByNumber : UInt64 → Fetched L2BlockRef

inductive SyncError where
  | finalizedNotFound
  | safeNotFound
  | headNotFound
  | offsetHead (target : UInt64)
  | l1BlockByHash
  | l1BlockByNumber (origin : BlockID)
  | wrongChainL2 (genesis : BlockID) (n : L2BlockRef)
  | wrongChainL1 (genesis : BlockID) (l1Block : L1BlockRef)
  | reorgFinalized (finalized n : L2BlockRef)
  | tooDeepReorg (n prevUnsafe : L2BlockRef)
  | l2BlockByHash (hash : Hash)
  | originNotBefore (parent n : L2BlockRef)
  | nonZeroSequenceNumber (parent n : L2BlockRef)
  | unexpectedParentOrigin (parent : L2BlockRef) (expected : Hash)
  | sequenceNumberInconsistency (parent n : L2BlockRef)
  deriving DecidableEq

/-- The part of `sync.Config` that is read here. Durations are in nanoseconds. -/
structure SyncConfig where
  skipSyncStartCheck : Bool
  offsetELSafe : Int

structure FindHeadsResult where
  unsafeHead : L2BlockRef
  safe : L2BlockRef
  finalized : L2BlockRef
  deriving DecidableEq

def maxReorgSeqWindows : UInt64 := 5
def recoverMinSeqWindows : UInt64 := 14

def currentHeads (cfg : Config) (l2 : L2Chain) : Except SyncError FindHeadsResult := do
  let finalized ←
    match l2.l2BlockRefByLabel .finalized with
    | .found b => .ok b
    | .failed => .error .finalizedNotFound
    | .notFound =>
      match l2.l2BlockRefByHash cfg.genesis.l2.hash with
      | .found b => .ok b
      | _ => .error .finalizedNotFound
  let safe ←
    match l2.l2BlockRefByLabel .safe with
    | .found b => .ok b
    | .notFound => .ok finalized
    | .failed => .error .safeNotFound
  match l2.l2BlockRefByLabel .latest with
  | .found b => .ok ⟨b,safe,finalized⟩
  | _ => .error .headNotFound

/-- The offset in blocks, rounded up after it was rounded down to seconds. -/
def durationToBlocks (offset : Int) (blockTime : UInt64) : UInt64 :=
  if offset ≤ 0 ∨ blockTime = 0 then 0
  else (.ofNat (offset.toNat / 1000000000) + blockTime - 1) / blockTime

def offsetBlockNum (offset : Int) (blockTime head genesis : UInt64) : UInt64 :=
  let n := durationToBlocks offset blockTime
  if n = 0 ∨ head ≤ genesis then head
  else
    let maxRetract := head - genesis
    head - if maxRetract < n then maxRetract else n

def l2HeadsForELSyncWithOffset (cfg : Config) (l2 : L2Chain) (syncCfg : SyncConfig)
    (tip : L2BlockRef) : Except SyncError FindHeadsResult :=
  let target :=
    offsetBlockNum syncCfg.offsetELSafe cfg.blockTime tip.number cfg.genesis.l2.number
  if target < tip.number then
    match l2.l2BlockRefByNumber target with
    | .found derived => .ok ⟨tip,derived,derived⟩
    | _ => .error (.offsetHead target)
  else .ok ⟨tip,tip,tip⟩

def syncedWithoutFinality (cfg : Config) (heads : FindHeadsResult) : Bool :=
  heads.finalized.hash = cfg.genesis.l2.hash ∧ heads.safe.hash = cfg.genesis.l2.hash ∧
    cfg.genesis.l2.number < heads.unsafeHead.number ∧
    cfg.genesis.l1.number + recoverMinSeqWindows * cfg.seqWindowSize <
      heads.unsafeHead.l1Origin.number

def unsafeBehind (heads : FindHeadsResult) : Bool :=
  heads.unsafeHead.number < heads.finalized.number ∨ heads.unsafeHead.number < heads.safe.number

/-- The variables of the walk. A zero block stands for a candidate that is not there. -/
structure Search where
  n : L2BlockRef
  unsafeHead : L2BlockRef
  highestL2WithCanonicalL1Origin : L2BlockRef
  l1Block : L1BlockRef
  ahead : Bool
  ready : Bool

/-- The L1 block at the height of the origin of `n`, and whether L1 has none there yet. The parent
of the last one is fetched by its hash. -/
def fetchL1Block (l1 : L1Chain) (n : L2BlockRef) (l1Block : L1BlockRef) (ahead : Bool) :
    Except SyncError (L1BlockRef × Bool) :=
  if n.l1Origin.hash = l1Block.parentHash then
    match l1.l1BlockRefByHash n.l1Origin.hash with
    | .found b => .ok (b,false)
    | _ => .error .l1BlockByHash
  else if l1Block = .zero ∨ n.l1Origin.hash ≠ l1Block.hash then
    match l1.l1BlockRefByNumber n.l1Origin.number with
    | .found b => .ok (b,false)
    | .notFound => .ok (.zero,true)
    | .failed => .error (.l1BlockByNumber n.l1Origin)
  else .ok (l1Block,ahead)

def checkGenesis (cfg : Config) (n : L2BlockRef) (l1Block : L1BlockRef) (ahead : Bool) :
    Except SyncError Unit :=
  if n.number ≠ cfg.genesis.l2.number then .ok ()
  else if n.hash ≠ cfg.genesis.l2.hash then .error (.wrongChainL2 cfg.genesis.l2 n)
  else if ahead = false ∧ l1Block.hash ≠ cfg.genesis.l1.hash then
    .error (.wrongChainL1 cfg.genesis.l1 l1Block)
  else .ok ()

def checkFinalized (finalized n : L2BlockRef) : Except SyncError Unit :=
  if n.number = finalized.number ∧ n.hash ≠ finalized.hash then
    .error (.reorgFinalized finalized n)
  else .ok ()

def usableUnsafe (cfg : Config) (prevUnsafe unsafeHead n : L2BlockRef) :
    Except SyncError L2BlockRef :=
  if unsafeHead ≠ .zero then .ok unsafeHead
  else if n.l1Origin.number + maxReorgSeqWindows * cfg.syncLookback <
      prevUnsafe.l1Origin.number then
    .error (.tooDeepReorg n prevUnsafe)
  else .ok n

def candidates (n : L2BlockRef) (l1Block : L1BlockRef) (ahead : Bool)
    (unsafeHead highest : L2BlockRef) : L2BlockRef × L2BlockRef :=
  if ahead then (unsafeHead,.zero)
  else if l1Block.hash = n.l1Origin.hash then
    (unsafeHead,if highest = .zero then n else highest)
  else (.zero,.zero)

def windowSeen (cfg : Config) (safe n highest : L2BlockRef) : Bool :=
  n.number ≤ safe.number ∧ n.l1Origin.number + cfg.syncLookback < highest.l1Origin.number ∧
    n.sequenceNumber = 0

def checkParent (n parent : L2BlockRef) (l1Block : L1BlockRef) : Except SyncError Unit :=
  if parent.l1Origin ≠ n.l1Origin then
    if parent.l1Origin.number + 1 ≠ n.l1Origin.number then .error (.originNotBefore parent n)
    else if n.sequenceNumber ≠ 0 then .error (.nonZeroSequenceNumber parent n)
    else if l1Block.hash = n.l1Origin.hash ∧ l1Block.parentHash ≠ parent.l1Origin.hash then
      .error (.unexpectedParentOrigin parent l1Block.parentHash)
    else .ok ()
  else if parent.sequenceNumber + 1 ≠ n.sequenceNumber then
    .error (.sequenceNumberInconsistency parent n)
  else .ok ()

namespace Search
variable (cfg : Config) (l1 : L1Chain) (l2 : L2Chain) (syncCfg : SyncConfig)
  (heads : FindHeadsResult)

def look (s : Search) : Except SyncError Search := do
  let (l1Block,ahead) ← fetchL1Block l1 s.n s.l1Block s.ahead
  checkGenesis cfg s.n l1Block ahead
  checkFinalized heads.finalized s.n
  let unsafeHead ← usableUnsafe cfg heads.unsafeHead s.unsafeHead s.n
  let (unsafeHead,highest) :=
    candidates s.n l1Block ahead unsafeHead s.highestL2WithCanonicalL1Origin
  return ⟨s.n,unsafeHead,highest,l1Block,ahead,s.ready || windowSeen cfg heads.safe s.n highest⟩

def moveOn (s : Search) : Except SyncError (Search ⊕ FindHeadsResult) :=
  if s.n.number = heads.finalized.number then
    .ok (.inr ⟨s.unsafeHead,s.n,heads.finalized⟩)
  else if syncCfg.skipSyncStartCheck ∧ s.highestL2WithCanonicalL1Origin.hash = s.n.hash then
    .ok (.inl { s with n := heads.safe })
  else
    match l2.l2BlockRefByHash s.n.parentHash with
    | .found parent => do
      checkParent s.n parent s.l1Block
      if s.ready then .ok (.inr ⟨s.unsafeHead,parent,heads.finalized⟩)
      else .ok (.inl { s with n := parent })
    | _ => .error (.l2BlockByHash s.n.parentHash)

def round (s : Search) : Except SyncError (Search ⊕ FindHeadsResult) := do
  let s ← s.look cfg l1 heads
  s.moveOn l2 syncCfg heads

def start (unsafeHead : L2BlockRef) : Search :=
  ⟨unsafeHead,unsafeHead,.zero,.zero,false,false⟩

end Search

/-- The heads to start the sync from. There is no result when the fuel runs out. -/
def findL2Heads (cfg : Config) (l1 : L1Chain) (l2 : L2Chain) (syncCfg : SyncConfig) (fuel : Nat) :
    Option (Except SyncError FindHeadsResult) :=
  match currentHeads cfg l2 with
  | .error e => some (.error e)
  | .ok heads =>
    if syncedWithoutFinality cfg heads ∨ unsafeBehind heads then
      some (l2HeadsForELSyncWithOffset cfg l2 syncCfg heads.unsafeHead)
    else loop (Search.round cfg l1 l2 syncCfg heads) fuel (Search.start heads.unsafeHead)

end OpStack.Sync
