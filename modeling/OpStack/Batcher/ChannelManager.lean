import OpStack.Batcher.ChannelBuilder

namespace OpStack.Batcher
open Eth

/-- Channels are shared by reference between the queue, the current channel and the transactions.
`heap` has them in the order of creation. -/
structure ChannelManager (ω : Type) where
  blocks : List SizedBlock
  blockCursor : Nat
  l1OriginLastSubmittedChannel : BlockID
  defaultCfg : ChannelConfig
  tip : Hash
  heap : Nat → Channel ω
  created : Nat
  currentChannel : Option Nat
  channelQueue : List Nat
  txChannels : TxID → Option Nat
  pendingDABytes : Int64

/-- The channel outs that channels are created with, by the number of channels created before. -/
structure Outs (ω : Type) where
  ops : ChannelOut ω
  outFactory : Nat → ChannelConfig → Option ω

inductive TxDataError where
  | eof
  | other

structure PubInfo where
  forcePublish : Bool
  ignoreMaxChannelDuration : Bool

/-- Each estimate is converted as the metric does it, and the sum wraps as its counter. -/
def daBytes (blocks : List SizedBlock) : Int64 :=
  (blocks.map fun b => b.estimatedDABytes.toInt64).sum

namespace ChannelManager
variable {ω : Type}

def newChannelManager [Inhabited ω] (cfg : ChannelConfig) : ChannelManager ω where
  blocks := []
  blockCursor := 0
  l1OriginLastSubmittedChannel := BlockID.zero
  defaultCfg := cfg
  tip := .fill 32 0
  heap := fun _ => default
  created := 0
  currentChannel := none
  channelQueue := []
  txChannels := fun _ => none
  pendingDABytes := 0

def clear (l1OriginLastSubmittedChannel : BlockID) (s : ChannelManager ω) : ChannelManager ω :=
  { s with
    blocks := [], blockCursor := 0, l1OriginLastSubmittedChannel, tip := .fill 32 0,
    currentChannel := none, channelQueue := [], txChannels := fun _ => none,
    pendingDABytes := 0 }

def pendingBlocks (s : ChannelManager ω) : Nat := s.blocks.length - s.blockCursor

def setChannel (r : Nat) (c : Channel ω) (s : ChannelManager ω) : ChannelManager ω :=
  { s with heap := Function.update s.heap r c }

def setTxChannel (id : TxID) (r : Option Nat) (s : ChannelManager ω) : ChannelManager ω :=
  { s with txChannels := Function.update s.txChannels id r }

def txFailed (id : TxID) (s : ChannelManager ω) : Except Crash (ChannelManager ω) :=
  match s.txChannels id with
  | none => .ok s
  | some r => do
    let c ← (s.heap r).txFailed id
    .ok ((s.setTxChannel id none).setChannel r c)

def rewindToBlock (block : BlockID) (s : ChannelManager ω) : Except Crash (ChannelManager ω) :=
  match s.blocks with
  | [] => .error .rewindToBlock
  | oldest::_ =>
    let idx := (block.number - oldest.number).toNat
    match s.blocks[idx]? with
    | none => .error .rewindToBlock
    | some b =>
      if b.hash = block.hash ∧ idx < s.blockCursor then
        if s.blocks.length < s.blockCursor then .error .rewindToBlock
        else
          .ok { s with
            blockCursor := idx
            pendingDABytes :=
              s.pendingDABytes + daBytes ((s.blocks.take s.blockCursor).drop idx) }
      else .error .rewindToBlock

/-- Drops the channel and all newer ones; a channel that is no longer queued counts as the
oldest. -/
def dropChannels (r : Nat) (s : ChannelManager ω) : ChannelManager ω :=
  let invalidatedChannelIdx := (s.channelQueue.findIdx? (· = r)).getD 0
  let dropped := s.channelQueue.drop invalidatedChannelIdx
  { s with
    txChannels := fun id => (s.txChannels id).filter (· ∉ dropped)
    channelQueue := s.channelQueue.take invalidatedChannelIdx
    currentChannel := none }

def handleChannelInvalidated (r : Nat) (s : ChannelManager ω) :
    Except Crash (ChannelManager ω) := do
  let s ←
    match (s.heap r).builder.blocks with
    | [] => Except.ok s
    | b::_ => rewindToBlock b.id s
  .ok (dropChannels r s)

def txConfirmed (id : TxID) (inclusionBlock : BlockID) (s : ChannelManager ω) :
    Except Crash (ChannelManager ω) :=
  match s.txChannels id with
  | none => .ok s
  | some r =>
    let (c,timedOut) := (s.heap r).txConfirmed id inclusionBlock
    let s := (s.setTxChannel id none).setChannel r c
    if timedOut then handleChannelInvalidated r s else .ok s

def nextTxData (r : Nat) (s : ChannelManager ω) :
    ChannelManager ω × Except TxDataError TxData :=
  if (s.heap r).hasTxData then
    let (c,tx) := (s.heap r).nextTxData
    let s := (s.setChannel r c).setTxChannel tx.id (some r)
    if s.l1OriginLastSubmittedChannel.number < c.builder.latestL1Origin.number then
      ({ s with l1OriginLastSubmittedChannel := c.builder.latestL1Origin },.ok tx)
    else (s,.ok tx)
  else (s,.error .eof)

def openChannel (outs : Outs ω) (s : ChannelManager ω) : ChannelManager ω × Option Nat :=
  match outs.outFactory s.created s.defaultCfg with
  | none => (s,none)
  | some channelOut =>
    let pc := Channel.newChannel s.defaultCfg s.l1OriginLastSubmittedChannel.number channelOut
    ({ s.setChannel s.created pc with
        created := s.created + 1
        currentChannel := some s.created
        channelQueue := s.channelQueue ++ [s.created] },
      some s.created)

def ensureChannelWithSpace (outs : Outs ω) (s : ChannelManager ω) :
    ChannelManager ω × Option Nat :=
  match s.currentChannel with
  | none => openChannel outs s
  | some r => if (s.heap r).builder.isFull then openChannel outs s else (s,some r)

def addBlocks (out : ChannelOut ω) :
    List SizedBlock → ChannelBuilder ω → ChannelBuilder ω × Nat × Bool
  | [],c => (c,0,true)
  | block::rest,c =>
    match c.addBlock out block with
    | (c,.error .full) => (c,0,true)
    | (c,.error .other) => (c,0,false)
    | (c,.ok _) =>
      if c.isFull then (c,1,true)
      else
        let (c,added,ok) := addBlocks out rest c
        (c,added + 1,ok)

def processBlocks (out : ChannelOut ω) (r : Nat) (s : ChannelManager ω) :
    ChannelManager ω × Bool :=
  let pending := s.blocks.drop s.blockCursor
  let (builder,added,ok) := addBlocks out pending (s.heap r).builder
  ({ s.setChannel r { s.heap r with builder } with
      blockCursor := s.blockCursor + added
      pendingDABytes := s.pendingDABytes - daBytes (pending.take added) },
    ok)

def registerL1Block (r : Nat) (l1Head : BlockID) (s : ChannelManager ω) : ChannelManager ω :=
  s.setChannel r { s.heap r with builder := (s.heap r).builder.checkTimeout l1Head.number }

def outputFrames (out : ChannelOut ω) (fuel r : Nat) (s : ChannelManager ω) :
    Except Crash (ChannelManager ω × Bool) := do
  let (builder,ok) ← (s.heap r).builder.outputFrames out fuel
  if ok = true ∧ builder.isFull = true then
    .ok (s.setChannel r
      { s.heap r with builder := { builder with co := out.discardCompressor builder.co } },ok)
  else .ok (s.setChannel r { s.heap r with builder },ok)

def forceClose (out : ChannelOut ω) (fuel : Nat) (pi : PubInfo) (s : ChannelManager ω) :
    Except Crash (ChannelManager ω × Bool) :=
  match s.currentChannel with
  | none => .ok (s,true)
  | some r =>
    if pi.forcePublish = true ∧ (s.heap r).builder.numFrames = 0 then do
      let (builder,ok) ← (s.heap r).builder.close.outputFrames out fuel
      .ok (s.setChannel r { s.heap r with builder },ok)
    else .ok (s,true)

/-- The part of `getReadyChannel` that fills the current channel. -/
def fillChannel (outs : Outs ω) (fuel : Nat) (l1Head : BlockID) (pi : PubInfo)
    (s : ChannelManager ω) : Except Crash (ChannelManager ω × Except TxDataError Nat) :=
  match ensureChannelWithSpace outs s with
  | (s,none) => .ok (s,.error .other)
  | (s,some r) =>
    match processBlocks outs.ops r s with
    | (s,false) => .ok (s,.error .other)
    | (s,true) => do
      let s := if pi.ignoreMaxChannelDuration then s else s.registerL1Block r l1Head
      let (s,ok) ← outputFrames outs.ops fuel r s
      if ok = false then .ok (s,.error .other)
      else if (s.heap r).hasTxData then .ok (s,.ok r)
      else .ok (s,.error .eof)

def getReadyChannel (outs : Outs ω) (fuel : Nat) (l1Head : BlockID) (pi : PubInfo)
    (s : ChannelManager ω) : Except Crash (ChannelManager ω × Except TxDataError Nat) := do
  let (s,ok) ← forceClose outs.ops fuel pi s
  if ok = false then .ok (s,.error .other)
  else
    match s.channelQueue.find? fun r => (s.heap r).hasTxData with
    | some r => .ok (s,.ok r)
    | none =>
      if s.pendingBlocks = 0 then .ok (s,.error .eof)
      else fillChannel outs fuel l1Head pi s

/-- Where a change of the DA type is due and nothing of the ready channel was submitted yet, it is
rebuilt first. `newCfg` is the provider's answer. -/
def txData (outs : Outs ω) (fuel : Nat) (l1Head : BlockID) (newCfg : ChannelConfig) (pi : PubInfo)
    (s : ChannelManager ω) : Except Crash (ChannelManager ω × Except TxDataError TxData) := do
  match ← getReadyChannel outs fuel l1Head pi s with
  | (s,.error e) => .ok (s,.error e)
  | (s,.ok r) =>
    if (s.heap r).noneSubmitted = false then .ok (s.nextTxData r)
    else if newCfg.useBlobs = s.defaultCfg.useBlobs then .ok (s.nextTxData r)
    else
      let s ← handleChannelInvalidated r s
      match ← getReadyChannel outs fuel l1Head pi { s with defaultCfg := newCfg } with
      | (s,.error e) => .ok (s,.error e)
      | (s,.ok r) => .ok (s.nextTxData r)

/-- The result says whether the block was taken, and not a reorg. -/
def addL2Block (block : SizedBlock) (s : ChannelManager ω) : ChannelManager ω × Bool :=
  if s.tip ≠ .fill 32 0 ∧ s.tip ≠ block.parentHash then (s,false)
  else
    ({ s with
        blocks := s.blocks ++ [block]
        tip := block.hash
        pendingDABytes := s.pendingDABytes + daBytes [block] },
      true)

/-- The number of pruned blocks that never got into a channel is right, but they are not the first
of the discarded blocks. -/
def pruneSafeBlocks (num : Nat) (s : ChannelManager ω) : Except Crash (ChannelManager ω) :=
  if s.blocks.length < num then .error .pruneSafeBlocks
  else
    let discardedBlocks := s.blocks.take num
    let numDiscardedPendingBlocks := num - s.blockCursor
    .ok { s with
      blocks := s.blocks.drop num
      blockCursor := s.blockCursor - num
      pendingDABytes := s.pendingDABytes - daBytes (discardedBlocks.take numDiscardedPendingBlocks) }

def pruneChannels (num : Nat) (s : ChannelManager ω) : Except Crash (ChannelManager ω) :=
  if s.channelQueue.length < num then .error .pruneChannels
  else
    .ok { s with
      channelQueue := s.channelQueue.drop num
      currentChannel := s.currentChannel.filter (· ∉ s.channelQueue.take num) }

end ChannelManager

structure SyncStatus where
  headL1 : L1BlockRef
  currentL1 : L1BlockRef
  localSafeL2 : L2BlockRef
  unsafeL2 : L2BlockRef

structure InclusiveBlockRange where
  start : UInt64
  stop : UInt64
  deriving DecidableEq

structure SyncActions where
  clearState : Option BlockID := none
  blocksToPrune : Nat := 0
  channelsToPrune : Nat := 0
  blocksToLoad : Option InclusiveBlockRange := none
  deriving DecidableEq

structure ChannelStatus where
  isFullySubmitted : Bool
  isTimedOut : Bool
  latestL2 : BlockID
  maxInclusionBlock : UInt64

def Channel.status {ω : Type} (c : Channel ω) : ChannelStatus :=
  ⟨c.isFullySubmitted,c.isTimedOut,c.builder.latestL2,c.maxInclusionBlock⟩

def unsafeBlocksAbove (from' : UInt64) (status : SyncStatus) : Option InclusiveBlockRange :=
  if from' < status.unsafeL2.number then some ⟨from' + 1,status.unsafeL2.number⟩ else none

def noExpectedProgress (status : SyncStatus) (ch : ChannelStatus) : Bool :=
  ch.isFullySubmitted && !ch.isTimedOut && ch.maxInclusionBlock < status.currentL1.number &&
    status.localSafeL2.number < ch.latestL2.number

def computeOnBlocks (status : SyncStatus) (oldest newest : SizedBlock) (blocks : List SizedBlock)
    (channels : List ChannelStatus) : SyncActions :=
  let safeL2 := status.localSafeL2
  let startAfresh : SyncActions :=
    { clearState := some safeL2.l1Origin, blocksToLoad := unsafeBlocksAbove safeL2.number status }
  let nextSafeBlockNum := safeL2.number + 1
  let numBlocksToDequeue := (nextSafeBlockNum - oldest.number).toNat
  if nextSafeBlockNum < oldest.number then startAfresh
  else if blocks.length < numBlocksToDequeue then startAfresh
  else if 0 < numBlocksToDequeue ∧
      (blocks[numBlocksToDequeue - 1]?).map SizedBlock.hash ≠ some safeL2.hash then startAfresh
  else if channels.any (noExpectedProgress status) then startAfresh
  else
    { blocksToPrune := numBlocksToDequeue
      channelsToPrune := (channels.takeWhile fun ch => ch.latestL2.number ≤ safeL2.number).length
      blocksToLoad := unsafeBlocksAbove newest.number status }

def computeSyncActions (status : SyncStatus) (prevCurrentL1 : L1BlockRef)
    (blocks : List SizedBlock) (channels : List ChannelStatus) : Option SyncActions :=
  if status.localSafeL2 = .zero ∨ status.unsafeL2 = .zero ∨
      status.headL1 = .zero then none
  else if status.currentL1.number < prevCurrentL1.number then none
  else
    match blocks with
    | [] => some { blocksToLoad := unsafeBlocksAbove status.localSafeL2.number status }
    | oldest::rest =>
      some (computeOnBlocks status oldest ((oldest::rest).getLast (by simp)) (oldest::rest) channels)

namespace ChannelManager
variable {ω : Type}

/-- `BatchSubmitter.syncAndPrune` as far as it changes the channel manager. -/
def syncAndPrune (status : SyncStatus) (prevCurrentL1 : L1BlockRef) (s : ChannelManager ω) :
    Except Crash (ChannelManager ω) :=
  match computeSyncActions status prevCurrentL1 s.blocks
      (s.channelQueue.map fun r => (s.heap r).status) with
  | none => .ok s
  | some actions =>
    match actions.clearState with
    | some l1Origin => .ok (s.clear l1Origin)
    | none => do
      let s ← s.pruneSafeBlocks actions.blocksToPrune
      s.pruneChannels actions.channelsToPrune

end ChannelManager

end OpStack.Batcher
