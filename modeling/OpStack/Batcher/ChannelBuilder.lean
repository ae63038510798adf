import OpStack.Derive.SpanChannelOut
import Mathlib.Data.List.AList

namespace OpStack.Batcher
open Eth Derive Lib

structure SizedBlock where
  hash : Hash
  parentHash : Hash
  number : UInt64
  estimatedDABytes : UInt64
  deriving DecidableEq

def SizedBlock.id (b : SizedBlock) : BlockID := ⟨b.hash,b.number⟩

structure ChannelConfig where
  seqWindowSize : UInt64
  channelTimeout : UInt64
  maxChannelDuration : UInt64
  subSafetyMargin : UInt64
  maxFrameSize : UInt64
  targetNumFrames : Nat
  useBlobs : Bool
  deriving Inhabited

def ChannelConfig.maxFramesPerTx (cfg : ChannelConfig) : Nat :=
  if cfg.useBlobs then cfg.targetNumFrames else 1

structure FrameID where
  chID : ChannelID
  frameNumber : UInt16
  deriving DecidableEq

structure FrameData where
  data : Bytes
  id : FrameID
  deriving DecidableEq

inductive FullReason where
  | channelOut (e : ChannelOutError)
  | maxFrameIndex
  | maxDurationReached
  | channelTimeoutClose
  | seqWindowClose
  | terminated
  deriving DecidableEq

structure ChannelFullError where
  err : Option FullReason
  deriving DecidableEq

inductive OutputFrame where
  | frame (data : Bytes) (number : UInt16) (last : Bool)
  | error

/-- `derive.ChannelOut`, an interface over the state `ω` of its implementation. -/
structure ChannelOut (ω : Type) where
  id : ω → ChannelID
  addBlock : ω → SizedBlock → ω × Except ChannelOutError L1BlockInfo
  fullErr : ω → Option ChannelOutError
  readyBytes : ω → Nat
  close : ω → ω × Option ChannelOutError
  outputFrame : UInt64 → ω → ω × OutputFrame
  discardCompressor : ω → ω

inductive Crash where
  | rewindToBlock
  | rewindFrameCursor
  | noFrames
  | pruneSafeBlocks
  | pruneChannels
  | outOfFuel
  deriving DecidableEq

structure ChannelBuilder (ω : Type) where
  cfg : ChannelConfig
  timeout : UInt64
  timeoutReason : Option FullReason
  fullErr : Option ChannelFullError
  co : ω
  blocks : List SizedBlock
  latestL1Origin : BlockID
  latestL2 : BlockID
  frames : List FrameData
  frameCursor : Nat
  numFrames : Nat

namespace ChannelBuilder
variable {ω : Type}

def isFull (c : ChannelBuilder ω) : Bool := c.fullErr.isSome

def setFullErr (err : Option FullReason) (c : ChannelBuilder ω) : ChannelBuilder ω :=
  { c with fullErr := some ⟨err⟩ }

def updateTimeout (timeoutBlockNum : UInt64) (reason : FullReason) (c : ChannelBuilder ω) :
    ChannelBuilder ω :=
  if c.timeout = 0 ∨ timeoutBlockNum < c.timeout then
    { c with timeout := timeoutBlockNum, timeoutReason := some reason }
  else c

def framePublished (l1BlockNum : UInt64) (c : ChannelBuilder ω) : ChannelBuilder ω :=
  c.updateTimeout (l1BlockNum + c.cfg.channelTimeout - c.cfg.subSafetyMargin) .channelTimeoutClose

def updateDurationTimeout (l1BlockNum : UInt64) (c : ChannelBuilder ω) : ChannelBuilder ω :=
  if c.cfg.maxChannelDuration = 0 then c
  else c.updateTimeout (l1BlockNum + c.cfg.maxChannelDuration) .maxDurationReached

def updateSwTimeout (l1InfoNumber : UInt64) (c : ChannelBuilder ω) : ChannelBuilder ω :=
  c.updateTimeout (l1InfoNumber + c.cfg.seqWindowSize - c.cfg.subSafetyMargin) .seqWindowClose

def checkTimeout (l1BlockNum : UInt64) (c : ChannelBuilder ω) : ChannelBuilder ω :=
  if c.timeout ≠ 0 ∧ c.isFull = false ∧ c.timeout ≤ l1BlockNum then c.setFullErr c.timeoutReason
  else c

def newChannelBuilderWithChannelOut (cfg : ChannelConfig) (latestL1OriginBlockNum : UInt64)
    (channelOut : ω) : ChannelBuilder ω :=
  updateDurationTimeout latestL1OriginBlockNum
    { cfg
      timeout := 0
      timeoutReason := none
      fullErr := none
      co := channelOut
      blocks := []
      latestL1Origin := BlockID.zero
      latestL2 := BlockID.zero
      frames := []
      frameCursor := 0
      numFrames := 0 }

inductive AddBlockError where
  | full
  | other

def recordBlock (block : SizedBlock) (l1info : L1BlockInfo) (c : ChannelBuilder ω) :
    ChannelBuilder ω :=
  let c := { c with blocks := c.blocks ++ [block] }
  let c := c.updateSwTimeout l1info.number
  let c :=
    if c.latestL1Origin.number < l1info.number then
      { c with latestL1Origin := ⟨l1info.blockHash,l1info.number⟩ }
    else c
  if c.latestL2.number < block.number then { c with latestL2 := block.id } else c

def addBlock (out : ChannelOut ω) (block : SizedBlock) (c : ChannelBuilder ω) :
    ChannelBuilder ω × Except AddBlockError L1BlockInfo :=
  if c.isFull then (c,.error .full)
  else
    match out.addBlock c.co block with
    | (co,.error .other) => ({ c with co },.error .other)
    | (co,.error e) => (setFullErr (some (.channelOut e)) { c with co },.error .full)
    | (co,.ok l1info) =>
      let c := recordBlock block l1info { c with co }
      match out.fullErr co with
      | some e => (c.setFullErr (some (.channelOut e)),.ok l1info)
      | none => (c,.ok l1info)

inductive FrameError where
  | eof
  | other

def outputFrame (out : ChannelOut ω) (c : ChannelBuilder ω) :
    ChannelBuilder ω × Option FrameError :=
  match out.outputFrame c.cfg.maxFrameSize c.co with
  | (co,.error) => ({ c with co },some .other)
  | (co,.frame data fn last) =>
    let c := { c with co }
    let c := if fn = 65535 then c.setFullErr (some .maxFrameIndex) else c
    ({ c with
        frames := c.frames ++ [⟨data,⟨out.id co,fn⟩⟩]
        numFrames := c.numFrames + 1 },
      if last then some .eof else none)

def outputReadyFrames (out : ChannelOut ω) :
    Nat → ChannelBuilder ω → Except Crash (ChannelBuilder ω × Bool)
  | 0,_ => .error .outOfFuel
  | fuel+1,c =>
    -- the maximal size is compared as a signed number
    if c.cfg.maxFrameSize.toInt64.toInt ≤ out.readyBytes c.co + frameV0OverHeadSize then
      match outputFrame out c with
      | (c,some .eof) => .ok (c,true)
      | (c,some .other) => .ok (c,false)
      | (c,none) => outputReadyFrames out fuel c
    else .ok (c,true)

def outputAllFrames (out : ChannelOut ω) :
    Nat → ChannelBuilder ω → Except Crash (ChannelBuilder ω × Bool)
  | 0,_ => .error .outOfFuel
  | fuel+1,c =>
    match outputFrame out c with
    | (c,some .eof) => .ok (c,true)
    | (c,some .other) => .ok (c,false)
    | (c,none) => outputAllFrames out fuel c

def closeAndOutputAllFrames (out : ChannelOut ω) (fuel : Nat) (c : ChannelBuilder ω) :
    Except Crash (ChannelBuilder ω × Bool) :=
  match out.close c.co with
  | (co,some _) => .ok ({ c with co },false)
  | (co,none) => outputAllFrames out fuel { c with co }

def outputFrames (out : ChannelOut ω) (fuel : Nat) (c : ChannelBuilder ω) :
    Except Crash (ChannelBuilder ω × Bool) :=
  if c.isFull then closeAndOutputAllFrames out fuel c else outputReadyFrames out fuel c

def close (c : ChannelBuilder ω) : ChannelBuilder ω :=
  if c.isFull then c else c.setFullErr (some .terminated)

def hasPendingFrame (c : ChannelBuilder ω) : Bool := c.frameCursor < c.frames.length

def pendingFrames (c : ChannelBuilder ω) : Nat := c.frames.length - c.frameCursor

/-- Only called after a check of `hasPendingFrame`. -/
def nextFrame (c : ChannelBuilder ω) : ChannelBuilder ω × Option FrameData :=
  match c.frames[c.frameCursor]? with
  | none => (c,none)
  | some f => ({ c with frameCursor := c.frameCursor + 1 },some f)

def rewindFrameCursor (frame : FrameData) (c : ChannelBuilder ω) :
    Except Crash (ChannelBuilder ω) :=
  match c.frames[frame.id.frameNumber.toNat]? with
  | none => .error .rewindFrameCursor
  | some f =>
    if f.data.length ≠ frame.data.length ∨ f.id.chID ≠ frame.id.chID then
      .error .rewindFrameCursor
    else if frame.id.frameNumber.toNat < c.frameCursor then
      .ok { c with frameCursor := frame.id.frameNumber.toNat }
    else .ok c

end ChannelBuilder

variable {κ : Type}

/-- `BlockToSingularBatch`; `none` where the block cannot be converted. -/
abbrev BlockConversion := SizedBlock → Option (SingularBatch × L1BlockInfo)

def outputFrameOf : Option Frame → OutputFrame
  | none => .error
  | some f => .frame f.marshalBinary f.frameNumber f.isLast

def addBlockResult (l1Info : L1BlockInfo) : Option ChannelOutError →
    Except ChannelOutError L1BlockInfo
  | some e => .error e
  | none => .ok l1Info

/-- Nothing uses the compressor after `DiscardCompressor`, which only frees memory. -/
def singularChannelOut (comp : Compressor κ) (convert : BlockConversion) :
    ChannelOut (SingularChannelOut κ) where
  id co := co.id
  addBlock co block :=
    if co.closed then (co,.error .other)
    else
      match convert block with
      | none => (co,.error .other)
      | some (batch,l1Info) =>
        let (co,err) := co.addSingularBatch comp batch
        (co,addBlockResult l1Info err)
  fullErr co := co.fullErr comp
  readyBytes co := co.readyBytes comp
  close co := co.close comp
  outputFrame maxSize co :=
    let (co,frame) := co.outputFrame comp maxSize
    (co,outputFrameOf frame)
  discardCompressor co := co

/-- A panic ends the program; here the block is refused and the run goes on, which only adds runs.
-/
def spanChannelOut (codec : TxCodec) (comp : ChannelCompressor κ) (convert : BlockConversion) :
    ChannelOut (SpanChannelOut κ) where
  id co := co.id
  addBlock co block :=
    if co.closed then (co,.error .other)
    else
      match convert block with
      | none => (co,.error .other)
      | some (batch,l1Info) =>
        match co.addSingularBatch codec comp batch l1Info.sequenceNumber with
        | .error _ => (co,.error .other)
        | .ok (co,err) => (co,addBlockResult l1Info err)
  fullErr co := co.full
  readyBytes co := co.readyBytes comp
  close co := co.close comp
  outputFrame maxSize co :=
    let (co,frame) := co.outputFrame comp maxSize
    (co,outputFrameOf frame)
  discardCompressor co := co

/-- Map keys are the strings of these ids, which spell out the frame ids one by one. -/
abbrev TxID := List FrameID

structure TxData where
  frames : List FrameData
  asBlob : Bool
  deriving DecidableEq

def TxData.id (td : TxData) : TxID := td.frames.map FrameData.id

structure Channel (ω : Type) where
  builder : ChannelBuilder ω
  cfg : ChannelConfig
  pendingTransactions : AList (fun _ : TxID => TxData)
  confirmedTransactions : AList (fun _ : TxID => BlockID)
  minInclusionBlock : UInt64
  maxInclusionBlock : UInt64

namespace Channel
variable {ω : Type}

def newChannel (cfg : ChannelConfig) (latestL1OriginBlockNum : UInt64) (channelOut : ω) :
    Channel ω where
  builder := .newChannelBuilderWithChannelOut cfg latestL1OriginBlockNum channelOut
  cfg := cfg
  pendingTransactions := ∅
  confirmedTransactions := ∅
  minInclusionBlock := 0xFFFFFFFFFFFFFFFF
  maxInclusionBlock := 0

instance [Inhabited ω] : Inhabited (Channel ω) := ⟨newChannel default 0 default⟩

def txFailed (id : TxID) (c : Channel ω) : Except Crash (Channel ω) :=
  match c.pendingTransactions.lookup id with
  | none => .ok c
  | some data =>
    match data.frames with
    | [] => .error .noFrames
    | f::_ => do
      let builder ← c.builder.rewindFrameCursor f
      .ok { c with builder, pendingTransactions := c.pendingTransactions.erase id }

def isTimedOut (c : Channel ω) : Bool :=
  0 < c.confirmedTransactions.keys.length &&
    c.cfg.channelTimeout ≤ c.maxInclusionBlock - c.minInclusionBlock

def isFullySubmitted (c : Channel ω) : Bool :=
  c.builder.isFull && c.pendingTransactions.keys.length + c.builder.pendingFrames = 0

def noneSubmitted (c : Channel ω) : Bool :=
  c.confirmedTransactions.keys.length = 0 && c.pendingTransactions.keys.length = 0

/-- The result says whether the channel timed out on chain. -/
def txConfirmed (id : TxID) (inclusionBlock : BlockID) (c : Channel ω) : Channel ω × Bool :=
  match c.pendingTransactions.lookup id with
  | none => (c,false)
  | some _ =>
    let c :=
      { c with
        builder := c.builder.framePublished inclusionBlock.number
        pendingTransactions := c.pendingTransactions.erase id
        confirmedTransactions := c.confirmedTransactions.insert id inclusionBlock
        minInclusionBlock := min c.minInclusionBlock inclusionBlock.number
        maxInclusionBlock := max c.maxInclusionBlock inclusionBlock.number }
    (c,c.isTimedOut)

def takeFrames : Nat → ChannelBuilder ω → ChannelBuilder ω × List FrameData
  | 0,b => (b,[])
  | n+1,b =>
    match b.nextFrame with
    | (b,none) => (b,[])
    | (b,some f) =>
      let (b,fs) := takeFrames n b
      (b,f::fs)

def nextTxData (c : Channel ω) : Channel ω × TxData :=
  let (builder,frames) := takeFrames c.cfg.maxFramesPerTx c.builder
  let txdata := ⟨frames,c.cfg.useBlobs⟩
  ({ c with builder, pendingTransactions := c.pendingTransactions.insert txdata.id txdata },txdata)

def hasTxData (c : Channel ω) : Bool :=
  if c.builder.isFull || !c.cfg.useBlobs then c.builder.hasPendingFrame
  else c.cfg.maxFramesPerTx ≤ c.builder.pendingFrames

end Channel

end OpStack.Batcher
