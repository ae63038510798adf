import OpStack.Derive.Frame
import OpStack.Derive.SpanBatch
import OpStack.Rollup.Config

namespace OpStack.Derive
open Lib Eth Rollup

structure L1BlockInfo where
  number : UInt64
  blockHash : Hash
  sequenceNumber : UInt64

inductive ChannelOutError where
  | tooManyRLPBytes
  | compressorFull
  | other
  deriving DecidableEq

/-- `ChannelCompressor`, over the state `κ` of its implementation. `read n` is `io.ReadFull` with a
buffer of `n` bytes. -/
structure ChannelCompressor (κ : Type) where
  write : Bytes → κ → κ × Option ChannelOutError
  close : κ → κ × Option ChannelOutError
  reset : κ → κ
  len : κ → Nat
  read : Nat → κ → κ × Option Bytes

structure Compressor (κ : Type) extends ChannelCompressor κ where
  fullErr : κ → Option ChannelOutError

def singularBatchType : UInt8 := 0
def spanBatchType : UInt8 := 1

def SingularBatch.encode (b : SingularBatch) : Bytes :=
  Rlp.encode (.list [.str b.parentHash.bytes,.str (natBytes b.epochNum.toNat),
    .str b.epochHash.bytes,.str (natBytes b.timestamp.toNat),.list (b.transactions.map .str)])

/-- `BatchData.EncodeRLP`: the type byte and the batch as one byte string. -/
def encodeBatchData (batchType : UInt8) (inner : Bytes) : Bytes :=
  Rlp.encodeBytes (batchType::inner)

def createEmptyFrame (id : ChannelID) (frame : Nat) (readyBytes : Nat) (closed : Bool)
    (maxSize : UInt64) : Frame × Nat :=
  let maxDataSize := maxSize.toNat - frameV0OverHeadSize
  if readyBytes ≤ maxDataSize then (⟨id,UInt16.ofNat frame,[],closed⟩,readyBytes)
  else (⟨id,UInt16.ofNat frame,[],false⟩,maxDataSize)

/-- The frame counter has no bound here: frame numbers are its lowest 16 bits. -/
structure SingularChannelOut (κ : Type) where
  id : ChannelID
  frame : Nat
  rlpLength : Nat
  compress : κ
  closed : Bool
  chainSpec : Config

namespace SingularChannelOut
variable {κ : Type} (comp : Compressor κ)

def newSingularChannelOut (id : ChannelID) (compress : κ) (chainSpec : Config) :
    SingularChannelOut κ :=
  ⟨id,0,0,compress,false,chainSpec⟩

def addSingularBatch (batch : SingularBatch) (co : SingularChannelOut κ) :
    SingularChannelOut κ × Option ChannelOutError :=
  if co.closed then (co,some .other)
  else
    let buf := encodeBatchData singularBatchType batch.encode
    if (co.chainSpec.maxRLPBytesPerChannelAt batch.timestamp).toNat < co.rlpLength + buf.length then
      (co,some .tooManyRLPBytes)
    else
      let (compress,err) := comp.write buf co.compress
      ({ co with rlpLength := co.rlpLength + buf.length, compress },err)

def readyBytes (co : SingularChannelOut κ) : Nat := comp.len co.compress

def fullErr (co : SingularChannelOut κ) : Option ChannelOutError := comp.fullErr co.compress

def close (co : SingularChannelOut κ) : SingularChannelOut κ × Option ChannelOutError :=
  if co.closed then (co,some .other)
  else
    let (compress,err) := comp.close co.compress
    ({ co with compress, closed := true },err)

def outputFrame (maxSize : UInt64) (co : SingularChannelOut κ) :
    SingularChannelOut κ × Option Frame :=
  if maxSize.toNat < frameV0OverHeadSize then (co,none)
  else
    let (f,size) := createEmptyFrame co.id co.frame (co.readyBytes comp) co.closed maxSize
    match comp.read size co.compress with
    | (compress,none) => ({ co with compress },none)
    | (compress,some data) =>
      ({ co with compress, frame := co.frame + 1 },some { f with data })

end SingularChannelOut

/-- Two RLP buffers, of which `rlpIndex` selects the active one, allow to undo the last change. -/
structure SpanChannelOut (κ : Type) where
  id : ChannelID
  frame : Nat
  rlp : Bool → Bytes
  rlpIndex : Bool
  lastCompressedRLPSize : Nat
  compressor : κ
  target : UInt64
  closed : Bool
  full : Option ChannelOutError
  spanBatch : SpanBatch
  maxBlocksPerSpanBatch : Int
  sealedRLPBytes : Nat
  chainSpec : Config

inductive SpanPanic where
  | inactiveLarger
  | truncationOutOfRange
  | notOrdered
  deriving DecidableEq

namespace SpanChannelOut
variable {κ : Type} (codec : TxCodec) (comp : ChannelCompressor κ)

def newSpanChannelOut (id : ChannelID) (targetOutputSize : UInt64) (compressor : κ)
    (chainSpec : Config) (maxBlocksPerSpanBatch : Int) : SpanChannelOut κ where
  id := id
  frame := 0
  rlp := fun _ => []
  rlpIndex := false
  lastCompressedRLPSize := 0
  compressor := compressor
  target := targetOutputSize
  closed := false
  full := none
  spanBatch := .newSpanBatch chainSpec.genesis.l2Time (chainSpec.l2ChainID.getD 0).toNat
  maxBlocksPerSpanBatch := maxBlocksPerSpanBatch
  sealedRLPBytes := 0
  chainSpec := chainSpec

def activeRLP (co : SpanChannelOut κ) : Bytes := co.rlp co.rlpIndex

def inactiveRLP (co : SpanChannelOut κ) : Bytes := co.rlp !co.rlpIndex

def swapRLP (co : SpanChannelOut κ) : SpanChannelOut κ := { co with rlpIndex := !co.rlpIndex }

def resetSpanBatch (co : SpanChannelOut κ) : SpanChannelOut κ :=
  { co with spanBatch := .newSpanBatch co.spanBatch.genesisTimestamp co.spanBatch.chainID }

/-- Seals the span batch at the maximal number of blocks: both buffers then hold what the active one
holds. -/
def ensureOpenSpanBatch (co : SpanChannelOut κ) : Except SpanPanic (SpanChannelOut κ) :=
  if co.maxBlocksPerSpanBatch = 0 ∨ (co.spanBatch.batches.length : Int) < co.maxBlocksPerSpanBatch
  then .ok co
  else if co.activeRLP.length < co.inactiveRLP.length then .error .inactiveLarger
  else .ok (resetSpanBatch
    { co with
      sealedRLPBytes := co.activeRLP.length
      rlp := Function.update co.rlp (!co.rlpIndex) co.activeRLP })

def checkFull (co : SpanChannelOut κ) : SpanChannelOut κ :=
  if co.full.isSome then co
  else if co.target.toNat ≤ comp.len co.compressor then { co with full := some .compressorFull }
  else co

def compress (co : SpanChannelOut κ) : SpanChannelOut κ × Option ChannelOutError :=
  let rlpBytes := co.activeRLP
  match comp.write rlpBytes (comp.reset co.compressor) with
  | (compressor,some e) => ({ co with compressor },some e)
  | (compressor,none) =>
    match comp.close compressor with
    | (compressor,some e) =>
      ({ co with compressor, lastCompressedRLPSize := rlpBytes.length },some e)
    | (compressor,none) =>
      (checkFull comp { co with compressor, lastCompressedRLPSize := rlpBytes.length },none)

def writeSpanBatch (batch : SingularBatch) (seqNum : UInt64) (co : SpanChannelOut κ) :
    Except SpanPanic (SpanChannelOut κ × Option ChannelOutError) :=
  match co.spanBatch.appendSingularBatch codec batch seqNum with
  | (_,some .panic) => .error .notOrdered
  | (spanBatch,some _) => .ok ({ co with spanBatch },some .other)
  | (spanBatch,none) =>
    match spanBatch.toRawSpanBatch with
    | .error _ => .ok ({ co with spanBatch },some .other)
    | .ok rawSpanBatch =>
      let co := swapRLP { co with spanBatch }
      if co.activeRLP.length < co.sealedRLPBytes then .error .truncationOutOfRange
      else
        let sealed := co.activeRLP.take co.sealedRLPBytes
        match rawSpanBatch.encode with
        | .error _ => .ok ({ co with rlp := Function.update co.rlp co.rlpIndex sealed },some .other)
        | .ok inner =>
          .ok ({ co with
            rlp := Function.update co.rlp co.rlpIndex
              (sealed ++ encodeBatchData spanBatchType inner) },none)

def revert (err : ChannelOutError) (co : SpanChannelOut κ) :
    SpanChannelOut κ × Option ChannelOutError :=
  match compress comp co.swapRLP with
  | (co,some e) => (co,some e)
  | (co,none) => (co,some err)

def settleSpanBatch (batch : SingularBatch) (co : SpanChannelOut κ) :
    SpanChannelOut κ × Option ChannelOutError :=
  if (co.chainSpec.maxRLPBytesPerChannelAt batch.timestamp).toNat < co.activeRLP.length then
    co.revert comp .tooManyRLPBytes
  else
    let rlpGrowth : Int := co.activeRLP.length - co.lastCompressedRLPSize
    -- a negative sum is a large `uint64`
    if UInt64.ofInt (comp.len co.compressor + rlpGrowth) < co.target then (co,none)
    else
      match co.compress comp with
      | (co,some e) => (co,some e)
      | (co,none) =>
        match co.full with
        | none => (co,none)
        | some e =>
          -- the first block of the channel must fit in
          if co.sealedRLPBytes = 0 ∧ co.spanBatch.batches.length = 1 then (co,none)
          else if comp.len co.compressor = co.target.toNat then (co,none)
          else co.revert comp e

def addSingularBatch (batch : SingularBatch) (seqNum : UInt64) (co : SpanChannelOut κ) :
    Except SpanPanic (SpanChannelOut κ × Option ChannelOutError) :=
  if co.closed then .ok (co,some .other)
  else
    match co.full with
    | some e => .ok (co,some e)
    | none => do
      let co ← ensureOpenSpanBatch co
      match ← writeSpanBatch codec batch seqNum co with
      | (co,some e) => .ok (co,some e)
      | (co,none) => .ok (settleSpanBatch comp batch co)

def readyBytes (co : SpanChannelOut κ) : Nat :=
  if co.closed ∨ co.full.isSome then comp.len co.compressor else 0

/-- A full channel has been compressed already. -/
def close (co : SpanChannelOut κ) : SpanChannelOut κ × Option ChannelOutError :=
  if co.closed then (co,some .other)
  else
    let co := { co with closed := true }
    if co.full.isSome then (co,none) else co.compress comp

def outputFrame (maxSize : UInt64) (co : SpanChannelOut κ) : SpanChannelOut κ × Option Frame :=
  if maxSize.toNat < frameV0OverHeadSize then (co,none)
  else
    let (f,size) := createEmptyFrame co.id co.frame (co.readyBytes comp) co.closed maxSize
    match comp.read size co.compressor with
    | (compressor,none) => ({ co with compressor },none)
    | (compressor,some data) =>
      ({ co with compressor, frame := co.frame + 1 },some { f with data })

end SpanChannelOut
end OpStack.Derive
