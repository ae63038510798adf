import OpStack.Derive.SpanBatchTxs

namespace OpStack.Derive
open Lib Eth UInt64

structure SingularBatch where
  parentHash : Hash
  epochNum : UInt64
  epochHash : Hash
  timestamp : UInt64
  transactions : List Bytes
  deriving DecidableEq

def SingularBatch.epoch (b : SingularBatch) : BlockID := ⟨b.epochHash,b.epochNum⟩

/-- A batch of a span: its parent and epoch hash are not part of the format. -/
structure SpanBatchElement where
  epochNum : UInt64
  timestamp : UInt64
  transactions : List Bytes
  deriving DecidableEq

def singularBatchToElement (b : SingularBatch) : SpanBatchElement :=
  ⟨b.epochNum,b.timestamp,b.transactions⟩

structure RawSpanBatch where
  relTimestamp : UInt64
  l1OriginNum : UInt64
  parentCheck : FixedBytes 20
  l1OriginCheck : FixedBytes 20
  blockCount : Nat
  originBits : Nat
  blockTxCounts : List Nat
  txs : SpanBatchTxs

structure SpanBatch where
  parentCheck : FixedBytes 20 := .fill 20 0
  l1OriginCheck : FixedBytes 20 := .fill 20 0
  genesisTimestamp : UInt64 := 0
  chainID : Nat := 0
  batches : List SpanBatchElement := []
  originBits : Nat := 0
  blockTxCounts : List Nat := []
  sbtxs : SpanBatchTxs := {}

namespace RawSpanBatch

def encodePrefix (b : RawSpanBatch) : Bytes :=
  putUvarint b.relTimestamp ++ (putUvarint b.l1OriginNum ++
    (b.parentCheck.bytes ++ b.l1OriginCheck.bytes))

def encode (b : RawSpanBatch) : Except SpanBatchError Bytes := do
  let originBits ← encodeSpanBatchBits .originBits b.blockCount b.originBits
  let txs ← b.txs.encode
  pure (b.encodePrefix ++ (putUvarint (ofNat b.blockCount) ++ (originBits ++
    ((b.blockTxCounts.map fun n => putUvarint (ofNat n)).flatten ++ txs))))

def decodeCheck (field : Field) : Reader SpanBatchError (FixedBytes 20) := do
  let buf ← Reader.full 20 (.read field)
  match FixedBytes.ofBytes? 20 buf with
  | some check => pure check
  | none => throw (.read field)

def decodeBlockCount : Reader SpanBatchError Nat := do
  let blockCount ← readUvarint (.read .blockCount)
  if maxSpanBatchElementCount < blockCount.toNat then throw .tooBigSpanBatchSize
  if blockCount = 0 then throw .emptySpanBatch
  pure blockCount.toNat

def decodeBlockTxCount : Reader SpanBatchError Nat := do
  let blockTxCount ← readUvarint (.read .blockTxCount)
  if maxSpanBatchElementCount < blockTxCount.toNat then throw .tooBigSpanBatchSize
  pure blockTxCount.toNat

def decodeTxs (codec : TxCodec) (blockTxCounts : List Nat) : Reader SpanBatchError SpanBatchTxs := do
  -- the running 64-bit sum overflows exactly when the total does not fit
  if 2 ^ 64 ≤ blockTxCounts.sum then throw .tooBigSpanBatchSize
  if maxSpanBatchElementCount < blockTxCounts.sum then throw .tooBigSpanBatchSize
  SpanBatchTxs.decode codec blockTxCounts.sum

def decode (codec : TxCodec) : Reader SpanBatchError RawSpanBatch := do
  let relTimestamp ← readUvarint (.read .relTimestamp)
  let l1OriginNum ← readUvarint (.read .l1OriginNum)
  let parentCheck ← decodeCheck .parentCheck
  let l1OriginCheck ← decodeCheck .l1OriginCheck
  let blockCount ← decodeBlockCount
  let originBits ← decodeSpanBatchBits .originBits blockCount
  let blockTxCounts ← .many decodeBlockTxCount blockCount
  let txs ← decodeTxs codec blockTxCounts
  pure
    { relTimestamp, l1OriginNum, parentCheck, l1OriginCheck, blockCount, originBits,
      blockTxCounts, txs }

def blockOriginNums (originBits : Nat) : Nat → UInt64 → List UInt64 → List UInt64
  | 0,_,nums => nums
  | i+1,num,nums =>
    blockOriginNums originBits i (if originBits.testBit i ∧ 0 < i then num - 1 else num) (num::nums)

/-- Cuts the flat transaction list into blocks; running out of transactions panics. -/
def deriveBlocks (start blockTime : UInt64) : Nat → List UInt64 → List Nat → List Bytes →
    Except SpanBatchError (List SpanBatchElement)
  | _,[],_,_ => .ok []
  | i,num::nums,count::counts,txs =>
    if txs.length < count then .error .panic
    else do
      let blocks ← deriveBlocks start blockTime (i + 1) nums counts (txs.drop count)
      pure (⟨num,start + blockTime * ofNat i,txs.take count⟩::blocks)
  | _,_::_,[],_ => .error .panic

def derive (codec : TxCodec) (b : RawSpanBatch) (blockTime genesisTimestamp : UInt64)
    (chainID : Nat) : Except SpanBatchError SpanBatch :=
  if b.blockCount = 0 then .error .emptySpanBatch
  else do
    let nums := blockOriginNums b.originBits b.blockCount b.l1OriginNum []
    let txs ← b.txs.recoverV chainID
    let fullTxs ← txs.fullTxs codec chainID
    let batches ← deriveBlocks (genesisTimestamp + b.relTimestamp) blockTime 0 nums
      b.blockTxCounts fullTxs
    pure { parentCheck := b.parentCheck, l1OriginCheck := b.l1OriginCheck, batches }

end RawSpanBatch

namespace SpanBatch

def newSpanBatch (genesisTimestamp : UInt64) (chainID : Nat) : SpanBatch :=
  { genesisTimestamp, chainID }

/-- What was appended before `AddTxs` fails stays appended. -/
def appendSingularBatch (codec : TxCodec) (b : SpanBatch) (singular : SingularBatch)
    (seqNum : UInt64) : SpanBatch × Option SpanBatchError :=
  let last := b.batches.getLast?
  if last.any (fun e => singular.timestamp < e.timestamp) then (b,some .panic)
  else
    let epochBit := match last with
      | none => decide (seqNum = 0)
      | some e => decide (e.epochNum < singular.epochNum)
    let (sbtxs,err) := b.sbtxs.addTxs codec b.chainID singular.transactions
    ({ b with
        batches := b.batches ++ [singularBatchToElement singular]
        l1OriginCheck := Hash.check singular.epochHash
        parentCheck := if last.isNone then Hash.check singular.parentHash else b.parentCheck
        originBits := setBit b.originBits b.batches.length epochBit
        blockTxCounts := b.blockTxCounts ++ [singular.transactions.length]
        sbtxs },err)

def toRawSpanBatch (b : SpanBatch) : Except SpanBatchError RawSpanBatch :=
  match b.batches.head?,b.batches.getLast? with
  | some first,some last =>
    .ok
      { relTimestamp := first.timestamp - b.genesisTimestamp
        l1OriginNum := last.epochNum
        parentCheck := b.parentCheck
        l1OriginCheck := b.l1OriginCheck
        blockCount := b.batches.length
        originBits := b.originBits
        blockTxCounts := b.blockTxCounts
        txs := b.sbtxs }
  | _,_ => .error .cannotMergeEmpty

def getSingularBatchesLoop (safeHead : L2BlockRef) : List L1BlockRef → List SpanBatchElement →
    Option (List SingularBatch)
  | _,[] => some []
  | origins,e::es =>
    if e.timestamp ≤ safeHead.time then getSingularBatchesLoop safeHead origins es
    else if e.epochNum < safeHead.l1Origin.number then none
    else match origins.dropWhile (fun o => o.number ≠ e.epochNum) with
      | [] => none
      | o::os => do
        let batches ← getSingularBatchesLoop safeHead (o::os) es
        pure (⟨.fill 32 0,e.epochNum,o.hash,e.timestamp,e.transactions⟩::batches)

/-- The blocks after the safe head, with their epoch hash and without a parent hash; `none` where
the batch must be dropped. -/
def getSingularBatches (b : SpanBatch) (l1Origins : List L1BlockRef) (safeHead : L2BlockRef) :
    Option (List SingularBatch) :=
  getSingularBatchesLoop safeHead l1Origins b.batches

end SpanBatch
end OpStack.Derive
