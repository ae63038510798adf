import OpStack.Rollup.Config
import OpStack.Derive.SpanBatch

namespace OpStack.Derive
open Lib Eth Rollup

inductive BatchValidity where
  | drop | accept | undecided | future | past
  deriving DecidableEq

def depositTxType : UInt8 := 0x7e

def forbiddenTx (isIsthmus : Bool) : Bytes → Bool
  | [] => true
  | b::_ => b = depositTxType || (!isIsthmus && b.toNat = setCodeTxType)

inductive OriginCheck where
  | found (origin : L1BlockRef)
  | verdict (validity : BatchValidity)

def batchOriginOf (l1Blocks : List L1BlockRef) (epoch : L1BlockRef) (epochNum : UInt64) :
    OriginCheck :=
  if epochNum < epoch.number then .verdict .drop
  else if epochNum = epoch.number then .found epoch
  else if epochNum = epoch.number + 1 then
    match l1Blocks[1]? with
    | none => .verdict .undecided
    | some next => .found next
  else .verdict .drop

def checkDrift (l1Blocks : List L1BlockRef) (epoch batchOrigin : L1BlockRef)
    (batch : SingularBatch) : Option BatchValidity :=
  if batch.transactions = [] then
    if epoch.number = batchOrigin.number then
      match l1Blocks[1]? with
      | none => some .undecided
      | some next => if next.time ≤ batch.timestamp then some .drop else none
    else none
  else some .drop

/-- The checks of `checkSingularBatch` that follow the check of the batch's L1 origin. -/
def checkOnOrigin (cfg : Config) (l1Blocks : List L1BlockRef) (epoch batchOrigin : L1BlockRef)
    (batch : SingularBatch) : BatchValidity :=
  if batch.epochHash ≠ batchOrigin.hash then .drop
  else if batch.timestamp < batchOrigin.time then .drop
  else if (cfg.isActivationBlockForFork .jovian batch.timestamp ||
      cfg.isActivationBlockForFork .karst batch.timestamp ||
      cfg.isActivationBlockForFork .interop batch.timestamp) ∧ batch.transactions ≠ [] then .drop
  else
    let drift :=
      if batchOrigin.time + cfg.maxSequencerDriftAt batchOrigin.time < batch.timestamp then
        checkDrift l1Blocks epoch batchOrigin batch
      else none
    match drift with
    | some validity => validity
    | none =>
      if batch.transactions.any (forbiddenTx (cfg.isIsthmus batch.timestamp)) then .drop
      else .accept

def checkSingularBatch (cfg : Config) (l1Blocks : List L1BlockRef) (l2SafeHead : L2BlockRef)
    (batch : SingularBatch) (l1InclusionBlock : L1BlockRef) : BatchValidity :=
  match l1Blocks[0]? with
  | none => .undecided
  | some epoch =>
    let nextTimestamp := l2SafeHead.time + cfg.blockTime
    if nextTimestamp < batch.timestamp then
      if cfg.isHolocene l1InclusionBlock.time then .drop else .future
    else if batch.timestamp < nextTimestamp then
      if cfg.isHolocene l1InclusionBlock.time then .past else .drop
    else if batch.parentHash ≠ l2SafeHead.hash then .drop
    else if batch.epochNum + cfg.seqWindowSize < l1InclusionBlock.number then .drop
    else
      match batchOriginOf l1Blocks epoch batch.epochNum with
      | .verdict validity => validity
      | .found batchOrigin => checkOnOrigin cfg l1Blocks epoch batchOrigin batch

/-- A span batch as the stages pass it on: decoding never yields an empty one. -/
structure NonemptySpan where
  span : SpanBatch
  nonempty : span.batches ≠ []

namespace NonemptySpan

def first (b : NonemptySpan) : SpanBatchElement := b.span.batches.head b.nonempty
def last (b : NonemptySpan) : SpanBatchElement := b.span.batches.getLast b.nonempty

end NonemptySpan

def checkOnParent (cfg : Config) (l1Blocks : List L1BlockRef) (parentBlock : L2BlockRef)
    (batch : NonemptySpan) (l1InclusionBlock : L1BlockRef) : BatchValidity :=
  let startEpochNum := batch.first.epochNum
  if batch.span.parentCheck ≠ Hash.check parentBlock.hash then .drop
  else if startEpochNum + cfg.seqWindowSize < l1InclusionBlock.number then .drop
  else if parentBlock.l1Origin.number + 1 < startEpochNum then .drop
  else
    match l1Blocks.find? fun b => b.number = batch.last.epochNum with
    | none => .undecided
    | some l1Block =>
      if batch.span.l1OriginCheck ≠ Hash.check l1Block.hash then .drop
      else if startEpochNum < parentBlock.l1Origin.number then .drop
      else .accept

inductive SpanStart where
  | verdict (validity : BatchValidity)
  | onSafeHead
  | onNumber (parentNum : UInt64)

def spanStart (cfg : Config) (l1Blocks : List L1BlockRef) (l2SafeHead : L2BlockRef)
    (batch : NonemptySpan) (l1InclusionBlock : L1BlockRef) : SpanStart :=
  match l1Blocks[0]? with
  | none => .verdict .undecided
  | some epoch =>
    match (if batch.first.epochNum = epoch.number + 1 then l1Blocks[1]? else some epoch) with
    | none => .verdict .undecided
    | some batchOrigin =>
      let nextTimestamp := l2SafeHead.time + cfg.blockTime
      let timestamp := batch.first.timestamp
      if !cfg.isDelta batchOrigin.time then .verdict .drop
      else if nextTimestamp < timestamp then
        .verdict (if cfg.isHolocene l1InclusionBlock.time then .drop else .future)
      else if batch.last.timestamp < nextTimestamp then
        .verdict (if cfg.isHolocene l1InclusionBlock.time then .past else .drop)
      else if timestamp < nextTimestamp then
        if l2SafeHead.time < timestamp then .verdict .drop
        else if (l2SafeHead.time - timestamp) % cfg.blockTime ≠ 0 then .verdict .drop
        else .onNumber (l2SafeHead.number - (l2SafeHead.time - timestamp) / cfg.blockTime - 1)
      else .onSafeHead

/-- `fetch` is `L2BlockRefByNumber`. The second component is the parent block, where the checks get
to it. -/
def checkSpanBatchPrefix (cfg : Config) (l1Blocks : List L1BlockRef) (l2SafeHead : L2BlockRef)
    (batch : NonemptySpan) (l1InclusionBlock : L1BlockRef)
    (fetch : UInt64 → Option L2BlockRef) : BatchValidity × Option L2BlockRef :=
  match spanStart cfg l1Blocks l2SafeHead batch l1InclusionBlock with
  | .verdict validity => (validity,none)
  | .onSafeHead =>
    (checkOnParent cfg l1Blocks l2SafeHead batch l1InclusionBlock,some l2SafeHead)
  | .onNumber parentNum =>
    match fetch parentNum with
    | none => (.undecided,none)
    | some parentBlock =>
      (checkOnParent cfg l1Blocks parentBlock batch l1InclusionBlock,some parentBlock)

/-- What the overlap check reads of an execution payload. `l1OriginNum` is what `PayloadToBlockRef`
extracts, where it does not fail. -/
structure SafePayload where
  transactions : List Bytes
  l1OriginNum : Option UInt64

/-- The engine's safe chain; `none` is an error. -/
structure SafeBlockFetcher where
  l2BlockRefByNumber : UInt64 → Option L2BlockRef
  payloadByNumber : UInt64 → Option SafePayload

/-- One turn of the block loop of `checkSpanBatch`, with the L1 blocks `later` than the block's
origin. `none` goes on with the next block. -/
def checkSpanBlock (cfg : Config) (l1Origin : L1BlockRef) (later : List L1BlockRef)
    (originAdvanced : Bool) (block : SpanBatchElement) : Option BatchValidity :=
  if block.timestamp < l1Origin.time then some .drop
  else
    let drift :=
      if l1Origin.time + cfg.maxSequencerDriftAt l1Origin.time < block.timestamp then
        if block.transactions = [] then
          if originAdvanced then none
          else match later with
            | [] => some .undecided
            | next::_ => if next.time ≤ block.timestamp then some .drop else none
        else some .drop
      else none
    match drift with
    | some validity => some validity
    | none =>
      if block.transactions.any (forbiddenTx (cfg.isIsthmus block.timestamp)) then some .drop
      else none

def originAdvanced (startAdvanced : Bool) (prevEpoch : Option UInt64) (epochNum : UInt64) : Bool :=
  match prevEpoch with
  | none => startAdvanced
  | some epoch => decide (epoch < epochNum)

/-- The block loop. `origins` are the L1 blocks from the last match on, and `prevEpoch` is the epoch
of the block before. -/
def checkSpanBlocks (cfg : Config) (l2SafeHead : L2BlockRef) (startAdvanced : Bool) :
    List L1BlockRef → Option UInt64 → List SpanBatchElement → BatchValidity
  | _,_,[] => .accept
  | origins,prevEpoch,e::es =>
    if e.timestamp ≤ l2SafeHead.time then
      checkSpanBlocks cfg l2SafeHead startAdvanced origins (some e.epochNum) es
    else if e.epochNum < l2SafeHead.l1Origin.number then .drop
    else
      match origins.dropWhile (fun o => o.number ≠ e.epochNum) with
      | [] => .drop
      | o::os =>
        match checkSpanBlock cfg o os (originAdvanced startAdvanced prevEpoch e.epochNum) e with
        | some validity => validity
        | none => checkSpanBlocks cfg l2SafeHead startAdvanced (o::os) (some e.epochNum) es

/-- Whether a block of the batch is the safe block it overlaps. The payload's deposits are skipped;
`none` is the panic on an empty transaction. -/
def checkOverlappedBlock (payload : SafePayload) (block : SpanBatchElement) :
    Option BatchValidity :=
  if payload.transactions.any List.isEmpty then none
  else
    let depositCount := payload.transactions.countP fun tx => tx.head? = some depositTxType
    if payload.transactions.drop depositCount ≠ block.transactions then some .drop
    else match payload.l1OriginNum with
      | none => some .drop
      | some number => some (if number ≠ block.epochNum then .drop else .accept)

/-- The overlap loop from the safe block `number` on; `none` is a panic. -/
def checkOverlap (payloadByNumber : UInt64 → Option SafePayload) :
    Nat → UInt64 → List SpanBatchElement → Option BatchValidity
  | 0,_,_ => some .accept
  | n+1,number,blocks =>
    match payloadByNumber number,blocks with
    | none,_ => some .undecided
    | some _,[] => none
    | some payload,block::blocks =>
      match checkOverlappedBlock payload block with
      | some .accept => checkOverlap payloadByNumber n (number + 1) blocks
      | validity => validity

def checkSpanBatch (cfg : Config) (l1Blocks : List L1BlockRef) (l2SafeHead : L2BlockRef)
    (batch : NonemptySpan) (l1InclusionBlock : L1BlockRef) (l2Fetcher : SafeBlockFetcher) :
    Option BatchValidity :=
  match checkSpanBatchPrefix cfg l1Blocks l2SafeHead batch l1InclusionBlock
      l2Fetcher.l2BlockRefByNumber with
  | (.accept,some parentBlock) =>
    let startAdvanced := decide (batch.first.epochNum = parentBlock.l1Origin.number + 1)
    match checkSpanBlocks cfg l2SafeHead startAdvanced l1Blocks none batch.span.batches with
    | .accept =>
      if batch.first.timestamp < l2SafeHead.time + cfg.blockTime then
        checkOverlap l2Fetcher.payloadByNumber (l2SafeHead.number - parentBlock.number).toNat
          (parentBlock.number + 1) batch.span.batches
      else some .accept
    | validity => some validity
  | (validity,_) => some validity

end OpStack.Derive
