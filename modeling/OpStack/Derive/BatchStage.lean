import OpStack.Derive.Batches

namespace OpStack.Derive
open Eth Rollup

inductive Batch where
  | singular (b : SingularBatch)
  | span (b : NonemptySpan)

inductive StageError where
  | eof
  | notEnoughData
  | temporary
  | reset
  | critical
  deriving DecidableEq

structure NextBatchProvider (π : Type) where
  origin : π → L1BlockRef
  nextBatch : π → π × Except StageError Batch
  flushChannel : π → π

/-- `baseBatchStage` without its configuration and neighbours. -/
structure BatchStage where
  origin : L1BlockRef
  l1Blocks : List L1BlockRef
  nextSpan : List SingularBatch
  deriving DecidableEq

/-- A batch with the flag that concludes its span, or the error; `panic` is a Go panic. -/
inductive NextBatchResult where
  | batch (b : SingularBatch) (concluding : Bool)
  | error (e : StageError)
  | panic
  deriving DecidableEq

namespace BatchStage

def reset (base : L1BlockRef) : BatchStage := ⟨base,[base],[]⟩

def pruneOrigins (number : UInt64) (l1Blocks : List L1BlockRef) : List L1BlockRef :=
  match l1Blocks with
  | [] => []
  | b::_ =>
    if b.number < number then
      match l1Blocks.dropWhile fun l1 => l1.number ≠ number with
      | [] => l1Blocks
      | kept => kept
    else l1Blocks

def updateOrigins (bs : BatchStage) (prevOrigin : L1BlockRef) (parent : L2BlockRef) : BatchStage :=
  let bs :=
    if bs.origin ≠ prevOrigin then
      if prevOrigin.number < parent.l1Origin.number then
        { bs with origin := prevOrigin, l1Blocks := [] }
      else { bs with origin := prevOrigin, l1Blocks := bs.l1Blocks ++ [prevOrigin] }
    else bs
  { bs with l1Blocks := pruneOrigins parent.l1Origin.number bs.l1Blocks }

def nextFromSpanBatch (cfg : Config) (bs : BatchStage) (parent : L2BlockRef) :
    BatchStage × Option SingularBatch :=
  match bs.nextSpan with
  | [] => (bs,none)
  | b::rest =>
    if b.timestamp = parent.time + cfg.blockTime then
      ({ bs with nextSpan := rest },some { b with parentHash := parent.hash })
    else ({ bs with nextSpan := [] },none)

inductive EmptyBatch where
  | batch (b : SingularBatch)
  | eof

/-- The front of `l1Blocks` moves on by itself once its epoch can hold no further empty batch. -/
def deriveNextEmptyBatch (cfg : Config) (bs : BatchStage) (outOfData : Bool) (parent : L2BlockRef) :
    BatchStage × EmptyBatch :=
  match bs.l1Blocks with
  | epoch::nextEpoch::_ =>
    let expiryEpoch := epoch.number + cfg.seqWindowSize
    let forceEmptyBatches :=
      (expiryEpoch = bs.origin.number ∧ outOfData) ∨ expiryEpoch < bs.origin.number
    let firstOfEpoch := epoch.number = parent.l1Origin.number + 1
    let nextTimestamp := parent.time + cfg.blockTime
    if ¬ forceEmptyBatches then (bs,.eof)
    else if nextTimestamp < nextEpoch.time ∨ firstOfEpoch then
      (bs,.batch ⟨parent.hash,epoch.number,epoch.hash,nextTimestamp,[]⟩)
    else ({ bs with l1Blocks := bs.l1Blocks.tail },.eof)
  | _ => (bs,.eof)

variable {π : Type} (cfg : Config) (prev : NextBatchProvider π)

def flushChannel (s : BatchStage × π) : BatchStage × π :=
  ({ s.1 with nextSpan := [] },prev.flushChannel s.2)

inductive Candidate where
  | batch (b : SingularBatch)
  | error (e : StageError)
  | panic

def fromSpanBatch (fetch : UInt64 → Option L2BlockRef) (s : BatchStage × π) (parent : L2BlockRef)
    (b : NonemptySpan) : (BatchStage × π) × Candidate :=
  match (checkSpanBatchPrefix cfg s.1.l1Blocks parent b s.1.origin fetch).1 with
  | .past => (s,.error .notEnoughData)
  | .drop => (flushChannel prev s,.error .notEnoughData)
  -- the batch has left the previous stage by now
  | .undecided => (s,.error .notEnoughData)
  | .future => (s,.error .critical)
  | .accept =>
    match b.span.getSingularBatches s.1.l1Blocks parent with
    | none => (flushChannel prev s,.error .notEnoughData)
    | some [] => (s,.panic)
    | some (b::rest) =>
      (({ s.1 with nextSpan := rest },s.2),.batch { b with parentHash := parent.hash })

def nextSingularBatchCandidate (fetch : UInt64 → Option L2BlockRef) (s : BatchStage × π)
    (parent : L2BlockRef) : (BatchStage × π) × Candidate :=
  match nextFromSpanBatch cfg s.1 parent with
  | (bs,some b) => ((bs,s.2),.batch b)
  | (bs,none) =>
    match prev.nextBatch s.2 with
    | (p,.error e) => ((bs,p),.error e)
    | (p,.ok (.singular b)) => ((bs,p),.batch b)
    | (p,.ok (.span b)) => fromSpanBatch cfg prev fetch (bs,p) parent b

def checkCandidate (s : BatchStage × π) (parent : L2BlockRef) (b : SingularBatch) :
    (BatchStage × π) × NextBatchResult :=
  match checkSingularBatch cfg s.1.l1Blocks parent b s.1.origin with
  | .accept => (s,.batch b true)
  | .past => (s,.error .notEnoughData)
  | .drop => (flushChannel prev s,.error .notEnoughData)
  | .undecided => (s,.error .notEnoughData)
  | .future => (s,.error .critical)

def nextBatchOnOrigins (fetch : UInt64 → Option L2BlockRef) (s : BatchStage × π)
    (parent : L2BlockRef) : (BatchStage × π) × NextBatchResult :=
  if (prev.origin s.2).number < parent.l1Origin.number ∨
      parent.l1Origin.number = s.1.origin.number then
    match prev.nextBatch s.2 with
    | (p,.error e) => ((s.1,p),.error e)
    | (p,.ok _) => ((s.1,p),.error .notEnoughData)
  else
    match s.1.l1Blocks with
    | epoch::_::_ =>
      if parent.l1Origin ≠ epoch.id ∧ parent.l1Origin.number ≠ epoch.number - 1 then
        (s,.error .reset)
      else
        match nextSingularBatchCandidate cfg prev fetch s parent with
        | (s,.error .eof) =>
          match deriveNextEmptyBatch cfg s.1 true parent with
          | (bs,.batch b) => ((bs,s.2),.batch b true)
          | (bs,.eof) => ((bs,s.2),.error .eof)
        | (s,.error e) => (s,.error e)
        | (s,.panic) => (s,.panic)
        | (s,.batch b) => checkCandidate cfg prev s parent b
    | _ => (s,.error .critical)

def nextBatch (fetch : UInt64 → Option L2BlockRef) (s : BatchStage × π) (parent : L2BlockRef) :
    (BatchStage × π) × NextBatchResult :=
  nextBatchOnOrigins cfg prev fetch
    (s.1.updateOrigins (prev.origin s.2) parent,s.2) parent

end BatchStage
end OpStack.Derive
