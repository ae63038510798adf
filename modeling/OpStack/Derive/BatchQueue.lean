import OpStack.Derive.BatchStage

namespace OpStack.Derive
open Eth Rollup

structure BatchWithL1InclusionBlock where
  l1InclusionBlock : L1BlockRef
  batch : Batch

/-- `none` is a Go panic. -/
def checkBatch (cfg : Config) (l1Blocks : List L1BlockRef) (l2SafeHead : L2BlockRef)
    (b : BatchWithL1InclusionBlock) (l2Fetcher : SafeBlockFetcher) : Option BatchValidity :=
  match b.batch with
  | .singular batch =>
    some (checkSingularBatch cfg l1Blocks l2SafeHead batch b.l1InclusionBlock)
  | .span batch => checkSpanBatch cfg l1Blocks l2SafeHead batch b.l1InclusionBlock l2Fetcher

/-- The stage before Holocene: batches in the order in which they were first seen. -/
structure BatchQueue where
  base : BatchStage
  batches : List BatchWithL1InclusionBlock

inductive CriticalCause where
  | noOrigin
  | unknownValidity
  | conversion
  deriving DecidableEq

inductive PanicCause where
  | addWithoutOrigin
  | checkBatch
  | popNextBatch
  deriving DecidableEq

inductive QueueError where
  | stage (e : StageError)
  | critical (cause : CriticalCause)
  | panic (cause : PanicCause)
  deriving DecidableEq

inductive ScanResult where
  | found (b : BatchWithL1InclusionBlock)
  | exhausted
  | undecided
  | unknownValidity
  | panic

def scanBatches (check : BatchWithL1InclusionBlock → Option BatchValidity) :
    List BatchWithL1InclusionBlock → List BatchWithL1InclusionBlock × ScanResult
  | [] => ([],.exhausted)
  | b::bs =>
    match check b with
    | some .future =>
      let (remaining,result) := scanBatches check bs
      (b::remaining,result)
    | some .drop => scanBatches check bs
    | some .accept => (bs,.found b)
    | some .undecided => (b::bs,.undecided)
    | some .past => (b::bs,.unknownValidity)
    | none => (b::bs,.panic)

/-- Pops the next batch of the current span; `none` is the panic on an empty one. -/
def BatchStage.popNextBatch (bs : BatchStage) (parent : L2BlockRef) :
    Option (BatchStage × SingularBatch) :=
  match bs.nextSpan with
  | [] => none
  | b::rest => some ({ bs with nextSpan := rest },{ b with parentHash := parent.hash })

namespace BatchQueue

def reset (base : L1BlockRef) : BatchQueue := ⟨BatchStage.reset base,[]⟩

variable (cfg : Config) (l2 : SafeBlockFetcher)

def addBatch (bq : BatchQueue) (batch : Batch) (parent : L2BlockRef) :
    Except PanicCause BatchQueue :=
  if bq.base.l1Blocks = [] then .error .addWithoutOrigin
  else
    let data := ⟨bq.base.origin,batch⟩
    match checkBatch cfg bq.base.l1Blocks parent data l2 with
    | none => .error .checkBatch
    | some .drop => .ok bq
    | some _ => .ok { bq with batches := bq.batches ++ [data] }

def deriveNextBatch (bq : BatchQueue) (outOfData : Bool) (parent : L2BlockRef) :
    BatchQueue × Except QueueError Batch :=
  match bq.base.l1Blocks with
  | [] => (bq,.error (.critical .noOrigin))
  | epoch::_ =>
    if parent.l1Origin ≠ epoch.id ∧ parent.l1Origin.number ≠ epoch.number - 1 then
      (bq,.error (.stage .reset))
    else
      match scanBatches (fun b => checkBatch cfg bq.base.l1Blocks parent b l2) bq.batches with
      | (remaining,.found b) => ({ bq with batches := remaining },.ok b.batch)
      | (remaining,.undecided) => ({ bq with batches := remaining },.error (.stage .eof))
      -- the queue is assigned only after the loop
      | (_,.unknownValidity) => (bq,.error (.critical .unknownValidity))
      | (_,.panic) => (bq,.error (.panic .checkBatch))
      | (remaining,.exhausted) =>
        match bq.base.deriveNextEmptyBatch cfg outOfData parent with
        | (base,.batch b) => (⟨base,remaining⟩,.ok (.singular b))
        | (base,.eof) => (⟨base,remaining⟩,.error (.stage .eof))

def takeNextBatch (bq : BatchQueue) (outOfData : Bool) (parent : L2BlockRef) :
    BatchQueue × Except QueueError (SingularBatch × Bool) :=
  match bq.deriveNextBatch cfg l2 outOfData parent with
  | (bq,.error (.stage .eof)) =>
    (bq,.error (.stage (if outOfData then .eof else .notEnoughData)))
  | (bq,.error e) => (bq,.error e)
  | (bq,.ok (.singular b)) => (bq,.ok (b,bq.base.nextSpan = []))
  | (bq,.ok (.span b)) =>
    match b.span.getSingularBatches bq.base.l1Blocks parent with
    | none => (bq,.error (.critical .conversion))
    | some batches =>
      let base := { bq.base with nextSpan := batches }
      match base.popNextBatch parent with
      | none => ({ bq with base },.error (.panic .popNextBatch))
      | some (base,b) => ({ bq with base },.ok (b,base.nextSpan = []))

def nextBatch {π : Type} (prev : NextBatchProvider π) (s : BatchQueue × π) (parent : L2BlockRef) :
    (BatchQueue × π) × Except QueueError (SingularBatch × Bool) :=
  match s.1.base.nextFromSpanBatch cfg parent with
  | (base,some b) => (({ s.1 with base },s.2),.ok (b,base.nextSpan = []))
  | (base,none) =>
    let bq := { s.1 with base := base.updateOrigins (prev.origin s.2) parent }
    let originBehind := decide ((prev.origin s.2).number < parent.l1Origin.number)
    match prev.nextBatch s.2 with
    | (p,.error .eof) =>
      if originBehind then ((bq,p),.error (.stage .eof))
      else
        let (bq,result) := bq.takeNextBatch cfg l2 true parent
        ((bq,p),result)
    | (p,.error e) => ((bq,p),.error (.stage e))
    | (p,.ok batch) =>
      if originBehind then ((bq,p),.error (.stage .notEnoughData))
      else
        match bq.addBatch cfg l2 batch parent with
        | .error cause => ((bq,p),.error (.panic cause))
        | .ok bq =>
          let (bq,result) := bq.takeNextBatch cfg l2 false parent
          ((bq,p),result)

end BatchQueue
end OpStack.Derive
