import OpStack.Rollup.Config

namespace OpStack.Sequencing
open Eth Rollup

inductive SelectorError where
  | invalidL1Origin
  | nextL1OriginOrphaned
  | nextL1OriginRequired
  | l1BlockByHash (notFound : Bool)
  | emptyCurrentOrigin
  deriving DecidableEq

/-- The selector with its cache of L1 origins. A zero block stands for one that is not there. -/
structure L1OriginSelector where
  cfg : Config
  recoverMode : Bool
  currentOrigin : L1BlockRef
  nextOrigin : L1BlockRef

def newL1OriginSelector (cfg : Config) : L1OriginSelector :=
  ⟨cfg,false,.zero,.zero⟩

/-- `findL1OriginOfNextL2Block`, which only reads the configuration. An empty current origin is a
panic. -/
def findL1OriginOfNextL2Block (cfg : Config) (l2Head : L2BlockRef)
    (currentL1Origin nextL1Origin : L1BlockRef) (matchAutoDerivation : Bool) :
    Except SelectorError L1BlockRef :=
  if currentL1Origin = .zero then .error .emptyCurrentOrigin
  else if l2Head.l1Origin.hash ≠ currentL1Origin.hash then .error .invalidL1Origin
  else if nextL1Origin ≠ .zero ∧ nextL1Origin.parentHash ≠ currentL1Origin.hash then
    .error .nextL1OriginOrphaned
  else
    let maxDrift := cfg.maxSequencerDriftAt currentL1Origin.time
    let nextL2BlockTime := l2Head.time + cfg.blockTime
    let driftCurrent := nextL2BlockTime.toInt64 - currentL1Origin.time.toInt64
    if nextL1Origin = .zero then
      if matchAutoDerivation then .error .nextL1OriginRequired
      else if maxDrift.toInt64 < driftCurrent then .error .nextL1OriginRequired
      else .ok currentL1Origin
    else
      let driftNext := nextL2BlockTime.toInt64 - nextL1Origin.time.toInt64
      if 0 ≤ driftNext then .ok nextL1Origin else .ok currentL1Origin

namespace L1OriginSelector
variable (los : L1OriginSelector)

def currentAndNextOrigin (l1BlockRefByHash : Hash → Fetched L1BlockRef) (l2Head : L2BlockRef) :
    Except SelectorError L1OriginSelector :=
  if l2Head.l1Origin = los.currentOrigin.id then .ok los
  else if l2Head.l1Origin = los.nextOrigin.id then
    .ok { los with currentOrigin := los.nextOrigin, nextOrigin := .zero }
  else
    match l1BlockRefByHash l2Head.l1Origin.hash with
    | .found b => .ok { los with currentOrigin := b, nextOrigin := .zero }
    | .notFound => .error (.l1BlockByHash true)
    | .failed => .error (.l1BlockByHash false)

def maybeSetNextOrigin (nextOrigin : L1BlockRef) : L1OriginSelector :=
  if nextOrigin.number = los.currentOrigin.number + 1 then { los with nextOrigin := nextOrigin }
  else los

def reset : L1OriginSelector :=
  { los with currentOrigin := .zero, nextOrigin := .zero }

structure Selection where
  origin : L1BlockRef
  nextOrigin : L1BlockRef
  selector : L1OriginSelector

/-- `FindL1Origin`. The two queries of the L1 node are by hash and, if the next origin is found to be
needed, by number. -/
def findL1Origin (l1BlockRefByHash : Hash → Fetched L1BlockRef)
    (l1BlockRefByNumber : UInt64 → Fetched L1BlockRef) (l2Head : L2BlockRef) :
    Except SelectorError Selection := do
  let los ← los.currentAndNextOrigin l1BlockRefByHash l2Head
  let current := los.currentOrigin
  match findL1OriginOfNextL2Block los.cfg l2Head current los.nextOrigin los.recoverMode with
  | .ok origin => .ok ⟨origin,los.nextOrigin,los⟩
  | .error .nextL1OriginRequired =>
    match l1BlockRefByNumber (current.number + 1) with
    | .found next => do
      let origin ← findL1OriginOfNextL2Block los.cfg l2Head current next false
      return ⟨origin,next,los.maybeSetNextOrigin next⟩
    | .notFound =>
      if los.recoverMode then do
        let origin ← findL1OriginOfNextL2Block los.cfg l2Head current .zero false
        return ⟨origin,.zero,los⟩
      else .error .nextL1OriginRequired
    | .failed => .error .nextL1OriginRequired
  | .error e => .error e

end L1OriginSelector

def noTxPool (cfg : Config) (recoverMode : Bool) (timestamp : UInt64) (l1Origin : L1BlockRef) :
    Bool :=
  l1Origin.time + cfg.maxSequencerDriftAt l1Origin.time < timestamp ||
    cfg.isActivationBlockForFork .ecotone timestamp ||
    cfg.isActivationBlockForFork .fjord timestamp ||
    cfg.isActivationBlockForFork .isthmus timestamp ||
    cfg.isActivationBlockForFork .jovian timestamp ||
    cfg.isActivationBlockForFork .karst timestamp ||
    cfg.isActivationBlockForFork .interop timestamp || recoverMode

end OpStack.Sequencing
