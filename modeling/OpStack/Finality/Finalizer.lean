import OpStack.Rollup.Config

namespace OpStack.Finality
open Eth Rollup

structure FinalizerConfig where
  finalityLookback : Option UInt64 := none
  finalityDelay : Option UInt64 := none

def defaultFinalityLookback : UInt64 := 4 * 32 + 1
def defaultFinalityDelay : UInt64 := 64

/-- In alt-DA mode a commitment may be challenged on the last block of the challenge window. -/
def calcFinalityLookback (cfg : Config) (finalizerCfg : Option FinalizerConfig) : UInt64 :=
  match finalizerCfg.bind FinalizerConfig.finalityLookback with
  | some lookback => lookback
  | none =>
    match cfg.altDAConfig with
    | some altDA =>
      let lkb := altDA.daChallengeWindow + altDA.daResolveWindow + 1
      if defaultFinalityLookback < lkb then lkb else defaultFinalityLookback
    | none => defaultFinalityLookback

def calcFinalityDelay (finalizerCfg : Option FinalizerConfig) : UInt64 :=
  (finalizerCfg.bind FinalizerConfig.finalityDelay).getD defaultFinalityDelay

structure FinalityData where
  l2Block : L2BlockRef
  l1Block : BlockID
  deriving DecidableEq

structure Finalizer where
  cfg : Config
  supervisorEnabled : Bool
  finalizedL1 : L1BlockRef
  lastFinalizedL2 : L2BlockRef
  triedFinalizeAt : UInt64
  finalityData : List FinalityData
  finalityLookback : UInt64
  finalityDelay : UInt64

def newFinalizer (cfg : Config) (finalizerCfg : Option FinalizerConfig)
    (supervisorEnabled : Bool) : Finalizer where
  cfg := cfg
  supervisorEnabled := supervisorEnabled
  finalizedL1 := .zero
  lastFinalizedL2 := .zero
  triedFinalizeAt := 0
  finalityData := []
  finalityLookback := calcFinalityLookback cfg finalizerCfg
  finalityDelay := calcFinalityDelay finalizerCfg

inductive FinalityError where
  | couldNotFetch (number : UInt64)
  | signalNotCanonical (finalizedL1 signalRef : L1BlockRef)
  | notOnFinalizingChain (derivedFrom : BlockID) (derivedRef finalizedL1 : L1BlockRef)
  deriving DecidableEq

inductive Effect where
  | tryFinalize
  | l1TemporaryError (err : FinalityError)
  | reset (err : FinalityError)
  | promoteFinalized (ref : L2BlockRef)
  deriving DecidableEq

/-- A slice of the finality data whose end is before its start. -/
inductive Panic where
  | sliceBounds
  deriving DecidableEq

/-- An attempt to finalize comes with the answers that the L1 node gives to its two queries. -/
inductive Event where
  | safeDerived (safe : L2BlockRef) (source : L1BlockRef)
  | l1Finalized (l1Origin : L1BlockRef)
  | deriverIdle (origin : L1BlockRef)
  | tryFinalize (signal derived : UInt64 → Fetched L1BlockRef)
  | forkchoiceUpdate (finalizedL2Head : L2BlockRef)
  | reset

namespace Finalizer
variable (fi : Finalizer)

def onL1Finalized (l1Origin : L1BlockRef) : Finalizer × List Effect :=
  if l1Origin.number < fi.finalizedL1.number then (fi,[])
  else if fi.finalizedL1 ≠ l1Origin then
    ({ fi with triedFinalizeAt := 0, finalizedL1 := l1Origin },[.tryFinalize])
  else (fi,[.tryFinalize])

def onDerivationIdle (derivedFrom : L1BlockRef) : Finalizer × List Effect :=
  if fi.finalizedL1 = .zero then (fi,[])
  else if fi.triedFinalizeAt ≠ 0 ∧
      derivedFrom.number ≤ fi.triedFinalizeAt + fi.finalityDelay then (fi,[])
  else ({ fi with triedFinalizeAt := derivedFrom.number },[.tryFinalize])

def candidate (finalizedL1 : L1BlockRef) (best : L2BlockRef × BlockID) (fd : FinalityData) :
    L2BlockRef × BlockID :=
  if best.1.number < fd.l2Block.number ∧ fd.l1Block.number ≤ finalizedL1.number then
    (fd.l2Block,fd.l1Block)
  else best

def tryFinalize (signal derived : UInt64 → Fetched L1BlockRef) : List Effect :=
  let (finalizedL2,finalizedDerivedFrom) :=
    fi.finalityData.foldl (candidate fi.finalizedL1) (fi.lastFinalizedL2,.zero)
  if finalizedDerivedFrom = .zero then []
  else
    match signal fi.finalizedL1.number with
    | .found signalRef =>
      if signalRef.hash ≠ fi.finalizedL1.hash then
        [.reset (.signalNotCanonical fi.finalizedL1 signalRef)]
      else
        match derived finalizedDerivedFrom.number with
        | .found derivedRef =>
          if derivedRef.hash ≠ finalizedDerivedFrom.hash then
            [.reset (.notOnFinalizingChain finalizedDerivedFrom derivedRef fi.finalizedL1)]
          else [.promoteFinalized finalizedL2]
        | _ => [.l1TemporaryError (.couldNotFetch finalizedDerivedFrom.number)]
    | _ => [.l1TemporaryError (.couldNotFetch fi.finalizedL1.number)]

def extend (data : List FinalityData) (lookback : UInt64) (fd : FinalityData) :
    Except Panic (List FinalityData) :=
  if lookback.toNat ≤ data.length then
    if lookback = 0 then .error .sliceBounds
    else .ok ((data.take lookback.toNat).drop 1 ++ [fd])
  else .ok (data ++ [fd])

def onDerivedSafeBlock (l2Safe : L2BlockRef) (derivedFrom : L1BlockRef) :
    Except Panic Finalizer :=
  if fi.cfg.isInterop l2Safe.time && fi.supervisorEnabled then .ok fi
  else
    match fi.finalityData.getLast? with
    | none => do
      let data ← extend fi.finalityData fi.finalityLookback ⟨l2Safe,derivedFrom.id⟩
      return { fi with finalityData := data }
    | some last =>
      if last.l1Block.number < derivedFrom.number then do
        let data ← extend fi.finalityData fi.finalityLookback ⟨l2Safe,derivedFrom.id⟩
        return { fi with finalityData := data }
      else
        .ok { fi with
          finalityData := fi.finalityData.dropLast ++ [{ last with l2Block := l2Safe }] }

def onReset : Finalizer := { fi with finalityData := [], triedFinalizeAt := 0 }

def onEvent : Event → Except Panic (Finalizer × List Effect)
  | .safeDerived safe source => do
    let fi ← fi.onDerivedSafeBlock safe source
    return (fi,[])
  | .l1Finalized l1Origin => .ok (fi.onL1Finalized l1Origin)
  | .deriverIdle origin => .ok (fi.onDerivationIdle origin)
  | .tryFinalize signal derived => .ok (fi,fi.tryFinalize signal derived)
  | .forkchoiceUpdate finalizedL2Head => .ok ({ fi with lastFinalizedL2 := finalizedL2Head },[])
  | .reset => .ok (fi.onReset,[])

end Finalizer

end OpStack.Finality
