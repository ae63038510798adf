import OpStack.Fault.Game
import OpStack.Interop.Consolidate

namespace OpStack.Fault
open Lib Eth Interop

inductive SuperTraceError (ε : Type) where
  | rootProvider (timestamp : UInt64) (e : ε)
  | notInSync
  | notFound
  | indexTooBig (index : Nat)
  | panic (p : Panic)
  | nilPointer

structure SuperNodeTraceProvider (ε : Type) where
  rootProvider : UInt64 → Except ε SuperRootAtTimestampResponse
  prestateTimestamp : UInt64
  poststateTimestamp : UInt64
  l1Head : BlockID
  gameDepth : UInt64

def stepsPerTimestamp : UInt64 := 128

/-- The timestamp and the step within it after `traceIdx` steps. Past the claimed timestamp the
trace stays at its super root. -/
def stepAt (prestateTimestamp poststateTimestamp traceIdx : UInt64) : UInt64 × UInt64 :=
  let timestamp := prestateTimestamp + traceIdx / stepsPerTimestamp
  if poststateTimestamp ≤ timestamp then (poststateTimestamp,0)
  else (timestamp,traceIdx % stepsPerTimestamp)

namespace SuperNodeTraceProvider
variable {ε : Type} (s : SuperNodeTraceProvider ε)

def superRootAtTimestamp (timestamp : UInt64) :
    Except (SuperTraceError ε) SuperRootAtTimestampResponse :=
  (s.rootProvider timestamp).mapError (.rootProvider timestamp)

def computeStep (pos : Position) : Except (SuperTraceError ε) (UInt64 × UInt64) := do
  let bigIdx ← (pos.traceIndex s.gameDepth).mapError .panic
  if 2 ^ 64 ≤ bigIdx then throw (.indexTooBig bigIdx)
  pure (stepAt s.prestateTimestamp s.poststateTimestamp (UInt64.ofNat bigIdx + 1))

def safeData (root : SuperRootAtTimestampResponse) :
    Except (SuperTraceError ε) (Option SuperRootResponseData) :=
  if root.currentL1.number < s.l1Head.number then .error .notInSync
  else .ok (root.data.filter fun data => data.verifiedRequiredL1.number ≤ s.l1Head.number)

def getPreimageBytesAtTimestampBoundary (timestamp : UInt64) :
    Except (SuperTraceError ε) Bytes := do
  let root ← s.superRootAtTimestamp timestamp
  match ← s.safeData root with
  | none => pure invalidTransition
  | some data => (orFail .nilPointer data.super).map SuperV1.marshal

def optimisticBlocks (root : SuperRootAtTimestampResponse) :
    List ChainID → Except (SuperTraceError ε) (Option (List OptimisticBlock))
  | [] => .ok (some [])
  | chainID::rest =>
    match root.optimisticAtTimestamp chainID with
    | none => .ok none
    | some optimistic =>
      if s.l1Head.number < optimistic.requiredL1.number then .ok none
      else do
        let output ← orFail .nilPointer optimistic.output
        let blocks ← optimisticBlocks root rest
        pure (blocks.map (⟨output.blockHash,optimistic.outputRoot⟩::·))

def sortChainIDs (ids : List ChainID) : List ChainID :=
  ids.mergeSort fun a b => a.toNat ≤ b.toNat

def getPreimageBytes (pos : Position) : Except (SuperTraceError ε) Bytes := do
  let (timestamp,step) ← s.computeStep pos
  if step = 0 then s.getPreimageBytesAtTimestampBoundary timestamp
  else
    let prevRoot ← s.superRootAtTimestamp timestamp
    match ← s.safeData prevRoot with
    | none => pure invalidTransition
    | some data =>
      let nextRoot ← s.superRootAtTimestamp (timestamp + 1)
      if nextRoot.currentL1.number < s.l1Head.number then throw .notInSync
      let prevSuper ← orFail .nilPointer data.super
      match ← s.optimisticBlocks nextRoot ((sortChainIDs nextRoot.chainIDs).take step.toNat) with
      | none => pure invalidTransition
      | some progress => pure (TransitionState.marshal ⟨prevSuper.marshal,progress,step⟩)

/-- `SuperNodePrestateProvider.AbsolutePreState` for the prestate timestamp. -/
def absolutePreState : Except (SuperTraceError ε) SuperV1 := do
  let response ← s.superRootAtTimestamp s.prestateTimestamp
  let data ← orFail .notFound response.data
  orFail .nilPointer data.super

end SuperNodeTraceProvider

inductive SupervisorTraceError where
  | rootProvider (timestamp : UInt64)
  | safeDerived (l1Head : BlockID)
  | toSuper (timestamp : UInt64) (e : RootError)
  | rollupConfigUnavailable (chain : ChainID)
  | noTargetBlockNumber (chain : ChainID) (timestamp : UInt64)
  | noSafeHead (chain : ChainID) (timestamp : UInt64)
  | pendingOutput (timestamp : UInt64) (e : OutputError)
  | indexTooBig (index : Nat)
  | panic (p : Panic)
  | divisionByZero

structure SupervisorSuperTraceProvider where
  rollupCfgs : ChainID → Option Rollup.Config
  superRootAtTimestamp : UInt64 → Fetched SuperRootResponse
  allSafeDerivedAt : BlockID → Option (List (ChainID × BlockID))
  prestateTimestamp : UInt64
  poststateTimestamp : UInt64
  l1Head : BlockID
  gameDepth : UInt64

namespace SupervisorSuperTraceProvider
variable (s : SupervisorSuperTraceProvider)

def computeStep (pos : Position) : Except SupervisorTraceError (UInt64 × UInt64) := do
  let bigIdx ← (pos.traceIndex s.gameDepth).mapError .panic
  if 2 ^ 64 ≤ bigIdx then throw (.indexTooBig bigIdx)
  pure (stepAt s.prestateTimestamp s.poststateTimestamp (UInt64.ofNat bigIdx + 1))

def rootAt (timestamp : UInt64) : Except SupervisorTraceError (Option SuperRootResponse) :=
  match s.superRootAtTimestamp timestamp with
  | .found root => .ok (some root)
  | .notFound => .ok none
  | .failed => .error (.rootProvider timestamp)

def safeRootAt (timestamp : UInt64) : Except SupervisorTraceError (Option SuperRootResponse) := do
  let root ← s.rootAt timestamp
  pure (root.filter fun root => root.crossSafeDerivedFrom.number ≤ s.l1Head.number)

/-- The safe heads of the chains at the L1 head. They are asked for only if the root is not cross
safe there. -/
def safeHeads (root : SuperRootResponse) : Except SupervisorTraceError (List (ChainID × BlockID)) :=
  if s.l1Head.number < root.crossSafeDerivedFrom.number then
    orFail (.safeDerived s.l1Head) (s.allSafeDerivedAt s.l1Head)
  else .ok []

def headReached (heads : List (ChainID × BlockID)) (timestamp : UInt64) (chain : ChainID) :
    Except SupervisorTraceError Bool := do
  let cfg ← orFail (.rollupConfigUnavailable chain) (s.rollupCfgs chain)
  let required ← (cfg.targetBlockNumber timestamp).mapError fun
    | .genesisNotReached _ => .noTargetBlockNumber chain timestamp
    | .divisionByZero => .divisionByZero
  let head ← orFail (.noSafeHead chain timestamp) (heads.lookup chain)
  pure (decide (required ≤ head.number))

def optimisticBlocks (keccak256 : Bytes → Hash) (heads : List (ChainID × BlockID))
    (timestamp : UInt64) :
    List ChainRootInfo → Except SupervisorTraceError (Option (List OptimisticBlock))
  | [] => .ok (some [])
  | info::rest => do
    let reached ← (if heads.isEmpty then pure true else s.headReached heads timestamp info.chainID)
    if reached then
      let output ← (unmarshalOutput info.pending).mapError (.pendingOutput timestamp)
      let blocks ← optimisticBlocks keccak256 heads timestamp rest
      pure (blocks.map (⟨output.blockHash,output.root keccak256⟩::·))
    else pure none

def marshalSuper (timestamp : UInt64) (root : SuperRootResponse) :
    Except SupervisorTraceError Bytes :=
  (root.toSuper.mapError (.toSuper timestamp)).map SuperV1.marshal

def getPreimageBytes (keccak256 : Bytes → Hash) (pos : Position) :
    Except SupervisorTraceError Bytes := do
  let (timestamp,step) ← s.computeStep pos
  match ← s.safeRootAt timestamp with
  | none => pure invalidTransition
  | some prevRoot =>
    if step = 0 then marshalSuper timestamp prevRoot
    else
      match ← s.rootAt (timestamp + 1) with
      | none => pure invalidTransition
      | some nextRoot =>
        let heads ← s.safeHeads nextRoot
        let superRoot ← marshalSuper timestamp prevRoot
        match ← s.optimisticBlocks keccak256 heads (timestamp + 1)
          (nextRoot.chains.take step.toNat) with
        | none => pure invalidTransition
        | some progress => pure (TransitionState.marshal ⟨superRoot,progress,step⟩)

end SupervisorSuperTraceProvider

end OpStack.Fault
