import OpStack.Sync.Start

namespace OpStack.Engine
open Eth Lib Rollup

structure ExecutionPayload where
  parentHash : Hash
  blockNumber : UInt64
  timestamp : UInt64
  blockHash : Hash
  transactions : List Bytes
  deriving DecidableEq

def ExecutionPayload.id (payload : ExecutionPayload) : BlockID :=
  ⟨payload.blockHash,payload.blockNumber⟩

structure ForkchoiceUpdateEvent where
  unsafeL2Head : L2BlockRef
  safeL2Head : L2BlockRef
  finalizedL2Head : L2BlockRef
  deriving DecidableEq

/-- Where the node stops: the super authority names a block which the engine does not know. -/
inductive Panic where
  | safeHeadUnknown
  | finalizedHeadUnknown
  deriving DecidableEq

inductive SyncMode where
  | clSync
  | elSync
  deriving DecidableEq

inductive SyncStatus where
  | cl
  | willStartEL
  | startedEL
  | finishedELButNotFinalized
  | finishedEL
  deriving DecidableEq

structure SyncConfig where
  syncMode : SyncMode
  syncModeReqResp : Bool
  supportsPostFinalizationELSync : Bool
  followSourceEnabled : Bool
  offsetELSafe : Int

inductive ExecutePayloadStatus where
  | valid | invalid | syncing | accepted | invalidBlockHash | invalidTerminalBlock
  deriving DecidableEq

structure ForkchoiceState where
  headBlockHash : Hash
  safeBlockHash : Hash
  finalizedBlockHash : Hash
  deriving DecidableEq

def ForkchoiceState.zero : ForkchoiceState := ⟨.fill 32 0,.fill 32 0,.fill 32 0⟩

inductive BlockLabel where
  | latest | safe | finalized
  deriving DecidableEq

inductive ForkchoiceAnswer where
  | status (status : ExecutePayloadStatus)
  | invalidForkchoiceState
  | rpcError
  | failed
  deriving DecidableEq

/-- What the execution engine answers while one call of the controller lasts. -/
structure ExecEngine where
  forkchoiceUpdate : ForkchoiceState → ForkchoiceAnswer
  newPayload : ExecutionPayload → Option ExecutePayloadStatus
  l2BlockRefByLabel : BlockLabel → Fetched L2BlockRef
  l2BlockRefByHash : Hash → Fetched L2BlockRef
  l2BlockRefByNumber : UInt64 → Fetched L2BlockRef

structure SuperAuthority where
  fullyVerifiedL2Head : BlockID × Bool
  finalizedL2Head : BlockID × Bool

inductive EngineError where
  | loadUnsafe | loadFinalized | loadSafe
  | unsafeBehindFinalized (unsafeHead finalized : L2BlockRef)
  | inconsistentForkchoice
  | unexpectedErrorCode
  | forkchoiceFailed
  | finalizedHeadFetch
  | newPayloadFailed
  | payloadStatus (payload : BlockID) (status : ExecutePayloadStatus)
  | offsetHead (target : UInt64)
  | forkchoiceStatus (payload : BlockID) (status : ExecutePayloadStatus)
  deriving DecidableEq

inductive Severity where
  | reset | temporary | critical
  deriving DecidableEq

def EngineError.severity : EngineError → Severity
  | .inconsistentForkchoice => .reset
  | .unsafeBehindFinalized _ _ => .critical
  | _ => .temporary

inductive Event where
  | forkchoiceUpdate (event : ForkchoiceUpdateEvent)
  | unsafeUpdate (ref : L2BlockRef)
  | localSafeUpdate (ref : L2BlockRef) (source : L1BlockRef)
  | safeDerived (safe : L2BlockRef) (source : L1BlockRef)
  | finalizedUpdate (ref : L2BlockRef)
  | payloadInvalid (payload : ExecutionPayload) (status : ExecutePayloadStatus)
  | reset (err : EngineError)
  | engineTemporaryError (err : EngineError)
  | criticalError (err : EngineError)
  deriving DecidableEq

/-- The controller. What it emits is kept in `emitter`, in the order of emission. -/
structure EngineController where
  syncCfg : SyncConfig
  syncStatus : SyncStatus
  rollupCfg : Config
  supervisorEnabled : Bool
  superAuthority : Option SuperAuthority
  unsafeHead : L2BlockRef
  crossUnsafeHead : L2BlockRef
  pendingSafeHead : L2BlockRef
  localSafeHead : L2BlockRef
  localFinalizedHead : L2BlockRef
  backupUnsafeHead : L2BlockRef
  deprecatedSafeHead : L2BlockRef
  deprecatedFinalizedHead : L2BlockRef
  lastForkchoice : ForkchoiceState
  needFCUCallForBackupUnsafeReorg : Bool
  emitter : List Event

def newEngineController (rollupCfg : Config) (syncCfg : SyncConfig) (supervisorEnabled : Bool)
    (superAuthority : Option SuperAuthority) : EngineController where
  syncCfg := syncCfg
  syncStatus := if syncCfg.syncMode = .elSync then .willStartEL else .cl
  rollupCfg := rollupCfg
  supervisorEnabled := supervisorEnabled
  superAuthority := superAuthority
  unsafeHead := .zero
  crossUnsafeHead := .zero
  pendingSafeHead := .zero
  localSafeHead := .zero
  localFinalizedHead := .zero
  backupUnsafeHead := .zero
  deprecatedSafeHead := .zero
  deprecatedFinalizedHead := .zero
  lastForkchoice := .zero
  needFCUCallForBackupUnsafeReorg := false
  emitter := []

namespace EngineController
variable (engine : ExecEngine) (e : EngineController)

def emit (ev : Event) : EngineController := { e with emitter := e.emitter ++ [ev] }

def authorityHead (answer : BlockID × Bool) (useLocal : L2BlockRef) (unknown : Panic) :
    Except Panic L2BlockRef :=
  if answer.2 then .ok useLocal
  else if answer.1 = .zero then
    match engine.l2BlockRefByNumber 0 with
    | .found br => .ok br
    | _ => .ok .zero
  else if e.localSafeHead.number < answer.1.number then .ok e.localSafeHead
  else
    match engine.l2BlockRefByHash answer.1.hash with
    | .found br => .ok br
    | _ => .error unknown

def safeL2Head : Except Panic L2BlockRef :=
  match e.superAuthority with
  | some authority =>
    e.authorityHead engine authority.fullyVerifiedL2Head e.localSafeHead .safeHeadUnknown
  | none =>
    if e.supervisorEnabled || e.syncCfg.followSourceEnabled then .ok e.deprecatedSafeHead
    else .ok e.localSafeHead

def finalizedHead : Except Panic L2BlockRef :=
  match e.superAuthority with
  | some authority =>
    e.authorityHead engine authority.finalizedL2Head e.localFinalizedHead .finalizedHeadUnknown
  | none =>
    if e.supervisorEnabled || e.syncCfg.followSourceEnabled then .ok e.deprecatedFinalizedHead
    else .ok e.localFinalizedHead

def requestForkchoiceUpdate : Except Panic EngineController := do
  let safe ← e.safeL2Head engine
  let finalized ← e.finalizedHead engine
  return e.emit (.forkchoiceUpdate ⟨e.unsafeHead,safe,finalized⟩)

def setFinalizedHead (r : L2BlockRef) : EngineController :=
  { e with localFinalizedHead := r, deprecatedFinalizedHead := r }

def setBackupUnsafeL2Head (r : L2BlockRef) (triggerReorg : Bool) : EngineController :=
  { e with backupUnsafeHead := r, needFCUCallForBackupUnsafeReorg := triggerReorg }

/-- The heads are read for the log, which stops the node if one of them is unknown. -/
def logSyncProgressMaybe : Except Panic Unit := do
  let _ ← e.finalizedHead engine
  let _ ← e.safeL2Head engine

def finishSync (status : ExecutePayloadStatus) : EngineController :=
  if status = .valid ∧ e.syncStatus = .startedEL then
    { e with syncStatus := .finishedELButNotFinalized }
  else e

def checkNewPayloadStatus (status : ExecutePayloadStatus) : EngineController × Bool :=
  match e.syncCfg.syncMode with
  | .elSync => (e.finishSync status,status = .valid || status = .syncing || status = .accepted)
  | .clSync =>
    if !e.syncCfg.syncModeReqResp then (e,status = .valid || status = .syncing)
    else (e,status = .valid)

def checkForkchoiceUpdatedStatus (status : ExecutePayloadStatus) : EngineController × Bool :=
  match e.syncCfg.syncMode with
  | .elSync => (e.finishSync status,status = .valid || status = .syncing)
  | .clSync => (e,status = .valid)

def initializeUnsafe : Option EngineController :=
  if e.unsafeHead ≠ .zero then some e
  else
    match engine.l2BlockRefByLabel .latest with
    | .found ref => some { e with unsafeHead := ref }
    | _ => none

def initializeFinalized : Except Panic (Option (EngineController × L2BlockRef)) := do
  let finalized ← e.finalizedHead engine
  if finalized ≠ .zero then return some (e,.zero)
  else
    match engine.l2BlockRefByLabel .finalized with
    | .found ref => return some (e.setFinalizedHead ref,ref)
    | _ => return none

def initializeSafe (finalizedRef : L2BlockRef) : Except Panic (Option EngineController) := do
  let safe ← e.safeL2Head engine
  if safe ≠ .zero then return some e
  else
    match engine.l2BlockRefByLabel .safe with
    | .found ref => return some { e with deprecatedSafeHead := ref }
    | .notFound => return some { e with deprecatedSafeHead := finalizedRef }
    | .failed => return none

def initializeLocal : Except Panic EngineController := do
  let e ← (if e.crossUnsafeHead = .zero then do
      let safe ← e.safeL2Head engine
      pure { e with crossUnsafeHead := safe }
    else pure e)
  if e.localSafeHead = .zero then
    let safe ← e.safeL2Head engine
    return { e with localSafeHead := safe }
  else return e

def initializeUnknowns : Except Panic (EngineController × Option EngineError) :=
  match e.initializeUnsafe engine with
  | none => .ok (e,some .loadUnsafe)
  | some e => do
    match ← e.initializeFinalized engine with
    | none => return (e,some .loadFinalized)
    | some (e,finalizedRef) =>
      match ← e.initializeSafe engine finalizedRef with
      | none => return (e,some .loadSafe)
      | some e =>
        let e ← e.initializeLocal engine
        return (e,none)

def forkchoiceError : ForkchoiceAnswer → Except EngineError ExecutePayloadStatus
  | .status status => .ok status
  | .invalidForkchoiceState => .error .inconsistentForkchoice
  | .rpcError => .error .unexpectedErrorCode
  | .failed => .error .forkchoiceFailed

def sendForkchoice : Except Panic (EngineController × Option EngineError) := do
  let finalized ← e.finalizedHead engine
  if e.unsafeHead.number < finalized.number then
    let err := EngineError.unsafeBehindFinalized e.unsafeHead finalized
    return (e.emit (.criticalError err),some err)
  let safe ← e.safeL2Head engine
  let fc : ForkchoiceState := ⟨e.unsafeHead.hash,safe.hash,finalized.hash⟩
  if fc = e.lastForkchoice then return (e,none)
  e.logSyncProgressMaybe engine
  match forkchoiceError (engine.forkchoiceUpdate fc) with
  | .error err => return (e,some err)
  | .ok status =>
    let e := { e with lastForkchoice := fc }
    let e ← (if status = .valid then e.requestForkchoiceUpdate engine else pure e)
    if e.unsafeHead = safe ∧ safe = e.pendingSafeHead then
      return (e.setBackupUnsafeL2Head .zero false,none)
    else return (e,none)

def tryUpdateEngineInternal : Except Panic (EngineController × Option EngineError) := do
  match ← e.initializeUnknowns engine with
  | (e,some err) => return (e,some err)
  | (e,none) => e.sendForkchoice engine

def emitError (err : EngineError) : EngineController :=
  match err.severity with
  | .reset => e.emit (.reset err)
  | .temporary => e.emit (.engineTemporaryError err)
  | .critical => e.emit (.criticalError err)

def tryUpdateEngine : Except Panic EngineController := do
  match ← e.tryUpdateEngineInternal engine with
  | (e,none) => return e
  | (e,some err) => return e.emitError err

def startsELSync : Bool :=
  match engine.l2BlockRefByLabel .finalized with
  | .notFound => true
  | .found b => b.hash = e.rollupCfg.genesis.l2.hash || e.syncCfg.supportsPostFinalizationELSync
  | .failed =>
    L2BlockRef.zero.hash = e.rollupCfg.genesis.l2.hash ||
      e.syncCfg.supportsPostFinalizationELSync

def tryStartELSync : EngineController ⊕ (EngineController × Option EngineError) :=
  if e.syncStatus = .willStartEL then
    if e.startsELSync engine then .inl { e with syncStatus := .startedEL }
    else
      match engine.l2BlockRefByLabel .finalized with
      | .found _ => .inr ({ e with syncStatus := .finishedEL },none)
      | _ => .inr (e,some .finalizedHeadFetch)
  else .inl e

def notBehind (offsetRef head : L2BlockRef) : L2BlockRef :=
  if offsetRef.number < head.number then head else offsetRef

def offsetBlock (ref : L2BlockRef) : Except EngineError L2BlockRef :=
  let target := Sync.offsetBlockNum e.syncCfg.offsetELSafe e.rollupCfg.blockTime ref.number
    e.rollupCfg.genesis.l2.number
  if target < ref.number then
    match engine.l2BlockRefByNumber target with
    | .found d => .ok d
    | _ => .error (.offsetHead target)
  else .ok ref

def setSyncedHeads (ref safeRef finalizedRef : L2BlockRef) : EngineController :=
  ({ (({ e with unsafeHead := ref }).emit (.unsafeUpdate ref)) with
    localSafeHead := safeRef, deprecatedSafeHead := safeRef }).setFinalizedHead finalizedRef

/-- At the end of the sync the heads are set before the engine has answered. -/
def prepareForkchoice (payload : ExecutionPayload) (ref : L2BlockRef) :
    Except Panic (EngineController × Except EngineError ForkchoiceState) := do
  let safe ← e.safeL2Head engine
  let finalized ← e.finalizedHead engine
  if e.syncStatus = .finishedELButNotFinalized then
    match e.offsetBlock engine ref with
    | .error err => return (e,.error err)
    | .ok offsetRef =>
      let finalizedRef := notBehind offsetRef finalized
      let safeRef := notBehind offsetRef safe
      return (e.setSyncedHeads ref safeRef finalizedRef,
        .ok ⟨payload.blockHash,safeRef.hash,finalizedRef.hash⟩)
  else return (e,.ok ⟨payload.blockHash,safe.hash,finalized.hash⟩)

def concludeInsertion (ref : L2BlockRef) (fc : ForkchoiceState) (status : ExecutePayloadStatus) :
    Except Panic EngineController :=
  let e := ({ e with unsafeHead := ref, lastForkchoice := fc }).emit (.unsafeUpdate ref)
  let e := if e.syncStatus = .finishedELButNotFinalized then { e with syncStatus := .finishedEL }
    else e
  if status = .valid then e.requestForkchoiceUpdate engine else .ok e

def commitForkchoice (payload : ExecutionPayload) (ref : L2BlockRef) (fc : ForkchoiceState) :
    Except Panic (EngineController × Option EngineError) := do
  e.logSyncProgressMaybe engine
  match forkchoiceError (engine.forkchoiceUpdate fc) with
  | .error err => return (e,some err)
  | .ok status =>
    let (e,acceptable) := e.checkForkchoiceUpdatedStatus status
    if !acceptable then return (e,some (.forkchoiceStatus payload.id status))
    let e ← e.concludeInsertion engine ref fc status
    return (e,none)

def updateForkchoice (payload : ExecutionPayload) (ref : L2BlockRef) :
    Except Panic (EngineController × Option EngineError) := do
  match ← e.prepareForkchoice engine payload ref with
  | (e,.error err) => return (e,some err)
  | (e,.ok fc) => e.commitForkchoice engine payload ref fc

def sendPayload (payload : ExecutionPayload) : EngineController × Option EngineError :=
  match engine.newPayload payload with
  | none => (e,some .newPayloadFailed)
  | some status =>
    let e := if status = .invalid then e.emit (.payloadInvalid payload status) else e
    let (e,acceptable) := e.checkNewPayloadStatus status
    if !acceptable then (e,some (.payloadStatus payload.id status)) else (e,none)

def insertUnsafePayload (payload : ExecutionPayload) (ref : L2BlockRef) :
    Except Panic (EngineController × Option EngineError) :=
  match e.tryStartELSync engine with
  | .inr result => .ok result
  | .inl e =>
    match e.sendPayload engine payload with
    | (e,some err) => .ok (e,some err)
    | (e,none) => e.updateForkchoice engine payload ref

def tryUpdateLocalSafe (ref : L2BlockRef) (concluding : Bool) (source : L1BlockRef) :
    Except Panic EngineController := do
  if concluding && e.localSafeHead.number < ref.number then
    -- The safe head is read for the log.
    let _ ← e.safeL2Head engine
    return ({ e with localSafeHead := ref }).emit (.localSafeUpdate ref source)
  else return e

def tryUpdateUnsafe (ref : L2BlockRef) : EngineController :=
  let e := if ref.number ≤ e.unsafeHead.number then e.setBackupUnsafeL2Head e.unsafeHead false
    else e
  ({ e with unsafeHead := ref }).emit (.unsafeUpdate ref)

def promoteSafe (ref : L2BlockRef) (source : L1BlockRef) : Except Panic EngineController := do
  let e := ({ e with deprecatedSafeHead := ref }).emit (.safeDerived ref source)
  let _ ← e.safeL2Head engine
  if e.crossUnsafeHead.number < ref.number then return { e with crossUnsafeHead := ref }
  else return e

def promoteFinalized (ref : L2BlockRef) : Except Panic EngineController := do
  let finalized ← e.finalizedHead engine
  if ref.number < finalized.number then return e
  let safe ← e.safeL2Head engine
  if safe.number < ref.number then return e
  ((e.setFinalizedHead ref).emit (.finalizedUpdate ref)).tryUpdateEngine engine

structure L1BlockInfo where
  l1Origin : BlockID
  sequenceNumber : UInt64

/-- The reference of a payload; `l1Info` decodes the deposit transaction with the L1 info. -/
def payloadToBlockRef (cfg : Config) (l1Info : UInt64 → Bytes → Option L1BlockInfo)
    (payload : ExecutionPayload) : Option L2BlockRef :=
  if payload.blockNumber = cfg.genesis.l2.number then
    if payload.blockHash ≠ cfg.genesis.l2.hash then none
    else some ⟨payload.blockHash,payload.blockNumber,payload.parentHash,payload.timestamp,
      cfg.genesis.l1,0⟩
  else
    match payload.transactions.head? with
    | none => none
    | some tx =>
      match l1Info payload.timestamp tx with
      | none => none
      | some info => some ⟨payload.blockHash,payload.blockNumber,payload.parentHash,
          payload.timestamp,info.l1Origin,info.sequenceNumber⟩

def followExternalRefs (eSafeBlockRef eLocalSafeRef eFinalizedRef : L2BlockRef)
    (updateUnsafe : Bool) : Except Panic EngineController := do
  let e := if updateUnsafe then e.tryUpdateUnsafe eLocalSafeRef else e
  let e ← e.tryUpdateLocalSafe engine eLocalSafeRef true .zero
  let e ← (if e.deprecatedSafeHead.number < eSafeBlockRef.number then
      e.promoteSafe engine eSafeBlockRef .zero
    else pure e)
  let finalized ← e.finalizedHead engine
  if finalized.number ≤ eFinalizedRef.number then e.promoteFinalized engine eFinalizedRef
  else return e

def followSource (eSafeBlockRef eLocalSafeRef eFinalizedRef : L2BlockRef) :
    Except Panic EngineController := do
  -- The safe head is read for the log.
  let _ ← e.safeL2Head engine
  if e.unsafeHead.number < eLocalSafeRef.number then
    e.followExternalRefs engine eSafeBlockRef eLocalSafeRef eFinalizedRef true
  else
    match engine.l2BlockRefByNumber eLocalSafeRef.number with
    | .notFound => e.followExternalRefs engine eSafeBlockRef eLocalSafeRef eFinalizedRef false
    | .failed => return e
    | .found fetchedSafe =>
      if fetchedSafe = eLocalSafeRef then
        e.followExternalRefs engine eSafeBlockRef eLocalSafeRef eFinalizedRef false
      else e.followExternalRefs engine eSafeBlockRef eLocalSafeRef eFinalizedRef true

end EngineController

end OpStack.Engine
