import OpStack.Lib.Outcome
import OpStack.Rollup.Config

namespace OpStack.Supernode
open Lib Eth

/-! The execution engine as the controller sees it. -/

/-- An execution payload. The origin and sequence number are those that its first transaction
states, and `body` is whatever else its hash covers. -/
structure Payload where
  number : UInt64
  parentHash : Hash
  time : UInt64
  l1Origin : BlockID
  sequenceNumber : UInt64
  extraData : Bytes
  body : Bytes
  deriving DecidableEq

structure Engine where
  known : Hash → Option Payload
  unsafeHead : Hash
  safeHead : Hash
  finalizedHead : Hash

def Payload.ref (hashOf : Payload → Hash) (p : Payload) : L2BlockRef :=
  ⟨hashOf p,p.number,p.parentHash,p.time,p.l1Origin,p.sequenceNumber⟩

namespace Engine
variable (hashOf : Payload → Hash) (e : Engine)

def ancestorAt (number : UInt64) : Nat → Payload → Option Payload
  | 0,p => if p.number = number then some p else none
  | fuel+1,p =>
    if p.number = number then some p
    else (e.known p.parentHash).bind (ancestorAt number fuel)

def payloadByNumber (number : UInt64) : Option Payload :=
  (e.known e.unsafeHead).bind fun head => e.ancestorAt number head.number.toNat head

def l2BlockRefByNumber (number : UInt64) : Option L2BlockRef :=
  (e.payloadByNumber number).map (Payload.ref hashOf)

def l2BlockRefByHash (h : Hash) : Option L2BlockRef := (e.known h).map (Payload.ref hashOf)

def newPayload (p : Payload) : Engine :=
  { e with known := fun h => if h = hashOf p then (e.known h).or (some p) else e.known h }

def forkchoiceUpdated (head safe finalized : Hash) : Option Engine :=
  if (e.known head).isSome ∧ (e.known safe).isSome ∧ (e.known finalized).isSome then
    some { e with unsafeHead := head, safeHead := safe, finalizedHead := finalized }
  else none

end Engine

/-! A request to the engine may fail, without effect. -/

inductive Failure where
  | deadlineExceeded
  | other
  deriving DecidableEq

def answer {α : Type} (failure : Option Failure) (x : Option α) : Except Failure α :=
  match failure with
  | some f => .error f
  | none => orFail .other x

structure FcuTry where
  update : Option Failure
  unsafeRead : Option Failure
  safeRead : Option Failure
  finalizedRead : Option Failure
  wait : Option Failure

structure RewindCalls where
  targetBlock : Option Failure
  payload : Option Failure
  insert : Option Failure
  safeLabel : Option Failure
  finalizedLabel : Option Failure
  synthetic : Nat → FcuTry
  target : Nat → FcuTry

inductive FcuError where
  | rejected (f : Failure)
  | headMismatch (f : Failure)
  | interrupted (f : Failure)

def FcuError.failure : FcuError → Failure
  | .rejected f => f
  | .headMismatch f => f
  | .interrupted f => f

inductive RewindError where
  | noRollupConfig
  | timestampToBlockConversion (e : Rollup.TargetError)
  | targetBlockNotFound (f : Failure)
  | payloadNotFound (f : Failure)
  | insertSyntheticFailed (f : Failure)
  | computeTargetsFailed (f : Failure)
  | overFinalizedHead
  | fcuSyntheticFailed (e : FcuError)
  | fcuTargetFailed (e : FcuError)

def RewindError.deadlineExceeded : RewindError → Bool
  | .noRollupConfig => false
  | .timestampToBlockConversion _ => false
  | .targetBlockNotFound f => f = .deadlineExceeded
  | .payloadNotFound f => f = .deadlineExceeded
  | .insertSyntheticFailed f => f = .deadlineExceeded
  | .computeTargetsFailed f => f = .deadlineExceeded
  | .overFinalizedHead => false
  | .fcuSyntheticFailed e => e.failure = .deadlineExceeded
  | .fcuTargetFailed e => e.failure = .deadlineExceeded

/-- `isCriticalRewindError`. -/
def RewindError.critical : RewindError → Bool
  | .noRollupConfig => true
  | .timestampToBlockConversion _ => true
  | .computeTargetsFailed _ => true
  | .overFinalizedHead => true
  | _ => false

def maxFCUAttempts : Nat := 20

def earliest (a b : L2BlockRef) : L2BlockRef := if a.number < b.number then a else b

/-- Another extra data, which changes the hash of a block and nothing that its execution sees. -/
def flipExtra (extra : Bytes) : Bytes :=
  match extra.getLast? with
  | none => [0]
  | some b => extra.dropLast ++ [b ^^^ 0xff]

def Payload.synthetic (p : Payload) : Payload := { p with extraData := flipExtra p.extraData }

variable (hashOf : Payload → Hash)

def verifyLabel (failure : Option Failure) (label : Option L2BlockRef) (target : Hash) :
    Except Failure Unit :=
  match answer failure label with
  | .error f => .error f
  | .ok ref => if ref.hash = target then .ok () else .error .other

def verifyRewindState (e : Engine) (t : FcuTry) (head safe finalized : Hash) :
    Except Failure Unit := do
  verifyLabel t.unsafeRead (e.l2BlockRefByHash hashOf e.unsafeHead) head
  verifyLabel t.safeRead (e.l2BlockRefByHash hashOf e.safeHead) safe
  verifyLabel t.finalizedRead (e.l2BlockRefByHash hashOf e.finalizedHead) finalized

def forkchoiceUpdateWithRetry (tries : Nat → FcuTry) (head safe finalized : Hash) :
    Nat → Nat → Engine → Engine × Except FcuError Unit
  | 0,_,e => (e,.ok ())
  | left+1,i,e =>
    match answer (tries i).update (e.forkchoiceUpdated head safe finalized) with
    | .error f => (e,.error (.rejected f))
    | .ok e =>
      match verifyRewindState hashOf e (tries i) head safe finalized with
      | .ok () => (e,.ok ())
      | .error f =>
        if left = 0 then (e,.error (.headMismatch f))
        else
          match (tries i).wait with
          | some f => (e,.error (.interrupted f))
          | none => forkchoiceUpdateWithRetry tries head safe finalized left (i + 1) e

def insertSyntheticPayload (e : Engine) (calls : RewindCalls) (number : UInt64) :
    Except RewindError (Engine × Hash) := do
  let payload ← (answer calls.payload (e.payloadByNumber number)).mapError .payloadNotFound
  let newPayload := payload.synthetic
  match calls.insert with
  | some f => throw (.insertSyntheticFailed f)
  | none => pure (e.newPayload hashOf newPayload,hashOf newPayload)

def computeRewindTargets (e : Engine) (calls : RewindCalls) (target : L2BlockRef) :
    Except RewindError (L2BlockRef × L2BlockRef) := do
  let currentSafe ← (answer calls.safeLabel
    (e.l2BlockRefByHash hashOf e.safeHead)).mapError .computeTargetsFailed
  let currentFinalized ← (answer calls.finalizedLabel
    (e.l2BlockRefByHash hashOf e.finalizedHead)).mapError .computeTargetsFailed
  if target.number < currentFinalized.number then throw .overFinalizedHead
  pure (earliest currentSafe target,earliest currentFinalized target)

def blockAtTimestamp (rollup : Option Rollup.Config) (e : Engine) (calls : RewindCalls)
    (timestamp : UInt64) : Except RewindError L2BlockRef := do
  let cfg ← orFail .noRollupConfig rollup
  let number ← (cfg.targetBlockNumber timestamp).mapError .timestampToBlockConversion
  (answer calls.targetBlock (e.l2BlockRefByNumber hashOf number)).mapError .targetBlockNotFound

def rewindToTimestamp (rollup : Option Rollup.Config) (timestamp : UInt64) (calls : RewindCalls)
    (e : Engine) : Engine × Except RewindError Unit :=
  match blockAtTimestamp hashOf rollup e calls timestamp with
  | .error err => (e,.error err)
  | .ok target =>
    match insertSyntheticPayload hashOf e calls target.number with
    | .error err => (e,.error err)
    | .ok (e,syntheticHash) =>
      match computeRewindTargets hashOf e calls target with
      | .error err => (e,.error err)
      | .ok (safe,finalized) =>
        match forkchoiceUpdateWithRetry hashOf calls.synthetic syntheticHash target.parentHash
            target.parentHash maxFCUAttempts 0 e with
        | (e,.error err) => (e,.error (.fcuSyntheticFailed err))
        | (e,.ok ()) =>
          match forkchoiceUpdateWithRetry hashOf calls.target target.hash safe.hash finalized.hash
              maxFCUAttempts 0 e with
          | (e,.error err) => (e,.error (.fcuTargetFailed err))
          | (e,.ok ()) => (e,.ok ())

structure DenyRecord where
  payloadHash : Hash
  decisionTimestamp : UInt64
  stateRoot : Hash
  messagePasserStorageRoot : Hash

abbrev DenyList := UInt64 → List DenyRecord

def DenyList.add (d : DenyList) (height : UInt64) (record : DenyRecord) : DenyList :=
  if (d height).any (fun r => r.payloadHash = record.payloadHash) then d
  else Function.update d height (d height ++ [record])

/-- The container of a chain, as far as rewinds and invalidations go. Its parts may be missing: the
virtual node, the engine, the deny list and the config. -/
structure InteropChain where
  vn : Bool
  engine : Option Engine
  rollup : Option Rollup.Config
  denyList : Option DenyList
  pause : Bool
  resetting : Bool

inductive ChainError where
  | resetInProgress
  | noVirtualNode
  | noEngine
  | stopFailed
  | rewind (e : RewindError)
  | contextDone
  | noDenyList
  | invalidateGenesis
  | denyListFailed
  | noRollupConfig
  | beforeGenesis (number : UInt64)

structure RewindAttempt where
  calls : RewindCalls
  interrupted : Bool

structure RewindScript where
  stopFails : Bool
  attempts : List RewindAttempt

/-- The retries of `RewindEngine`. There is no result while they go on. -/
def retryRewind (rollup : Option Rollup.Config) (timestamp : UInt64) :
    List RewindAttempt → Engine → Option (Engine × Except ChainError Unit)
  | [],_ => none
  | a::rest,e =>
    match rewindToTimestamp hashOf rollup timestamp a.calls e with
    | (e,.ok ()) => some (e,.ok ())
    | (e,.error err) =>
      if err.deadlineExceeded then some (e,.error (.rewind err))
      else if err.critical then some (e,.error (.rewind err))
      else if a.interrupted then some (e,.error .contextDone)
      else retryRewind rollup timestamp rest e

namespace InteropChain

def rewindEngine (c : InteropChain) (timestamp : UInt64) (script : RewindScript) :
    Option (InteropChain × Except ChainError Unit) :=
  if c.resetting then some (c,.error .resetInProgress)
  else if !c.vn then some (c,.error .noVirtualNode)
  else
    match c.engine with
    | none => some (c,.error .noEngine)
    | some e =>
      -- from here on every return resumes the container
      if script.stopFails then some ({ c with pause := false },.error .stopFailed)
      else
        (retryRewind hashOf c.rollup timestamp script.attempts e).map fun (e,result) =>
          ({ c with engine := some e, pause := false },result)

/-- The virtual node is stopped too, and an error of that is only logged. -/
def pauseAndStopVN (c : InteropChain) : InteropChain := { c with pause := true }

def resume (c : InteropChain) : InteropChain := { c with pause := false }

def blockNumberToTimestamp (c : InteropChain) (number : UInt64) : Except ChainError UInt64 := do
  let cfg ← orFail .noRollupConfig c.rollup
  if number < cfg.genesis.l2.number then throw (.beforeGenesis number)
  pure (cfg.timestampForBlock number)

structure InvalidateScript where
  addFails : Bool
  currentBlock : Option Failure
  rewind : RewindScript

def invalidateBlock (c : InteropChain) (height : UInt64) (record : DenyRecord)
    (script : InvalidateScript) : Option (InteropChain × Except ChainError Bool) :=
  match c.denyList with
  | none => some (c,.error .noDenyList)
  | some denyList =>
    if height = 0 then some (c,.error .invalidateGenesis)
    else if script.addFails then some (c,.error .denyListFailed)
    else
      let c := { c with denyList := some (denyList.add height record) }
      match c.engine with
      | none => some (c,.ok false)
      | some e =>
        match answer script.currentBlock (e.l2BlockRefByNumber hashOf height) with
        | .error _ => some (c,.ok false)
        | .ok currentBlock =>
          if currentBlock.hash ≠ record.payloadHash then some (c,.ok false)
          else
            match c.blockNumberToTimestamp (height - 1) with
            | .error err => some (c,.error err)
            | .ok priorTimestamp =>
              (c.rewindEngine hashOf priorTimestamp script.rewind).map fun
                | (c,.error err) => (c,.error err)
                | (c,.ok ()) => (c,.ok true)

end InteropChain

end OpStack.Supernode
