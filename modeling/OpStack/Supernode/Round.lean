import OpStack.Supernode.VerifiedAt
import OpStack.Lib.Lists
import OpStack.Supernode.Rewind

namespace OpStack.Supernode
open Lib Eth

structure InvalidHead where
  blockID : BlockID
  stateRoot : Hash
  messagePasserStorageRoot : Hash

structure Result where
  timestamp : UInt64
  l1Inclusion : BlockID
  l2Heads : ChainID → Option BlockID
  invalidHeads : List (ChainID × InvalidHead)
  chains_nodup : (invalidHeads.map Prod.fst).Nodup

namespace Result

def setHead (r : Result) (chainID : ChainID) (block : BlockID) : Result :=
  { r with l2Heads := Function.update r.l2Heads chainID (some block) }

def setInvalid (r : Result) (chainID : ChainID) (head : InvalidHead) : Result :=
  { r with
    invalidHeads := assign r.invalidHeads chainID head
    chains_nodup := assign_nodup r.chains_nodup }

def isEmpty (r : Result) (chains : List ChainID) : Bool :=
  decide (r.l1Inclusion = BlockID.zero) && chains.all (fun c => (r.l2Heads c).isNone) &&
    r.invalidHeads.isEmpty

end Result

structure PendingInvalidation where
  chainID : ChainID
  blockID : BlockID
  timestamp : UInt64
  stateRoot : Hash
  messagePasserStorageRoot : Hash

def PendingInvalidation.record (p : PendingInvalidation) : DenyRecord :=
  ⟨p.blockID.hash,p.timestamp,p.stateRoot,p.messagePasserStorageRoot⟩

def Result.invalidations (r : Result) : List PendingInvalidation :=
  (r.invalidHeads.map fun (chainID,head) =>
    ⟨chainID,head.blockID,r.timestamp,head.stateRoot,head.messagePasserStorageRoot⟩).mergeSort
      fun a b => a.chainID.toNat ≤ b.chainID.toNat

abbrev Chains := ChainID → Option InteropChain

inductive TransitionError where
  | chainNotFound (chainID : ChainID)
  | chain (e : ChainError)
  | invalidationsFailed
  | clearFailed

variable (hashOf : Payload → Hash) (scripts : ChainID → InteropChain.InvalidateScript)

def invalidateBlock (chains : Chains) (p : PendingInvalidation) :
    Option (Chains × Except TransitionError Bool) :=
  match chains p.chainID with
  | none => some (chains,.error (.chainNotFound p.chainID))
  | some c =>
    (c.invalidateBlock hashOf p.blockID.number p.record (scripts p.chainID)).map fun (c,result) =>
      (Function.update chains p.chainID (some c),result.mapError .chain)

def invalidateBlocks : List PendingInvalidation → Chains → Option (Chains × Bool)
  | [],chains => some (chains,false)
  | p::rest,chains =>
    (invalidateBlock hashOf scripts chains p).bind fun (chains,result) =>
      (invalidateBlocks rest chains).map fun (chains,failedAny) =>
        (chains,!result.isOk || failedAny)

def Chains.pauseAndStopVNs (chains : Chains) : Chains := fun chainID =>
  (chains chainID).map InteropChain.pauseAndStopVN

def Chains.resumeOthers (chains : Chains) (r : Result) : Chains := fun chainID =>
  (chains chainID).map fun c => if chainID ∈ r.invalidHeads.map Prod.fst then c else c.resume

/-- `applyPendingTransition` for a decision to invalidate. Without an error the transition is
cleared. -/
def applyInvalidation (chains : Chains) (result : Option Result) (clearFails : Bool) :
    Option (Chains × Except TransitionError Unit) :=
  match result with
  | none => some (chains,if clearFails then .error .clearFailed else .ok ())
  | some r =>
    (invalidateBlocks hashOf scripts r.invalidations chains.pauseAndStopVNs).map
      fun (chains,failedAny) =>
        (chains.resumeOthers r,
          if failedAny then .error .invalidationsFailed
          else if clearFails then .error .clearFailed
          else .ok ())

inductive RoundError where
  | chainsNotReady
  | l1Consistency
  | l1InclusionFailed (chainID : ChainID)
  | verificationFailed (chainID : ChainID)

inductive Decision where
  | wait
  | advance
  | invalidate
  | rewind
  deriving DecidableEq

/-- What one round meets. Every query is made at a time of its own, so they may be answered by
different states of the world; the maps are ranged over in any order. What the checks make of the
messages of a block is left open. -/
structure RoundScript where
  pauseAtTimestamp : UInt64
  arrival : List ChainID
  readyAt : ChainID → Fetched (BlockID × BlockID)
  headOrder : List ChainID
  canonical : Nat → Option L1BlockRef
  inclusionOrder : List ChainID
  inclusionAt : ChainID → Fetched (BlockID × BlockID)
  verifyOrder : List ChainID
  invalidHead : ChainID → BlockID → Except RoundError (Option InvalidHead)

structure RoundObservation where
  lastVerified : Option VerifiedResult
  nextTimestamp : UInt64
  chainsReady : Bool
  blocksAtTS : List (ChainID × BlockID)
  l1Heads : List (ChainID × BlockID)
  l1Consistent : Bool
  paused : Bool

structure StepOutput where
  decision : Decision
  result : Option Result

section
variable (s : RoundScript)

/-- The answers of all chains, in the order in which they come, unless one is an error. The first
error tells whether its block was not found. -/
def checkChainsReady : List ChainID → Except Bool (List (ChainID × BlockID × BlockID))
  | [] => .ok []
  | c::rest =>
    match s.readyAt c,checkChainsReady rest with
    | .found b,.ok answers => .ok ((c,b)::answers)
    | .found _,.error e => .error e
    | .notFound,_ => .error true
    | .failed,_ => .error false

def sameL1Chain : Nat → List BlockID → Except RoundError Bool
  | _,[] => .ok true
  | k,head::rest =>
    if head = .zero then sameL1Chain k rest
    else
      match s.canonical k with
      | none => .error .l1Consistency
      | some canonical =>
        if canonical.hash ≠ head.hash then .ok false else sameL1Chain (k + 1) rest

def headsToCheck (lastVerified : Option VerifiedResult) (l1Heads : List (ChainID × BlockID)) :
    List BlockID :=
  (lastVerified.map VerifiedResult.l1Inclusion).toList ++
    s.headOrder.filterMap fun c => l1Heads.lookup c

def observeRound (db : VerifiedDB) (firstVerifiable : UInt64) :
    Except RoundError RoundObservation :=
  let next := (db.lastTimestamp.map (· + 1)).getD firstVerifiable
  let obs : RoundObservation := ⟨db.getLast?,next,false,[],[],false,false⟩
  if s.pauseAtTimestamp ≠ 0 ∧ s.pauseAtTimestamp ≤ next then .ok { obs with paused := true }
  else
    match checkChainsReady s s.arrival with
    | .error true => .ok obs
    | .error false => .error .chainsNotReady
    | .ok answers => do
      let l1Heads := answers.map fun a => (a.1,a.2.2)
      let same ← sameL1Chain s 0 (headsToCheck s obs.lastVerified l1Heads)
      pure
        { obs with
          chainsReady := true
          blocksAtTS := answers.map fun a => (a.1,a.2.1)
          l1Heads := l1Heads
          l1Consistent := same }

/-- The latest L1 block of a second set of answers, and the last of them where several are as
high. -/
def l1Inclusion : List ChainID → BlockID → Except RoundError BlockID
  | [],l1Inclusion => .ok l1Inclusion
  | c::rest,current =>
    match s.inclusionAt c with
    | .found (_,l1Block) =>
      l1Inclusion rest (if current.number ≤ l1Block.number then l1Block else current)
    | _ => .error (.l1InclusionFailed c)

def verifyChains (blocksAtTS : List (ChainID × BlockID)) :
    List ChainID → Result → Except RoundError Result
  | [],r => .ok r
  | c::rest,r =>
    match blocksAtTS.lookup c with
    | none => verifyChains blocksAtTS rest r
    | some block => do
      match ← s.invalidHead c block with
      | none => verifyChains blocksAtTS rest (r.setHead c block)
      | some invalid => verifyChains blocksAtTS rest ((r.setHead c block).setInvalid c invalid)

def verify (ts : UInt64) (blocksAtTS : List (ChainID × BlockID)) : Except RoundError Result := do
  let inclusion ← l1Inclusion s s.inclusionOrder .zero
  verifyChains s blocksAtTS s.verifyOrder ⟨ts,inclusion,fun _ => none,[],List.nodup_nil⟩

def checkPreconditions (obs : RoundObservation) : Option StepOutput :=
  if obs.paused then some ⟨.wait,none⟩
  else if !obs.chainsReady then some ⟨.wait,none⟩
  else if !obs.l1Consistent then some ⟨.rewind,none⟩
  else none

def decideVerifiedResult (chains : List ChainID) (verified : Result) : StepOutput :=
  if verified.isEmpty chains then ⟨.wait,none⟩
  else if !verified.invalidHeads.isEmpty then ⟨.invalidate,some verified⟩
  else ⟨.advance,some verified⟩

def progressInterop (chains : List ChainID) (db : VerifiedDB) (firstVerifiable : UInt64) :
    Except RoundError (StepOutput × RoundObservation) := do
  let obs ← observeRound s db firstVerifiable
  match checkPreconditions obs with
  | some early => pure (early,obs)
  | none => do
    let result ← verify s obs.nextTimestamp obs.blocksAtTS
    pure (decideVerifiedResult chains result,obs)

end

def Result.toVerifiedResult (r : Result) (chains : List ChainID) : VerifiedResult :=
  ⟨r.timestamp,r.l1Inclusion,chains.filterMap fun c => (r.l2Heads c).map fun b => (c,b)⟩

def Commits (s : RoundScript) (chains : List ChainID) (db : VerifiedDB) (firstVerifiable : UInt64)
    (v : VerifiedResult) (db' : VerifiedDB) : Prop :=
  ∃ obs r, progressInterop s chains db firstVerifiable = .ok (⟨.advance,some r⟩,obs) ∧
    v = r.toVerifiedResult chains ∧ db.commit v = .ok db'

end OpStack.Supernode
