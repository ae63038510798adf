import OpStack.Fault.Game

namespace OpStack.Fault
open Eth Lib

inductive SolverError where
  | traceGet
  | stepData
  | l2BlockValidity
  | noParent (contractIndex : Nat)
  | gameDepthReached
  | stepNonLeafNode
  deriving DecidableEq

inductive Failure where
  | panic (p : Panic)
  | err (e : SolverError)
  deriving DecidableEq

/-- A panic inside a call that may also return an error. -/
def orPanic {α : Type} : Except Panic α → Except Failure α
  | .ok a => .ok a
  | .error p => .error (.panic p)

def orError {α : Type} (e : SolverError) : Option α → Except Failure α
  | some a => .ok a
  | none => .error (.err e)

structure StepProof where
  preState : Bytes
  proofData : Bytes
  deriving DecidableEq

inductive L2BlockNumberAnswer where
  | valid
  | failed
  | challenge (output : Hash)
  deriving DecidableEq

structure TraceAccessor where
  get : GameState → Claim → Position → Option Hash
  getStepData : GameState → Claim → Position → Option StepProof
  getL2BlockNumberChallenge : GameState → L2BlockNumberAnswer

structure HonestClaimTracker where
  agreed : ClaimID → Bool
  counters : ClaimID → Option Claim

namespace HonestClaimTracker

def new : HonestClaimTracker := ⟨fun _ => false,fun _ => none⟩

def addHonestClaim (a : HonestClaimTracker) (parent claim : Claim) :
    Except Panic HonestClaimTracker := do
  let id ← claim.id
  let agreed := fun x => x = id || a.agreed x
  if parent ≠ .zero then
    let pid ← parent.id
    return ⟨agreed,fun x => if x = pid then some claim else a.counters x⟩
  else return ⟨agreed,a.counters⟩

def isHonest (a : HonestClaimTracker) (claim : Claim) : Except Panic Bool := do
  let id ← claim.id
  return a.agreed id

def honestCounter (a : HonestClaimTracker) (parent : Claim) : Except Panic (Option Claim) := do
  let id ← parent.id
  return a.counters id

end HonestClaimTracker

structure ClaimSolver where
  trace : TraceAccessor
  gameDepth : UInt64

structure StepData where
  leafClaim : Claim
  isAttack : Bool
  proof : StepProof
  deriving DecidableEq

namespace ClaimSolver
variable (s : ClaimSolver)

def shouldCounter (game : GameState) (claim : Claim) (honestClaims : HonestClaimTracker) :
    Except Failure Bool := do
  if ← orPanic (honestClaims.isHonest claim) then return false
  if claim.isRoot then return true
  let parent ← orError (.noParent claim.contractIndex) (game.getParent claim)
  if ← orPanic (honestClaims.isHonest parent) then return true
  match ← orPanic (honestClaims.honestCounter parent) with
  | none => return false
  | some counter =>
    let honestIdx ← orPanic (counter.position.traceIndex game.depth)
    let claimIdx ← orPanic (claim.position.traceIndex game.depth)
    return claimIdx ≤ honestIdx

def agreeWithClaim (game : GameState) (claim : Claim) : Except Failure Bool := do
  let ourValue ← orError .traceGet (s.trace.get game claim claim.position)
  return ourValue = claim.value

def respond (game : GameState) (claim : Claim) (position : Position) : Except Failure Claim := do
  let value ← orError .traceGet (s.trace.get game claim position)
  return ⟨value,position,Address.zero,Address.zero,0,claim.contractIndex⟩

def attack (game : GameState) (claim : Claim) : Except Failure (Option Claim) := do
  let move ← s.respond game claim claim.position.attack
  return some move

def defend (game : GameState) (claim : Claim) : Except Failure (Option Claim) := do
  if claim.isRoot then return none
  let move ← s.respond game claim claim.position.defend
  return some move

def nextMove (claim : Claim) (game : GameState) (honestClaims : HonestClaimTracker) :
    Except Failure (Option Claim) := do
  if claim.position.depth = s.gameDepth then throw (.err .gameDepthReached)
  if !(← shouldCounter game claim honestClaims) then return none
  if ← s.agreeWithClaim game claim then s.defend game claim else s.attack game claim

def attemptStep (game : GameState) (claim : Claim) (honestClaims : HonestClaimTracker) :
    Except Failure (Option StepData) := do
  if claim.position.depth ≠ s.gameDepth then throw (.err .stepNonLeafNode)
  if !(← shouldCounter game claim honestClaims) then return none
  let claimCorrect ← s.agreeWithClaim game claim
  let position := if claimCorrect then claim.position.moveRight else claim.position
  let proof ← orError .stepData (s.trace.getStepData game claim position)
  return some ⟨claim,!claimCorrect,proof⟩

end ClaimSolver

inductive ActionType where
  | move
  | step (proof : StepProof)
  | challengeL2BlockNumber (output : Hash)
  deriving DecidableEq

structure Action where
  type : ActionType
  parentClaim : Claim
  isAttack : Bool
  value : Hash
  deriving DecidableEq

namespace GameSolver
variable (s : ClaimSolver)

def calculateStep (game : GameState) (claim : Claim) (agreedClaims : HonestClaimTracker) :
    Except Failure (Option Action) := do
  if claim.counteredBy ≠ Address.zero then return none
  match ← s.attemptStep game claim agreedClaims with
  | none => return none
  | some step => return some ⟨.step step.proof,step.leafClaim,step.isAttack,.fill 32 0⟩

def calculateMove (game : GameState) (claim : Claim) (honestClaims : HonestClaimTracker) :
    Except Failure (HonestClaimTracker × Option Action) := do
  match ← s.nextMove claim game honestClaims with
  | none => return (honestClaims,none)
  | some move =>
    let honestClaims ← orPanic (honestClaims.addHonestClaim claim move)
    if ← orPanic (game.isDuplicate move) then return (honestClaims,none)
    match game.claims[move.parentContractIndex]? with
    | none => throw (.panic .parentMissing)
    | some parentClaim =>
      return (honestClaims,some ⟨.move,parentClaim,!game.defendsParent move,move.value⟩)

def respondTo (game : GameState) (claim : Claim) (honestClaims : HonestClaimTracker) :
    Except Failure (HonestClaimTracker × Option Action) :=
  if claim.position.depth = game.depth then do
    let action ← calculateStep s game claim honestClaims
    return (honestClaims,action)
  else calculateMove s game claim honestClaims

/-- The claims in the order of the contract. The actions found before an error are returned with
it. -/
def respondToAll (game : GameState) : List Claim → HonestClaimTracker → List Action →
    Except Panic (List Action × Option SolverError)
  | [],_,actions => .ok (actions,none)
  | claim::claims,honestClaims,actions =>
    match respondTo s game claim honestClaims with
    | .error (.panic p) => .error p
    | .error (.err e) => .ok (actions,some e)
    | .ok (honestClaims,action) => respondToAll game claims honestClaims (actions ++ action.toList)

def respondFrom (game : GameState) (root : Claim) (agreeWithRootClaim : Bool) :
    Except Panic (List Action × Option SolverError) := do
  let agreedClaims ← (if agreeWithRootClaim then
      HonestClaimTracker.new.addHonestClaim .zero root
    else pure HonestClaimTracker.new)
  respondToAll s game game.claims agreedClaims []

def calculateNextActions (game : GameState) : Except Panic (List Action × Option SolverError) :=
  match game.claims with
  | [] => .error .parentMissing
  | root::_ =>
    match s.agreeWithClaim game root with
    | .error (.panic p) => .error p
    | .error (.err e) => .ok ([],some e)
    | .ok false => respondFrom s game root false
    | .ok true =>
      match s.trace.getL2BlockNumberChallenge game with
      | .valid => respondFrom s game root true
      | .failed => .ok ([],some .l2BlockValidity)
      | .challenge output =>
        .ok ([⟨.challengeL2BlockNumber output,.zero,false,.fill 32 0⟩],none)

end GameSolver

def applyAction (claimant : Address) (claims : List Claim) (action : Action) : List Claim :=
  match action.type with
  | .move =>
    let position := if action.isAttack then action.parentClaim.position.attack
      else action.parentClaim.position.defend
    claims ++ [⟨action.value,position,Address.zero,claimant,claims.length,
      action.parentClaim.contractIndex⟩]
  | .step _ =>
    claims.modify action.parentClaim.contractIndex fun c => { c with counteredBy := claimant }
  | .challengeL2BlockNumber _ => claims

def applyActions (claims : List Claim) (claimant : Address) (actions : List Action) : List Claim :=
  actions.foldl (applyAction claimant) claims

end OpStack.Fault
