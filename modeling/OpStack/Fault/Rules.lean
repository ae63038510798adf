import OpStack.Fault.Solver

namespace OpStack.Fault
open Eth Lib

inductive RuleError where
  | parentDoesNotExist (contractIndex count : Nat)
  | parentAtMaxDepth (depth : UInt64)
  | parentNotAtMaxDepth (depth maxDepth : UInt64)
  | duplicateClaim (gIndex : Nat) (value : Hash)
  | alreadyCountered (contractIndex : Nat)
  | defendingRoot (contractIndex : Nat)
  | noParent (contractIndex : Nat)
  | prestatePoisoned (contractIndex parentContractIndex traceIndex : Nat)
  | noPoststate (index contractIndex : Nat)
  | failedStep (contractIndex poststate : Nat) (validStep parentPostAgree : Bool)
  | noPrestate (contractIndex : Nat) (index : Nat)
  | steppingFromPoisoned (contractIndex parentContractIndex : Nat)
  | leafWithPoisoned (contractIndex parentContractIndex : Nat)
  | prestateMismatch (contractIndex : Nat)
  | counteringSelf (contractIndex : Nat)
  deriving DecidableEq

abbrev Verdict := Except Panic (Option RuleError)

namespace Rules
variable (game : GameState) (action : Action)

def parentOf : Except Panic Claim :=
  match game.claims[action.parentClaim.contractIndex]? with
  | some claim => .ok claim
  | none => .error .parentMissing

def isStep : Bool :=
  match action.type with
  | .step _ => true
  | _ => false

def isMove : Bool := action.type = .move

def resultingPosition : Except Panic Position := do
  let parent ← parentOf game action
  if isStep action then return parent.position
  else if action.isAttack then return parent.position.attack
  else return parent.position.defend

def parentMustExist : Verdict :=
  if game.claims.length ≤ action.parentClaim.contractIndex then
    .ok (some (.parentDoesNotExist action.parentClaim.contractIndex game.claims.length))
  else .ok none

def onlyStepAtMaxDepth : Verdict := do
  if isStep action then return none
  else
    let parent ← parentOf game action
    if game.depth ≤ parent.position.depth then
      return some (.parentAtMaxDepth parent.position.depth)
    else return none

def onlyMoveBeforeMaxDepth : Verdict := do
  if isMove action then return none
  else
    let parent ← parentOf game action
    if parent.position.depth < game.depth then
      return some (.parentNotAtMaxDepth parent.position.depth game.depth)
    else return none

def doNotDuplicateExistingMoves : Verdict := do
  let position ← resultingPosition game action
  if ← game.isDuplicate ⟨action.value,position,Address.zero,Address.zero,0,
      action.parentClaim.contractIndex⟩ then
    return some (.duplicateClaim position.toGIndex action.value)
  else return none

/-- Made for steps, but the check is made of moves as well. -/
def doNotStepAlreadyCounteredClaims : Verdict := do
  let claim ← parentOf game action
  if claim.counteredBy ≠ Address.zero then return some (.alreadyCountered claim.contractIndex)
  else return none

def doNotDefendRootClaim : Verdict := do
  let claim ← parentOf game action
  if claim.position.isRootPosition && !action.isAttack then
    return some (.defendingRoot action.parentClaim.contractIndex)
  else return none

def doNotCounterSelf (challenger : Address) : Verdict := do
  let claim ← parentOf game action
  if claim.claimant = challenger then
    return some (.counteringSelf action.parentClaim.contractIndex)
  else return none

def nextPrestate (honestTraceIndex : Nat) (best claim : Claim) : Except Panic Claim := do
  let ti ← claim.position.traceIndex game.depth
  if ti < honestTraceIndex then
    if best = .zero then return claim
    else
      let bestIdx ← best.position.traceIndex game.depth
      if bestIdx < ti then return claim else return best
  else return best

def findPrestate (honestTraceIndex : Nat) :
    Nat → Claim → Claim → Except Panic (Except RuleError Claim)
  | 0,_,_ => .error .endlessAncestors
  | fuel+1,best,claim => do
    let best ← nextPrestate game honestTraceIndex best claim
    if claim.isRoot then return .ok best
    else
      match game.getParent claim with
      | none => return .error (.noParent claim.contractIndex)
      | some parent => findPrestate honestTraceIndex fuel best parent

def avoidPoisonedPrestate (correctTrace : Position → Hash) : Verdict := do
  if isStep action then return none
  else
    let movePosition ← resultingPosition game action
    let honestTraceIndex ← movePosition.traceIndex game.depth
    let claim ← parentOf game action
    match ← findPrestate game honestTraceIndex (game.claims.length + 1) .zero claim with
    | .error err => return some err
    | .ok preStateClaim =>
      if preStateClaim = .zero then return none
      else if correctTrace preStateClaim.position ≠ preStateClaim.value then
        return some (.prestatePoisoned preStateClaim.contractIndex
          action.parentClaim.contractIndex honestTraceIndex)
      else return none

def detectFailedStep (correctTrace : Position → Hash) : Verdict := do
  if !isStep action then return none
  else
    let position ← resultingPosition game action
    if position.depth ≠ game.depth then return none
    else
      let honestTraceIndex ← position.traceIndex game.depth
      let poststateIndex := if action.isAttack then honestTraceIndex else honestTraceIndex + 1
      let claim ← parentOf game action
      match ← game.ancestorWithTraceIndex poststateIndex (game.claims.length + 1) claim with
      | none => return some (.noPoststate poststateIndex action.parentClaim.contractIndex)
      | some poststateClaim =>
        let validStep : Bool := correctTrace poststateClaim.position = poststateClaim.value
        let parentPostAgree : Bool :=
          (claim.position.depth - poststateClaim.position.depth) % 2 = 0
        if parentPostAgree = validStep then
          return some (.failedStep action.parentClaim.contractIndex poststateClaim.contractIndex
            validStep parentPostAgree)
        else return none

def checkPrestate (keccak256 : Bytes → Hash) (correctTrace : Position → Hash)
    (preStateClaim : Claim) : Option RuleError :=
  if correctTrace preStateClaim.position ≠ preStateClaim.value then
    if isStep action then
      some (.steppingFromPoisoned preStateClaim.contractIndex action.parentClaim.contractIndex)
    else some (.leafWithPoisoned preStateClaim.contractIndex action.parentClaim.contractIndex)
  else
    match action.type with
    | .step proof =>
      -- The first byte of a claim is the status of the machine.
      if (keccak256 proof.preState).bytes.tail ≠ preStateClaim.value.bytes.tail then
        some (.prestateMismatch preStateClaim.contractIndex)
      else none
    | _ => none

def detectPoisonedStepPrestate (keccak256 : Bytes → Hash) (correctTrace : Position → Hash) :
    Verdict := do
  let position ← resultingPosition game action
  if position.depth ≠ game.depth then return none
  else
    let honestTraceIndex ← position.traceIndex game.depth
    -- A new leaf will be attacked from the state before it.
    let before : Bool := action.isAttack || isMove action
    if before && honestTraceIndex = 0 then return none
    else
      let prestateIndex := if before then honestTraceIndex - 1 else honestTraceIndex
      let claim ← parentOf game action
      match ← game.ancestorWithTraceIndex prestateIndex (game.claims.length + 1) claim with
      | none => return some (.noPrestate claim.contractIndex prestateIndex)
      | some preStateClaim => return checkPrestate action keccak256 correctTrace preStateClaim

def rules (keccak256 : Bytes → Hash) (correctTrace : Position → Hash) (challenger : Address) :
    List Verdict :=
  [parentMustExist game action,
    onlyStepAtMaxDepth game action,
    onlyMoveBeforeMaxDepth game action,
    doNotDuplicateExistingMoves game action,
    doNotStepAlreadyCounteredClaims game action,
    doNotDefendRootClaim game action,
    avoidPoisonedPrestate game action correctTrace,
    detectPoisonedStepPrestate game action keccak256 correctTrace,
    detectFailedStep game action correctTrace,
    doNotCounterSelf game action challenger]

def checkRules (keccak256 : Bytes → Hash) (correctTrace : Position → Hash)
    (challenger : Address) : Except Panic (List RuleError) := do
  let verdicts ← (rules game action keccak256 correctTrace challenger).mapM id
  return verdicts.filterMap id

end Rules

end OpStack.Fault
