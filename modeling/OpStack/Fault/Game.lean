import OpStack.Eth.Types

namespace OpStack.Fault
open Eth

inductive Panic where
  | depthAboveMax
  | gIndexTooLong
  | parentMissing
  | endlessAncestors
  | divisionByZero
  deriving DecidableEq

inductive PositionError where
  | depthTooSmall
  deriving DecidableEq

/-- A position of the game tree. The root is at depth 0, and the depth is a machine word. -/
structure Position where
  depth : UInt64
  indexAtDepth : Nat
  deriving DecidableEq

namespace Position

def root : Position := ⟨0,0⟩

def moveRight (p : Position) : Position := ⟨p.depth,p.indexAtDepth + 1⟩

/-- The number of nodes is an `int`, of which the remainder takes the absolute value. -/
def relativeToAncestorAtDepth (p : Position) (ancestor : UInt64) :
    Except Panic (Except PositionError Position) :=
  if p.depth < ancestor then .ok (.error .depthTooSmall)
  else
    let newPosDepth := p.depth - ancestor
    let nodesAtDepth := (1#64 <<< newPosDepth.toNat).toInt
    if nodesAtDepth = 0 then .error .divisionByZero
    else .ok (.ok ⟨newPosDepth,(p.indexAtDepth % nodesAtDepth).toNat⟩)

def isRootPosition (p : Position) : Bool := p.depth = 0 && p.indexAtDepth = 0

def lshIndex (p : Position) (amount : UInt64) : Nat := p.indexAtDepth <<< amount.toNat

def traceIndex (p : Position) (maxDepth : UInt64) : Except Panic Nat :=
  if maxDepth < p.depth then .error .depthAboveMax
  else
    let rd := maxDepth - p.depth
    .ok (p.lshIndex rd ||| (1 <<< rd.toNat - 1))

def move (p : Position) (right : Bool) : Position :=
  ⟨p.depth + 1,p.lshIndex 1 ||| right.toNat⟩

def parentIndexAtDepth (p : Position) : Nat := p.indexAtDepth / 2

def rightOf (p parent : Position) : Bool := p.parentIndexAtDepth ≠ parent.indexAtDepth

def parent (p : Position) : Position := ⟨p.depth - 1,p.parentIndexAtDepth⟩

def attack (p : Position) : Position := p.move false

def defend (p : Position) : Position := (p.parent.move true).move false

def toGIndex (p : Position) : Nat := (1 <<< p.depth.toNat) ||| p.indexAtDepth

def bigMSB (x : Nat) : UInt64 := if x = 0 then 0 else .ofNat (x.size - 1)

def newPositionFromGIndex (x : Nat) : Position :=
  let depth := bigMSB x
  ⟨depth,x.ldiff (1 <<< depth.toNat)⟩

end Position

def Address.zero : Address := .fill 20 0

structure Claim where
  value : Hash
  position : Position
  counteredBy : Address
  claimant : Address
  contractIndex : Nat
  parentContractIndex : Nat
  deriving DecidableEq

/-- What a claim is identified by. The code hashes these three, each in a field of fixed size. -/
structure ClaimID where
  gIndex : Nat
  value : Hash
  parentContractIndex : Nat
  deriving DecidableEq

namespace Claim

def zero : Claim := ⟨.fill 32 0,Position.root,Address.zero,Address.zero,0,0⟩

/-- The field of the generalized index has 256 bytes. -/
def id (c : Claim) : Except Panic ClaimID :=
  if c.position.toGIndex < 2 ^ 2048 then
    .ok ⟨c.position.toGIndex,c.value,c.parentContractIndex⟩
  else .error .gIndexTooLong

def isRoot (c : Claim) : Bool := c.position.isRootPosition

end Claim

structure GameState where
  claims : List Claim
  claimIDs : List ClaimID
  depth : UInt64

def newGameState (claims : List Claim) (depth : UInt64) : Except Panic GameState := do
  let ids ← claims.mapM Claim.id
  return ⟨claims,ids,depth⟩

namespace GameState
variable (g : GameState)

def isDuplicate (claim : Claim) : Except Panic Bool := do
  let id ← claim.id
  return id ∈ g.claimIDs

def getParent (claim : Claim) : Option Claim :=
  if claim.isRoot then none else g.claims[claim.parentContractIndex]?

def defendsParent (claim : Claim) : Bool :=
  match g.getParent claim with
  | none => false
  | some parent => claim.position.rightOf parent.position

/-- The walk up from a claim. It has as many rounds as there are claims, unless the parents form a
circle. -/
def ancestorWithTraceIndex (idx : Nat) : Nat → Claim → Except Panic (Option Claim)
  | 0,_ => .error .endlessAncestors
  | fuel+1,claim => do
    let ti ← claim.position.traceIndex g.depth
    if ti = idx then return some claim
    else if claim.isRoot then return none
    else
      match g.getParent claim with
      | none => return none
      | some next => ancestorWithTraceIndex idx fuel next

end GameState

end OpStack.Fault
