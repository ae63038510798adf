import OpStack.Fault.Game

namespace OpStack.DisputeMon
open Eth Fault

inductive GameStatus where
  | defenderWon
  | challengerWon
  deriving DecidableEq

structure BidirectionalClaim where
  claim : Claim
  children : List Nat
  deriving DecidableEq

abbrev BidirectionalTree := List BidirectionalClaim

def locate (tree : BidirectionalTree) (contractIndex : Nat) : Option Nat :=
  (List.range tree.length).reverse.find? fun i =>
    tree[i]?.any fun node => node.claim.contractIndex = contractIndex

def addClaim (tree : BidirectionalTree) (claim : Claim) : Except Panic BidirectionalTree :=
  let place := tree.length
  let tree := tree ++ [⟨claim,[]⟩]
  if claim.isRoot then .ok tree
  else
    match locate tree claim.parentContractIndex with
    | none => .error .parentMissing
    | some parent =>
      .ok (tree.modify parent fun node => { node with children := node.children ++ [place] })

def createBidirectionalTree (claims : List Claim) : Except Panic BidirectionalTree :=
  claims.foldlM addClaim []

def nextCounter (best : Address × Option Nat) (child : Claim) : Address × Option Nat :=
  if child.counteredBy ≠ Address.zero then best
  else
    match best.2 with
    | none => (child.claimant,some child.position.indexAtDepth)
    | some leftmost =>
      if child.position.indexAtDepth < leftmost then
        (child.claimant,some child.position.indexAtDepth)
      else best

def counterClaimant (tree : BidirectionalTree) (node : BidirectionalClaim) : Address :=
  ((node.children.filterMap fun i => tree[i]?.map BidirectionalClaim.claim).foldl nextCounter
    (node.claim.counteredBy,none)).1

def resolveClaim (tree : BidirectionalTree) (i : Nat) : BidirectionalTree :=
  tree.modify i fun node =>
    { node with claim := { node.claim with counteredBy := counterClaimant tree node } }

def resolveClaims : Nat → BidirectionalTree → BidirectionalTree
  | 0,tree => tree
  | i+1,tree => resolveClaims i (resolveClaim tree i)

def gameStatus (tree : BidirectionalTree) : GameStatus :=
  match tree with
  | [] => .defenderWon
  | root::_ => if root.claim.counteredBy = Address.zero then .defenderWon else .challengerWon

def resolve (tree : BidirectionalTree) : GameStatus × BidirectionalTree :=
  let tree := resolveClaims tree.length tree
  (gameStatus tree,tree)

end OpStack.DisputeMon
