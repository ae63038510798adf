import OpStack.Eth.Types
import OpStack.Lib.Lists

namespace OpStack.Fault
open Eth Lib

/-- A node of the tree, or a nil pointer. -/
inductive MerkleNode where
  | nil
  | node (label : Hash) (left right : MerkleNode)

namespace MerkleNode

def label : MerkleNode → Hash
  | nil => .fill 32 0
  | node label _ _ => label

def orNew (label : Hash) : MerkleNode → MerkleNode
  | nil => node label nil nil
  | t => t

variable (keccak256 : Bytes → Hash)

def hashPair (a b : Hash) : Hash := keccak256 (a.bytes ++ b.bytes)

/-- Hashes of empty trees, by their height. -/
def zeroHashes : Nat → Hash
  | 0 => .fill 32 0
  | height+1 => hashPair keccak256 (zeroHashes height) (zeroHashes height)

def rootHash : Nat → Hash
  | 0 => .fill 32 0
  | height+1 => hashPair keccak256 (rootHash height) (zeroHashes keccak256 height)

def branch (left right : MerkleNode) : MerkleNode :=
  node (hashPair keccak256 left.label right.label) left right

/-- The walk down to the leaf, over the last `n` levels, and back up. On the way down new nodes get
a label from the wrong end of the table, which the way up sets again. -/
def addLeaf (hash : Hash) : Nat → Nat → MerkleNode → MerkleNode
  | n+1,subtreeLeafCount,node _ left right =>
    if subtreeLeafCount * 2 ≤ 2 ^ (n + 1) then
      branch keccak256
        (addLeaf hash n subtreeLeafCount (left.orNew (zeroHashes keccak256 (15 - n))))
        (right.orNew (zeroHashes keccak256 n))
    else
      branch keccak256 (left.orNew (zeroHashes keccak256 n))
        (addLeaf hash n (subtreeLeafCount - 2 ^ (n + 1) / 2)
          (right.orNew (zeroHashes keccak256 (15 - n))))
  | _,_,node _ left right => node hash left right
  | _,_,nil => nil

/-- The same walk, which collects the labels beside the way up. It leaves the new nodes in the
tree. -/
def proofAtIndex : Nat → Nat → MerkleNode → MerkleNode × List Hash
  | n+1,subtreeLeafCount,node label left right =>
    if subtreeLeafCount * 2 ≤ 2 ^ (n + 1) then
      let (left,proof) :=
        proofAtIndex n subtreeLeafCount (left.orNew (zeroHashes keccak256 (15 - n)))
      (node label left right,proof ++ [right.label])
    else
      let (right,proof) := proofAtIndex n (subtreeLeafCount - 2 ^ (n + 1) / 2)
        (right.orNew (zeroHashes keccak256 (15 - n)))
      (node label left right,proof ++ [left.label])
  | _,_,t => (t,[])

end MerkleNode

structure BinaryMerkleTree where
  root : MerkleNode
  leafCount : Nat

namespace BinaryMerkleTree
variable (keccak256 : Bytes → Hash) (m : BinaryMerkleTree)

def newBinaryMerkleTree : BinaryMerkleTree := ⟨.node (MerkleNode.rootHash keccak256 16) .nil .nil,0⟩

def rootHash : Hash := m.root.label

def addLeaf (hash : Hash) : BinaryMerkleTree :=
  ⟨m.root.addLeaf keccak256 hash 16 (m.leafCount + 1),m.leafCount + 1⟩

/-- There is no proof for an index out of bounds. -/
def proofAtIndex (index : Nat) : Option (BinaryMerkleTree × List Hash) :=
  if 2 ^ 16 - 1 ≤ index then none
  else
    let (root,proof) := m.root.proofAtIndex keccak256 16 (index + 1)
    some ({ m with root },proof)

end BinaryMerkleTree

end OpStack.Fault
