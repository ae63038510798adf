import OpStack.Interop.HazardSet

namespace OpStack.Supernode
open Eth Interop

/-- What a pointer to a node stands for: each executing log has one node. -/
abbrev NodeRef := ChainID × UInt32

structure DependencyNode where
  chainID : ChainID
  logIndex : UInt32
  execMsg : ExecutingMessage
  resolved : Bool
  dependsOn : List NodeRef
  dependedOnBy : List NodeRef

def DependencyNode.ref (n : DependencyNode) : NodeRef := (n.chainID,n.logIndex)

abbrev DependencyGraph := List DependencyNode

namespace DependencyGraph

def modifyNode (g : DependencyGraph) (ref : NodeRef) (f : DependencyNode → DependencyNode) :
    DependencyGraph :=
  g.map fun n => if n.ref = ref then f n else n

def addEdge (g : DependencyGraph) (src dst : NodeRef) : DependencyGraph :=
  (g.modifyNode src fun n => { n with dependsOn := n.dependsOn ++ [dst] }).modifyNode dst
    fun n => { n with dependedOnBy := n.dependedOnBy ++ [src] }

end DependencyGraph

def removeFromSlice (slice : List NodeRef) (toRemove : NodeRef) : List NodeRef :=
  slice.filter fun n => n ≠ toRemove

def DependencyNode.removable (n : DependencyNode) : Bool := !n.resolved && n.dependedOnBy.isEmpty

def DependencyNode.forget (removed : NodeRef) (n : DependencyNode) : DependencyNode :=
  { n with dependedOnBy := removeFromSlice n.dependedOnBy removed }

def removeNode (g : DependencyGraph) (removed : DependencyNode) : DependencyGraph :=
  removed.dependsOn.foldl
    (fun g dependency => g.modifyNode dependency (.forget removed.ref)) g

def DependencyNode.resolve (n : DependencyNode) : DependencyNode :=
  if n.removable then { n with resolved := true } else n

/-- The loop of `checkCycle`. It returns the graph as it leaves it, and whether the error is
`ErrCycle`. -/
def peel : Nat → DependencyGraph → Option (DependencyGraph × Bool)
  | 0,_ => none
  | fuel+1,g =>
    let removeSet := g.filter DependencyNode.removable
    if removeSet.isEmpty then some (g,g.any fun n => !n.resolved)
    else peel fuel (removeSet.foldl removeNode (g.map .resolve))

def checkCycle (fuel : Nat) (g : DependencyGraph) : Option (DependencyGraph × Bool) :=
  if g.isEmpty then some (g,false) else peel fuel g

def collectCycleParticipants (g : DependencyGraph) : List ChainID :=
  (g.filter fun n => !n.resolved).map DependencyNode.chainID

def executingMessageBefore (targetLogIdx : UInt32) :
    Option DependencyNode → List DependencyNode → Option DependencyNode
  | result,[] => result
  | result,em::rest =>
    if em.logIndex ≤ targetLogIdx then executingMessageBefore targetLogIdx (some em) rest
    else result

/-- The executing messages of the blocks, in an order in which the maps are ranged over. -/
structure ChainMessages where
  entries : List (ChainID × List (UInt32 × Option ExecutingMessage))
  chains_nodup : (entries.map Prod.fst).Nodup
  logs_nodup : ∀ e ∈ entries, (e.2.map Prod.fst).Nodup

namespace ChainMessages
variable (ts : UInt64) (m : ChainMessages)

def newNode (chainID : ChainID) : UInt32 × Option ExecutingMessage → Option DependencyNode
  | (logIdx,some em) =>
    if em.timestamp = ts then some ⟨chainID,logIdx,em,false,[],[]⟩ else none
  | (_,none) => none

def nodes : DependencyGraph := m.entries.flatMap fun e => e.2.filterMap (newNode ts e.1)

def orderedExecutingMessages (chainID : ChainID) : List DependencyNode :=
  ((m.nodes ts).filter fun n => n.chainID = chainID).mergeSort
    fun a b => a.logIndex ≤ b.logIndex

def addEdges (g : DependencyGraph) :
    Option DependencyNode → List DependencyNode → DependencyGraph
  | _,[] => g
  | prev,node::rest =>
    let g := match prev with
      | some p => g.addEdge node.ref p.ref
      | none => g
    let g := match executingMessageBefore node.execMsg.logIdx none
        (m.orderedExecutingMessages ts node.execMsg.chainID) with
      | some target => g.addEdge node.ref target.ref
      | none => g
    addEdges g (some node) rest

/-- The order in which the second pass ranges over the chains that have nodes. -/
structure SecondPass where
  order : List ChainID
  nodup : order.Nodup
  mem_iff : ∀ c, c ∈ order ↔ ∃ n ∈ m.nodes ts, n.chainID = c

def buildCycleGraph (second : m.SecondPass ts) : DependencyGraph :=
  second.order.foldl
    (fun g chainID => m.addEdges ts g none (m.orderedExecutingMessages ts chainID)) (m.nodes ts)

end ChainMessages

end OpStack.Supernode
