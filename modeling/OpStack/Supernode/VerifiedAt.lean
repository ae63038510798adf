import OpStack.Rollup.Config
import OpStack.Eth.SuperRoot

namespace OpStack.Supernode
open Eth

structure VerifiedResult where
  timestamp : UInt64
  l1Inclusion : BlockID
  l2Heads : List (ChainID × BlockID)
  deriving DecidableEq

inductive VerifiedError where
  | notFound
  | nonSequential
  | alreadyCommitted
  deriving DecidableEq

abbrev VerifiedDB := List VerifiedResult

namespace VerifiedDB

def lastTimestamp (db : VerifiedDB) : Option UInt64 := db.getLast?.map VerifiedResult.timestamp

def get (db : VerifiedDB) (ts : UInt64) : Option VerifiedResult := db.find? (·.timestamp = ts)

def has (db : VerifiedDB) (ts : UInt64) : Bool := (db.get ts).isSome

/-- A result that is there already may be committed again. -/
def commit (db : VerifiedDB) (r : VerifiedResult) : Except VerifiedError VerifiedDB :=
  match db.lastTimestamp with
  | none => .ok (db ++ [r])
  | some last =>
    if r.timestamp = last + 1 then .ok (db ++ [r])
    else if r.timestamp ≤ last then
      match db.get r.timestamp with
      | none => .error .notFound
      | some existing => if existing = r then .ok db else .error .alreadyCommitted
    else .error .nonSequential

def rewind (db : VerifiedDB) (timestamp : UInt64) : VerifiedDB :=
  db.filter (·.timestamp < timestamp)

end VerifiedDB

structure ChainNode where
  rollup : Rollup.Config
  localSafeL2 : Option L2BlockRef
  l2BlockRefByNumber : UInt64 → Fetched L2BlockRef
  l1AtSafeHead : BlockID → Fetched BlockID

namespace ChainNode
variable (n : ChainNode)

def localSafeBlockAtTimestamp (ts : UInt64) : Fetched L2BlockRef :=
  match n.rollup.targetBlockNumber ts,n.localSafeL2 with
  | .ok num,some head => if head.number < num then .notFound else n.l2BlockRefByNumber num
  | _,_ => .failed

def safeDBAtL2 (l2 : BlockID) : Fetched BlockID :=
  match n.localSafeL2 with
  | none => .failed
  | some _ => n.l1AtSafeHead l2

def optimisticAt (ts : UInt64) : Fetched (BlockID × BlockID) :=
  match n.localSafeBlockAtTimestamp ts with
  | .notFound => .notFound
  | .failed => .failed
  | .found l2 =>
    match n.safeDBAtL2 l2.id with
    | .notFound => .notFound
    | .failed => .failed
    | .found l1 => .found (l2.id,l1)

def verifiedAt (activationTimestamp : UInt64) (db : VerifiedDB) (ts : UInt64) :
    Fetched (BlockID × BlockID) :=
  match n.optimisticAt ts with
  | .found b => if ts < activationTimestamp || db.has ts then .found b else .notFound
  | e => e

end ChainNode

/-- A chain with the verified results, and the result that a round has in hand. -/
structure Serving where
  node : ChainNode
  verifiedDB : VerifiedDB
  pending : Option VerifiedResult

/-- The chain moves, by progress, a reorg or a rewind; a round observes the block of the next
timestamp; it ends without a result, or commits it; the last result is rewound. -/
inductive ServingStep (chainID : ChainID) (firstVerifiable : UInt64) : Serving → Serving → Prop
  | moves {s : Serving} (node : ChainNode) :
      ServingStep chainID firstVerifiable s { s with node }
  | observes {s : Serving} {r : VerifiedResult} {b l1 : BlockID}
      (hnext : r.timestamp = (s.verifiedDB.lastTimestamp.map (· + 1)).getD firstVerifiable)
      (hobserved : s.node.optimisticAt r.timestamp = .found (b,l1))
      (hhead : r.l2Heads.lookup chainID = some b) :
      ServingStep chainID firstVerifiable s { s with pending := some r }
  | ends {s : Serving} : ServingStep chainID firstVerifiable s { s with pending := none }
  | commits {s : Serving} {r : VerifiedResult} {db : VerifiedDB} (hr : s.pending = some r)
      (hcommit : s.verifiedDB.commit r = .ok db) :
      ServingStep chainID firstVerifiable s { s with verifiedDB := db, pending := none }
  | rewinds {s : Serving} {ts : UInt64} (hlast : s.verifiedDB.lastTimestamp = some ts) :
      ServingStep chainID firstVerifiable s { s with verifiedDB := s.verifiedDB.rewind ts }

end OpStack.Supernode
