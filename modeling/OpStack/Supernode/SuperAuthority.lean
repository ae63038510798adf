import OpStack.Engine.EngineController
import OpStack.Supernode.VerifiedAt

namespace OpStack.Supernode
open Eth

structure Verifier where
  activationTimestamp : UInt64
  verifiedDB : VerifiedDB

structure NodeStatus where
  localSafeL2 : L2BlockRef
  finalizedL1 : L1BlockRef

namespace Verifier
variable (v : Verifier) (chainID : ChainID)

def isActiveAt (ts : UInt64) : Bool := v.activationTimestamp ≤ ts

def latestVerifiedL2Block : BlockID × UInt64 :=
  match v.verifiedDB.lastTimestamp with
  | none => (.zero,0)
  | some ts =>
    match (v.verifiedDB.get ts).bind fun r => r.l2Heads.lookup chainID with
    | none => (.zero,0)
    | some head => (head,ts)

def searchStep (l1Number ts : UInt64) (rest : BlockID × UInt64) : BlockID × UInt64 :=
  if ts < v.activationTimestamp then (.zero,0)
  else
    match v.verifiedDB.get ts with
    | none => rest
    | some r =>
      if r.l1Inclusion.number ≤ l1Number then
        match r.l2Heads.lookup chainID with
        | none => (.zero,0)
        | some head => (head,ts)
      else rest

/-- The search from a timestamp downwards; the one below zero wraps and ends it. -/
def searchDown (l1Number : UInt64) : Nat → BlockID × UInt64
  | 0 => v.searchStep chainID l1Number 0 (.zero,0)
  | n + 1 => v.searchStep chainID l1Number (.ofNat (n + 1)) (searchDown l1Number n)

def verifiedBlockAtL1 (l1Block : L1BlockRef) : BlockID × UInt64 :=
  if l1Block = .zero then (.zero,0)
  else
    match v.verifiedDB.lastTimestamp with
    | none => (.zero,0)
    | some lastTs => v.searchDown chainID l1Block.number lastTs.toNat

end Verifier

variable (verifiers : List Verifier) (chainID : ChainID)

def allVerifiersPreActivationAt (ts : UInt64) : Bool :=
  !verifiers.isEmpty && verifiers.all fun v => !v.isActiveAt ts

/-- The block of the lowest timestamp, none yet if some verifier has none. Verifiers that disagree
stop the node. -/
def oldestBlock : List (BlockID × UInt64) → BlockID × UInt64 → Option BlockID
  | [],oldest => some oldest.1
  | (bId,ts)::rest,oldest =>
    if bId = .zero ∨ ts = 0 then some .zero
    else if ts < oldest.2 then oldestBlock rest (bId,ts)
    else if ts = oldest.2 ∧ bId ≠ oldest.1 then none
    else oldestBlock rest oldest

def oldestOf (answers : List (BlockID × UInt64)) : Option (BlockID × Bool) :=
  (oldestBlock answers (.zero,0xffffffffffffffff)).map fun b => (b,false)

def fullyVerifiedL2Head (syncStatus : Option NodeStatus) : Option (BlockID × Bool) :=
  if verifiers.isEmpty then some (.zero,true)
  else if syncStatus.any fun ss => allVerifiersPreActivationAt verifiers ss.localSafeL2.time then
    some (.zero,true)
  else oldestOf (verifiers.map fun v => v.latestVerifiedL2Block chainID)

/-- A sync status that cannot be read signals the local head here. -/
def finalizedL2Head (syncStatus : Option NodeStatus) : Option (BlockID × Bool) :=
  if verifiers.isEmpty then some (.zero,true)
  else
    match syncStatus with
    | none => some (.zero,true)
    | some ss =>
      if allVerifiersPreActivationAt verifiers ss.localSafeL2.time then some (.zero,true)
      else oldestOf (verifiers.map fun v => v.verifiedBlockAtL1 chainID ss.finalizedL1)

end OpStack.Supernode
