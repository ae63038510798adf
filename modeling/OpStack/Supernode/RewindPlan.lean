import OpStack.Interop.Consolidate
import OpStack.Supernode.VerifiedAt

namespace OpStack.Supernode
open Eth Interop

/-- The blocks sealed in the logs database of a chain; their logs are left out. -/
abbrev SealedBlocks := List BlockSeal

inductive SealError where
  | future
  | conflict
  | previousTimestampNotSealed
  | parentHashMismatch
  | staleLogsDB
  deriving DecidableEq

namespace SealedBlocks

def sealBlock (db : SealedBlocks) (parent : Hash) (upd : BlockSeal) :
    Except SealError SealedBlocks :=
  match db.getLast? with
  | none => .ok [upd]
  | some last =>
    if last.hash ≠ parent then .error .conflict
    else if last.hash ≠ BlockID.zero.hash && last.number + 1 ≠ upd.number then .error .conflict
    else if last.timestamp > upd.timestamp then .error .conflict
    else .ok (db ++ [upd])

def rewind (db : SealedBlocks) (newHead : BlockID) : Except SealError SealedBlocks :=
  match db.find? (·.number = newHead.number) with
  | some b =>
    if b.hash = newHead.hash then .ok (db.filter (·.number ≤ newHead.number))
    else .error .conflict
  | none =>
    match db.head? with
    | some first => if newHead.number < first.number then .ok [] else .error .future
    | none => .error .future

/-- The first block of a database comes with its parent, so that its logs have a sealed block to
refer to. -/
def processBlockLogs (db : SealedBlocks) (block : BlockSeal) (parentHash : Hash)
    (isFirstBlock : Bool) : Except SealError SealedBlocks :=
  let withParent :=
    if isFirstBlock && 0 < block.number then
      db.sealBlock BlockID.zero.hash ⟨parentHash,block.number - 1,block.timestamp⟩
    else .ok db
  withParent.bind (·.sealBlock (if block.number = 0 then BlockID.zero.hash else parentHash) block)

end SealedBlocks

structure RewindPlan where
  rewindAtOrAfter : UInt64
  resetAllChainsTo : Option UInt64
  targetHeads : Option (List (ChainID × BlockID))
  deriving DecidableEq

structure InteropStores where
  activationTimestamp : UInt64
  /-- Zero where the process has not backfilled. -/
  backfillEndTimestamp : UInt64
  chains : List ChainID
  verifiedDB : VerifiedDB
  logsDBs : ChainID → SealedBlocks

namespace InteropStores
variable (s : InteropStores)

def firstVerifiableTimestamp : UInt64 :=
  if s.backfillEndTimestamp = 0 then s.activationTimestamp
  else if s.backfillEndTimestamp + 1 < s.activationTimestamp then s.activationTimestamp
  else s.backfillEndTimestamp + 1

def verifyCanAddTimestamp (db : SealedBlocks) (ts blockTime : UInt64) (isBackfill : Bool) :
    Except SealError (Option BlockSeal) :=
  match db.getLast? with
  | none =>
    if ts = s.firstVerifiableTimestamp then .ok none
    else if isBackfill && ts + blockTime > s.activationTimestamp then .ok none
    else .error .previousTimestampNotSealed
  | some last =>
    if last.timestamp > ts then .ok (some last)
    else if ts - last.timestamp > blockTime then .error .previousTimestampNotSealed
    else .ok (some last)

/-- A block that is sealed already is accepted again. -/
def sealBlockDataIntoLogsDB (db : SealedBlocks) (block : BlockSeal) (parentHash : Hash)
    (ts blockTime : UInt64) (isBackfill : Bool) : Except SealError SealedBlocks := do
  match ← s.verifyCanAddTimestamp db ts blockTime isBackfill with
  | none => db.processBlockLogs block parentHash true
  | some latest =>
    if latest.number > block.number then
      match db.find? (·.number = block.number) with
      | some sealed => if sealed.hash = block.hash then .ok db else .error .staleLogsDB
      | none => .error .staleLogsDB
    else if latest.number = block.number then
      if latest.hash = block.hash then .ok db else .error .staleLogsDB
    else if parentHash ≠ latest.hash then .error .parentHashMismatch
    else db.processBlockLogs block parentHash false

def buildRewindPlan (lastTS : UInt64) : Except VerifiedError RewindPlan :=
  if lastTS ≤ s.firstVerifiableTimestamp then .ok ⟨lastTS,none,none⟩
  else
    match s.verifiedDB.get (lastTS - 1) with
    | none => .error .notFound
    | some prev => .ok ⟨lastTS,some (lastTS - 1),some prev.l2Heads⟩

def rewindLogs (plan : RewindPlan) (chainID : ChainID) (db : SealedBlocks) :
    Except SealError SealedBlocks :=
  match plan.targetHeads with
  | none => .ok []
  | some heads =>
    match heads.lookup chainID,db.getLast? with
    | some expected,some latest =>
      if (latest.hash = expected.hash ∧ latest.number = expected.number) ∨
          latest.number < expected.number then .ok db
      else db.rewind expected
    | _,_ => .ok db

/-- `chainsFail`: a chain fails to prune its deny list or to reset its engine; the databases are
rewound all the same, as far as they can be. The flag of the result is for an error. -/
def applyRewindPlan (plan : RewindPlan) (chainsFail : Bool) : InteropStores × Bool :=
  ({ s with
      verifiedDB := s.verifiedDB.rewind plan.rewindAtOrAfter
      logsDBs := fun c => (rewindLogs plan c (s.logsDBs c)).toOption.getD (s.logsDBs c) },
    chainsFail || s.chains.any fun c => !(rewindLogs plan c (s.logsDBs c)).isOk)

end InteropStores

/-- A block is sealed, by a round or by the backfill, or only the parent that the first one comes
with; a round commits a result whose heads are sealed; the process starts again, and may have
backfilled; a plan is applied that this process or an earlier one has built. -/
inductive StoreStep : InteropStores → InteropStores → Prop
  | seals {s : InteropStores} {chainID : ChainID} {block : BlockSeal} {parentHash : Hash}
      {ts blockTime : UInt64} {isBackfill : Bool} {db : SealedBlocks}
      (hseal : s.sealBlockDataIntoLogsDB (s.logsDBs chainID) block parentHash ts blockTime
        isBackfill = .ok db) :
      StoreStep s { s with logsDBs := Function.update s.logsDBs chainID db }
  | stops {s : InteropStores} {chainID : ChainID} {block : BlockSeal} {parentHash : Hash}
      {ts blockTime : UInt64} {isBackfill : Bool} {db : SealedBlocks}
      (hfirst : s.verifyCanAddTimestamp (s.logsDBs chainID) ts blockTime isBackfill = .ok none)
      (hpos : 0 < block.number)
      (hparent : (s.logsDBs chainID).sealBlock BlockID.zero.hash
        ⟨parentHash,block.number - 1,block.timestamp⟩ = .ok db) :
      StoreStep s { s with logsDBs := Function.update s.logsDBs chainID db }
  | commits {s : InteropStores} {r : VerifiedResult} {db : VerifiedDB}
      (hnext : r.timestamp = (s.verifiedDB.lastTimestamp.map (· + 1)).getD
        s.firstVerifiableTimestamp)
      -- Time does not run past the last number.
      (htime : ∀ last ∈ s.verifiedDB.lastTimestamp,last < last + 1)
      (hsealed : ∀ e ∈ r.l2Heads,∃ b ∈ s.logsDBs e.1,b.hash = e.2.hash ∧ b.number = e.2.number)
      (hcommit : s.verifiedDB.commit r = .ok db) : StoreStep s { s with verifiedDB := db }
  | restarts {s : InteropStores} {backfillEndTimestamp : UInt64}
      (hend : backfillEndTimestamp = 0 ∨ s.activationTimestamp ≤ backfillEndTimestamp) :
      StoreStep s { s with backfillEndTimestamp }
  | rewinds {s : InteropStores} {backfillEndTimestamp lastTS : UInt64} {plan : RewindPlan}
      {chainsFail : Bool} (hlast : s.verifiedDB.lastTimestamp = some lastTS)
      (hplan : { s with backfillEndTimestamp }.buildRewindPlan lastTS = .ok plan) :
      StoreStep s (s.applyRewindPlan plan chainsFail).1

def InteropStores.fresh (activationTimestamp : UInt64) (chains : List ChainID) : InteropStores where
  activationTimestamp
  backfillEndTimestamp := 0
  chains
  verifiedDB := []
  logsDBs := fun _ => []

end OpStack.Supernode
