import OpStack.Interop.HazardSet
import OpStack.Lib.Kahn

namespace OpStack.Interop
open Lib Eth Rollup

abbrev LogNode := ChainID × UInt32

abbrev LogGraph := KahnGraph LogNode

structure ChainLogs where
  chainID : ChainID
  logCount : UInt32
  execMsgs : ExecMsgs

variable (blocks : Hash → Block) (deps : CheckDeps) (ranges : MapRanges)

def gatherLogs (inTimestamp : UInt64) : HazardEntries → ExecMessageCache →
    ExecMessageCache × Except HazardError (List ChainLogs)
  | [],cache => (cache,.ok [])
  | (chainID,hazardBlock)::rest,cache =>
    match openBlock blocks deps chainID hazardBlock.number cache with
    | (cache,.error e) => (cache,.error e)
    | (cache,.ok (bl,entry)) =>
      if hazardBlock.id ≠ bl then (cache,.error .other)
      else if entry.execMsgs.any fun (logIdx,_) => entry.logCount ≤ logIdx then
        (cache,.error .conflict)
      else
        match gatherLogs inTimestamp rest cache with
        | (cache,.error e) => (cache,.error e)
        | (cache,.ok logs) =>
          let execMsgs := entry.execMsgs.filter fun (_,m) => m.timestamp = inTimestamp
          (cache,.ok (⟨chainID,entry.logCount,execMsgs⟩::logs))

def addLog (chainID : ChainID) (g : LogGraph) (i : Nat) : LogGraph :=
  if i = 0 then g.addRoot (chainID,0)
  else g.addEdge (chainID,UInt32.ofNat (i - 1)) (chainID,UInt32.ofNat i)

def addLogs (g : LogGraph) (l : ChainLogs) : LogGraph :=
  (List.range l.logCount.toNat).foldl (addLog l.chainID) g

def initiatingNode (m : ExecutingMessage) : LogNode := (m.chainID,m.logIdx)

def addMessageEdge (hazards : HazardEntries) (logCounts : List (ChainID × UInt32))
    (chainID : ChainID) (g : LogGraph) (msg : UInt32 × ExecutingMessage) :
    Except HazardError LogGraph := do
  let _ ← orFail .conflict (hazards.lookup msg.2.chainID)
  let logCount ← orFail .conflict (logCounts.lookup msg.2.chainID)
  if logCount ≤ msg.2.logIdx then .error .conflict
  else if initiatingNode msg.2 = (chainID,msg.1) then .error .conflict
  else .ok (g.addEdge (initiatingNode msg.2) (chainID,msg.1))

def addMessageEdges (hazards : HazardEntries) (logCounts : List (ChainID × UInt32))
    (chainID : ChainID) : ExecMsgs → LogGraph → Except HazardError LogGraph
  | [],g => .ok g
  | msg::rest,g =>
    addMessageEdge hazards logCounts chainID g msg >>=
      addMessageEdges hazards logCounts chainID rest

/-- The messages of each chain are ranged over in an order of their own. -/
def addAllMessageEdges (hazards : HazardEntries) (logCounts : List (ChainID × UInt32)) :
    List ChainLogs → LogGraph → Except HazardError LogGraph
  | [],g => .ok g
  | l::rest,g =>
    addMessageEdges hazards logCounts l.chainID (ranges.shuffle _ rest.length l.execMsgs) g >>=
      addAllMessageEdges hazards logCounts rest

def buildGraph (hazards : HazardEntries) (logs : List ChainLogs) : Except HazardError LogGraph :=
  addAllMessageEdges ranges hazards (logs.map fun l => (l.chainID,l.logCount))
    (ranges.shuffle _ 2 logs) ((ranges.shuffle _ 1 logs).foldl addLogs .empty)

def checkGraph (logs : List ChainLogs) (g : LogGraph) : Option HazardError :=
  let nodes := (logs.map fun l => l.logCount.toNat).sum
  match g.check (ranges.shuffle LogNode) (nodes + 1) with
  | some (.ok true) => none
  | _ => some .conflict

def hazardCycleChecks (inTimestamp : UInt64) (hazards : HazardEntries) (cache : ExecMessageCache) :
    ExecMessageCache × Option HazardError :=
  match gatherLogs blocks deps inTimestamp (ranges.shuffle _ 0 hazards) cache with
  | (cache,.error e) => (cache,some e)
  | (cache,.ok logs) =>
    match buildGraph ranges hazards logs with
    | .error e => (cache,some e)
    | .ok g => (cache,checkGraph ranges logs g)

def checkHazards (keccak256 : Bytes → Hash) (candidate : BlockSeal) (chainID : ChainID)
    (cache : ExecMessageCache) : ExecMessageCache × Option HazardError :=
  match newHazardSet keccak256 blocks deps ranges chainID candidate cache with
  | some (.ok (cache,.ok hazards)) =>
    hazardCycleChecks blocks deps ranges candidate.timestamp hazards cache
  | some (.ok (cache,.error e)) => (cache,some e)
  | _ => (cache,some .other)

/-! The checks of a consolidation, over the blocks that the oracle knows. -/

inductive CheckDepsError where
  | unsupportedL2Output
  | noChainConfig (chain : ChainID)
  | noFullConfig
  | indexOutOfRange

/-- The chain configs and the errors of the block builder stay what they are. -/
abbrev crossPackages (ChainConfig BuildError : Type) : Packages where
  ChainConfig := ChainConfig
  DependencySet := DependencySet
  Block := Block
  CheckDeps := CheckDeps
  Store := ExecMessageCache
  Error := CheckDepsError ⊕ BuildError

/-- The answers are addressed by their content, so a replacement that is added to the database is
the block of its hash. -/
structure ConsolidateOracle where
  blocks : Hash → Block
  isOutputV0 : Hash → Bool

def canonHeads {ChainConfig : Type} (oracle : ConsolidateOracle)
    (chainConfig : ChainID → Option ChainConfig) :
    List OptimisticBlock → List ChainIDAndOutput → List (ChainID × Hash) →
      Except CheckDepsError (List (ChainID × Hash))
  | _,[],heads => .ok heads
  | [],_::_,_ => .error .indexOutOfRange
  | progress::pending,chain::chains,heads =>
    if !oracle.isOutputV0 chain.output then .error .unsupportedL2Output
    else if (chainConfig chain.chainID).isNone then .error (.noChainConfig chain.chainID)
    else canonHeads oracle chainConfig pending chains ((chain.chainID,progress.blockHash)::heads)

variable {ChainConfig BuildError : Type}

def newConsolidateCheckDeps (oracle : ConsolidateOracle) (depSet : DependencySet)
    (configs : ConfigSource (crossPackages ChainConfig BuildError)) (pending : List OptimisticBlock)
    (chains : List ChainIDAndOutput) : Except CheckDepsError CheckDeps := do
  let canonBlocks ← canonHeads oracle configs.chainConfig pending chains []
  let linker ← orFail .noFullConfig (getFullConfig configs.rollupConfig depSet)
  pure ⟨canonBlocks,linker⟩

def crossChecks (keccak256 : Bytes → Hash) (oracle : ConsolidateOracle)
    (ranges : CheckDeps → BlockSeal → ChainID → MapRanges) :
    Checks (crossPackages ChainConfig BuildError) where
  emptyStore _ := none
  newCheckDeps depSet configs pending chains _ :=
    (newConsolidateCheckDeps oracle depSet configs pending chains).mapError .inl
  receiptsByBlockHash h _ _ := oracle.blocks h
  blockNumber b := b.number
  blockTime b := b.time
  checkHazards deps candidate chainID cache :=
    checkHazards oracle.blocks deps (ranges deps candidate chainID) keccak256 candidate chainID cache

abbrev DepositOnlyBuilder (ChainConfig BuildError : Type) :=
  Config → ChainConfig → (l1Head : Hash) → (agreedOutputRoot : Hash) → Block →
    Except BuildError (Hash × Hash)

def crossTasks (runDerivation : Config → ChainConfig → DependencySet → ChainConfig → Hash → Hash →
    UInt64 → Except (CheckDepsError ⊕ BuildError) DerivationResult)
    (build : DepositOnlyBuilder ChainConfig BuildError) :
    TaskExecutor (crossPackages ChainConfig BuildError) where
  runDerivation := runDerivation
  buildDepositOnlyBlock cfg l2Cfg l1Head agreed block cache :=
    (cache,(build cfg l2Cfg l1Head agreed block).mapError .inr)

end OpStack.Interop
