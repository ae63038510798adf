import OpStack.Interop.Consolidate

namespace OpStack.Interop
open Lib Eth Rollup

structure ContainsQuery where
  timestamp : UInt64
  blockNum : UInt64
  logIdx : UInt32
  checksum : Hash
  deriving DecidableEq

structure ExecutingMessage where
  chainID : ChainID
  blockNum : UInt64
  logIdx : UInt32
  timestamp : UInt64
  checksum : Hash
  deriving DecidableEq

def ExecutingMessage.query (m : ExecutingMessage) : ContainsQuery :=
  ⟨m.timestamp,m.blockNum,m.logIdx,m.checksum⟩

structure ChecksumArgs where
  blockNumber : UInt64
  logIndex : UInt32
  timestamp : UInt64
  chainID : ChainID
  logHash : Hash

def ChecksumArgs.checksum (keccak256 : Bytes → Hash) (args : ChecksumArgs) : Hash :=
  let idPacked := List.replicate 12 0 ++ beBytes 8 args.blockNumber.toNat ++
    beBytes 8 args.timestamp.toNat ++ beBytes 4 args.logIndex.toNat
  let idLogHash := keccak256 (args.logHash.bytes ++ idPacked)
  let out := keccak256 (idLogHash.bytes ++ (ChainID.bytes32 args.chainID).bytes)
  ⟨out.bytes.set 0 3,by simp [out.size]⟩

def ChecksumArgs.query (keccak256 : Bytes → Hash) (args : ChecksumArgs) : ContainsQuery :=
  ⟨args.timestamp,args.blockNumber,args.logIndex,args.checksum keccak256⟩

inductive Decoded where
  | nothing
  | message (m : ExecutingMessage)
  | malformed
  deriving DecidableEq

structure Log where
  logHash : Hash
  decoded : Decoded
  deriving DecidableEq

structure Block where
  number : UInt64
  parentHash : Hash
  time : UInt64
  receipts : List (List Log)
  logs_lt : receipts.flatten.length < 2 ^ 32

abbrev ExecMsgs := List (UInt32 × ExecutingMessage)

structure ExecMessageCacheEntry where
  execMsgs : ExecMsgs
  logCount : UInt32

def readExecutingMessages : UInt32 → List Log → Option ExecMsgs
  | _,[] => some []
  | curr,l::rest =>
    match l.decoded with
    | .malformed => none
    | .nothing => readExecutingMessages (curr + 1) rest
    | .message m => (readExecutingMessages (curr + 1) rest).map ((curr,m) :: ·)

def receiptsToExecutingMessages (receipts : List (List Log)) : Option ExecMessageCacheEntry :=
  (readExecutingMessages 0 receipts.flatten).map fun execMsgs =>
    ⟨execMsgs,UInt32.ofNat receipts.flatten.length⟩

def findInReceipt (logIdx : UInt32) : UInt32 → List Log → Option Log
  | _,[] => none
  | current,l::rest => if current = logIdx then some l else findInReceipt logIdx (current + 1) rest

def findLog (logIdx : UInt32) : UInt32 → List (List Log) → Option Log
  | _,[] => none
  | current,receipt::rest =>
    match findInReceipt logIdx current receipt with
    | some l => some l
    | none => findLog logIdx (current + UInt32.ofNat receipt.length) rest

/-! The blocks come from an oracle that knows the block of every hash. -/

variable (blocks : Hash → Block)

def walkBack (number : UInt64) : Nat → Hash → Option Hash
  | 0,h => if number < (blocks h).number then none else some h
  | fuel+1,h =>
    if number < (blocks h).number then walkBack number fuel (blocks h).parentHash else some h

/-- `GetHeaderByNumber` of the canonical chain with that head. -/
def getHeaderByNumber (head : Hash) (number : UInt64) : Option Hash :=
  if (blocks head).number < number then none
  else walkBack blocks number (blocks head).number.toNat head

def saturatingAdd (a b : UInt64) : UInt64 :=
  let out := a + b
  if out < a then 0xffffffffffffffff else out

structure StaticRollupConfig where
  blockTime : UInt64
  interopTime : Option UInt64

namespace StaticRollupConfig

def ofRollupConfig (cfg : Config) : StaticRollupConfig := ⟨cfg.blockTime,cfg.interopTime⟩

def isInterop (c : StaticRollupConfig) (ts : UInt64) : Bool := c.interopTime.any (· ≤ ts)

def isInteropActivationBlock (c : StaticRollupConfig) (ts : UInt64) : Bool :=
  c.isInterop ts && decide (c.blockTime ≤ ts) && !c.isInterop (ts - c.blockTime)

end StaticRollupConfig

structure DependencySet where
  chains : List ChainID
  messageExpiryWindow : UInt64

/-- `FullConfigSetMerged`: its two sets hold the same chains. -/
structure FullConfigSet where
  chains : List (ChainID × StaticRollupConfig)
  messageExpiryWindow : UInt64

def getFullConfig (rollupConfig : ChainID → Option Config) (depSet : DependencySet) :
    Option FullConfigSet := do
  let chains ← depSet.chains.mapM fun chainID => do
    let cfg ← rollupConfig chainID
    pure (chainID,StaticRollupConfig.ofRollupConfig cfg)
  pure ⟨chains,depSet.messageExpiryWindow⟩

def FullConfigSet.canExecute (cfg : FullConfigSet) (execInChain : ChainID)
    (execInTimestamp : UInt64) (initChainID : ChainID) (initTimestamp : UInt64) : Bool :=
  match cfg.chains.lookup execInChain,cfg.chains.lookup initChainID with
  | some execIn,some init =>
    execIn.isInterop execInTimestamp && !execIn.isInteropActivationBlock execInTimestamp &&
      init.isInterop initTimestamp && !init.isInteropActivationBlock initTimestamp &&
      !decide (execInTimestamp < initTimestamp) &&
      !decide (saturatingAdd initTimestamp cfg.messageExpiryWindow < execInTimestamp)
  | _,_ => false

/-- The order in which each range over a map visits its entries. -/
structure MapRanges where
  shuffle : (α : Type) → Nat → List α → List α
  perm : ∀ α k (l : List α), (shuffle α k l).Perm l

abbrev ExecMessageCache := Hash → Option ExecMessageCacheEntry

/-- `consolidateCheckDeps`, with the linker: the heads of the chains. -/
structure CheckDeps where
  canonBlocks : List (ChainID × Hash)
  linker : FullConfigSet

def BlockSeal.id (b : BlockSeal) : BlockID := ⟨b.hash,b.number⟩

variable (keccak256 : Bytes → Hash) (blocks : Hash → Block) (deps : CheckDeps)

def blockSeal (h : Hash) : BlockSeal := ⟨h,(blocks h).number,(blocks h).time⟩

/-- A chain without a head is a nil pointer, at which the program stops. -/
def canonBlockByNumber (number : UInt64) (chainID : ChainID) : Except HazardError Hash := do
  let head ← orFail .other (deps.canonBlocks.lookup chainID)
  orFail .conflict (getHeaderByNumber blocks head number)

def contains (chainID : ChainID) (query : ContainsQuery) : Except HazardError BlockSeal := do
  let h ← canonBlockByNumber blocks deps query.blockNum chainID
  if (blocks h).time ≠ query.timestamp then throw .conflict
  let log ← orFail .conflict (findLog query.logIdx 0 (blocks h).receipts)
  let checksum := ChecksumArgs.checksum keccak256
    ⟨query.blockNum,query.logIdx,query.timestamp,chainID,log.logHash⟩
  if checksum ≠ query.checksum then throw .conflict
  pure (blockSeal blocks h)

def openBlock (chainID : ChainID) (blockNum : UInt64) (cache : ExecMessageCache) :
    ExecMessageCache × Except HazardError (BlockID × ExecMessageCacheEntry) :=
  match canonBlockByNumber blocks deps blockNum chainID with
  | .error e => (cache,.error e)
  | .ok h =>
    match cache h with
    | some entry => (cache,.ok ((blockSeal blocks h).id,entry))
    | none =>
      match receiptsToExecutingMessages (blocks h).receipts with
      | none => (cache,.error .other)
      | some entry =>
        (Function.update cache h (some entry),.ok ((blockSeal blocks h).id,entry))

/-! The set of the blocks that a candidate depends on at its own timestamp. -/

abbrev HazardEntries := List (ChainID × BlockSeal)

def checkChainCanExecute (chainID : ChainID) (block : BlockSeal) (execMsgs : ExecMsgs) :
    Except HazardError Unit :=
  if execMsgs.all fun (_,m) =>
      deps.linker.canExecute chainID block.timestamp m.chainID m.timestamp
  then .ok () else .error .conflict

def checkMessageWithCurrentTimestamp (entries : HazardEntries) (initChainID : ChainID)
    (includedIn : BlockSeal) : Except HazardError Bool :=
  match entries.lookup initChainID with
  | some existing => if existing.id ≠ includedIn.id then .error .conflict else .ok true
  | none => .ok false

/-- One message of the candidate. Every block of the past counts as cross-valid. -/
def addMessage (candidate : BlockSeal) (m : ExecutingMessage) (s : HazardEntries × HazardEntries) :
    Except HazardError (HazardEntries × HazardEntries) := do
  let includedIn ← contains keccak256 blocks deps m.chainID m.query
  if m.timestamp < candidate.timestamp then pure s
  else if m.timestamp = candidate.timestamp then
    let exist ← checkMessageWithCurrentTimestamp s.1 m.chainID includedIn
    if exist then pure s
    else pure ((m.chainID,includedIn) :: s.1,(m.chainID,includedIn) :: s.2)
  else throw .conflict

def addMessages (candidate : BlockSeal) :
    ExecMsgs → HazardEntries × HazardEntries → Except HazardError (HazardEntries × HazardEntries)
  | [],s => .ok s
  | (_,m)::rest,s => addMessage keccak256 blocks deps candidate m s >>= addMessages candidate rest

def visitBlock (ranges : MapRanges) (step : Nat) (chainID : ChainID) (candidate : BlockSeal)
    (cache : ExecMessageCache) (s : HazardEntries × HazardEntries) :
    ExecMessageCache × Except HazardError (HazardEntries × HazardEntries) :=
  match openBlock blocks deps chainID candidate.number cache with
  | (cache,.error e) => (cache,.error e)
  | (cache,.ok (opened,entry)) =>
    (cache,
      if opened ≠ candidate.id then .error .conflict
      else do
        checkChainCanExecute deps chainID candidate entry.execMsgs
        addMessages keccak256 blocks deps candidate (ranges.shuffle _ step entry.execMsgs) s)

structure BuildState where
  step : Nat
  cache : ExecMessageCache
  entries : HazardEntries
  stack : HazardEntries

def buildStep (ranges : MapRanges) (s : BuildState) :
    Except Empty (BuildState ⊕ ExecMessageCache × Except HazardError HazardEntries) :=
  match s.stack with
  | [] => .ok (.inr (s.cache,.ok s.entries))
  | (chainID,candidate)::stack =>
    match visitBlock keccak256 blocks deps ranges s.step chainID candidate s.cache
        (s.entries,stack) with
    | (cache,.error e) => .ok (.inr (cache,.error e))
    | (cache,.ok (entries,stack)) => .ok (.inl ⟨s.step + 1,cache,entries,stack⟩)

/-- `CrossUnsafeHazards`. Each chain with a head is added at most once. -/
def newHazardSet (ranges : MapRanges) (chainID : ChainID) (block : BlockSeal)
    (cache : ExecMessageCache) :
    Option (Except Empty (ExecMessageCache × Except HazardError HazardEntries)) :=
  loop (buildStep keccak256 blocks deps ranges) (deps.canonBlocks.length + 2)
    ⟨0,cache,[],[(chainID,block)]⟩

end OpStack.Interop
