import OpStack.Rollup.Config
import OpStack.Eth.SuperRoot
import OpStack.Derive.RlpCodec

namespace OpStack.Interop
open Lib Eth Rollup Derive.RlpCodecs

structure OptimisticBlock where
  blockHash : Hash
  outputRoot : Hash
  deriving DecidableEq

structure TransitionState where
  superRoot : Bytes
  pendingProgress : List OptimisticBlock := []
  step : UInt64 := 0
  deriving DecidableEq

def optimisticBlockLayout : Layout OptimisticBlock where
  toItem b := .list [(fixedLayout 32).toItem b.blockHash,(fixedLayout 32).toItem b.outputRoot]
  ofItem
    | .list [blockHash,outputRoot] => do
      pure ⟨← (fixedLayout 32).ofItem blockHash,← (fixedLayout 32).ofItem outputRoot⟩
    | _ => none
  ofItem_toItem b := by simp [Layout.ofItem_toItem]

def transitionStateLayout : Layout TransitionState where
  toItem s := .list [bytesLayout.toItem s.superRoot,
    (listLayout optimisticBlockLayout).toItem s.pendingProgress,uint64Layout.toItem s.step]
  ofItem
    | .list [superRoot,pendingProgress,step] => do
      pure ⟨← bytesLayout.ofItem superRoot,
        ← (listLayout optimisticBlockLayout).ofItem pendingProgress,← uint64Layout.ofItem step⟩
    | _ => none
  ofItem_toItem s := by simp [Layout.ofItem_toItem]

def intermediateTransitionVersion : UInt8 := 255

namespace TransitionState

def version (_ : TransitionState) : UInt8 := intermediateTransitionVersion

def marshal (s : TransitionState) : Bytes :=
  intermediateTransitionVersion :: Rlp.encode (transitionStateLayout.toItem s)

def hash (keccak256 : Bytes → Hash) (s : TransitionState) : Hash := keccak256 s.marshal

end TransitionState

/-- The decoder takes canonical encodings only, so a state is decoded from no other bytes than those
it is encoded to. -/
def unmarshalIntermediate (data : Bytes) : Except RootError TransitionState :=
  match (Rlp.decode data).bind transitionStateLayout.ofItem with
  | none => .error .rlp
  | some s => if Rlp.encode (transitionStateLayout.toItem s) = data then .ok s else .error .rlp

def unmarshalTransitionState (data : Bytes) : Except RootError TransitionState :=
  match data with
  | [] => .error .invalidSuperRoot
  | ver::rest =>
    if ver = intermediateTransitionVersion then unmarshalIntermediate rest
    else if ver = superRootVersionV1 then .ok { superRoot := data }
    else .error .invalidSuperRootVersion

/-- The types of other packages whose values the program hands on without looking into them. -/
structure Packages where
  ChainConfig : Type
  DependencySet : Type
  Block : Type
  /-- What the hazard checks read, with the linker. -/
  CheckDeps : Type
  /-- The database of the consolidate oracle, and the messages cached from its blocks. -/
  Store : Type
  Error : Type

inductive Panic where
  | agreedPrestate
  | afterGameTimestamp
  | l1ChainID
  | blockTime
  | indexOutOfRange
  | endlessConsolidation
  deriving DecidableEq

inductive HazardError where
  | conflict
  | unknownChain
  | other
  deriving DecidableEq

inductive InteropError (P : Packages) where
  | incorrectOutputRootType (version : UInt8)
  | l1HeadReached
  | invalidPrestate
  | invalidBlockReplacement
  | superRoot (e : RootError)
  | noRollupConfig (chain : ChainID)
  | noL2ChainConfig (chain : ChainID)
  | noL1ChainConfig (chain : ChainID)
  | noDependencySet (chain : ChainID)
  | genesisNotReached (l2Time : UInt64)
  | hazard (e : HazardError)
  | other (e : P.Error)
  | panic (p : Panic)

variable {P : Packages}

structure ConfigSource (P : Packages) where
  rollupConfig : ChainID → Option Config
  chainConfig : ChainID → Option P.ChainConfig
  l1ChainConfig : ChainID → Option P.ChainConfig
  dependencySet : ChainID → Option P.DependencySet

structure BootInfo (P : Packages) where
  configs : ConfigSource P
  l1Head : Hash
  agreedPrestate : Hash
  gameTimestamp : UInt64

structure DerivationResult where
  head : L2BlockRef
  blockHash : Hash
  outputRoot : Hash

/-- `taskExecutor`. The arguments stand in the order of the source, without the oracles. -/
structure TaskExecutor (P : Packages) where
  runDerivation : Config → P.ChainConfig → P.DependencySet → P.ChainConfig → (l1Head : Hash) →
    (agreedOutputRoot : Hash) → (claimedBlockNumber : UInt64) → Except P.Error DerivationResult
  buildDepositOnlyBlock : Config → P.ChainConfig → (l1Head : Hash) → (agreedOutputRoot : Hash) →
    P.Block → P.Store → P.Store × Except P.Error (Hash × Hash)

structure BlockSeal where
  hash : Hash
  number : UInt64
  timestamp : UInt64

structure Checks (P : Packages) where
  emptyStore : P.Store
  newCheckDeps : P.DependencySet → ConfigSource P → List OptimisticBlock → List ChainIDAndOutput →
    P.Store → Except P.Error P.CheckDeps
  receiptsByBlockHash : Hash → ChainID → P.Store → P.Block
  blockNumber : P.Block → UInt64
  blockTime : P.Block → UInt64
  checkHazards : P.CheckDeps → BlockSeal → ChainID → P.Store → P.Store × Option HazardError

/-- The state of a consolidation, with the chains of the super root, whose outputs it overwrites. -/
structure ConsolidateState (P : Packages) where
  pendingProgress : List OptimisticBlock
  replacedChains : List ChainID
  chains : List ChainIDAndOutput
  store : P.Store

def isInvalidMessageError : HazardError → Bool
  | .conflict => true
  | .unknownChain => true
  | .other => false

def ConsolidateState.setReplaced (s : ConsolidateState P) (i : Nat) (chainID : ChainID)
    (outputRoot blockHash : Hash) : ConsolidateState P :=
  { s with
    pendingProgress := s.pendingProgress.set i ⟨blockHash,outputRoot⟩
    replacedChains := chainID :: s.replacedChains
    chains := s.chains.modify i fun c => { c with output := outputRoot } }

variable (tasks : TaskExecutor P) (checks : Checks P) (boot : BootInfo P)

def buildDepositOnlyBlock (chain : ChainIDAndOutput) (block : P.Block) (store : P.Store) :
    P.Store × Except (InteropError P) (Hash × Hash) :=
  match boot.configs.rollupConfig chain.chainID with
  | none => (store,.error (.noRollupConfig chain.chainID))
  | some rollupCfg =>
    match boot.configs.chainConfig chain.chainID with
    | none => (store,.error (.noL2ChainConfig chain.chainID))
    | some l2ChainConfig =>
      let (store,result) :=
        tasks.buildDepositOnlyBlock rollupCfg l2ChainConfig boot.l1Head chain.output block store
      (store,result.mapError .other)

def checkChains (deps : P.CheckDeps) (s : ConsolidateState P) (i : Nat) :
    List ChainIDAndOutput → ConsolidateState P × Except (InteropError P) Unit
  | [] => (s,.ok ())
  | chain::rest =>
    if chain.chainID ∈ s.replacedChains then checkChains deps s (i + 1) rest
    else
      match s.pendingProgress[i]? with
      | none => (s,.error (.panic .indexOutOfRange))
      | some progress =>
        let block := checks.receiptsByBlockHash progress.blockHash chain.chainID s.store
        let candidate := ⟨progress.blockHash,checks.blockNumber block,checks.blockTime block⟩
        match checks.checkHazards deps candidate chain.chainID s.store with
        | (store,none) => checkChains deps { s with store } (i + 1) rest
        | (store,some e) =>
          if isInvalidMessageError e then
            match buildDepositOnlyBlock tasks boot chain block store with
            | (store,.error e) => ({ s with store },.error e)
            | (store,.ok (blockHash,outputRoot)) =>
              (({ s with store } : ConsolidateState P).setReplaced i chain.chainID outputRoot
                blockHash,.error .invalidBlockReplacement)
          else ({ s with store },.error (.hazard e))

def singleRoundConsolidation (s : ConsolidateState P) :
    ConsolidateState P × Except (InteropError P) Unit :=
  match s.chains with
  | [] => (s,.error (.panic .indexOutOfRange))
  | first::_ =>
    match boot.configs.dependencySet first.chainID with
    | none => (s,.error (.noDependencySet first.chainID))
    | some depSet =>
      match checks.newCheckDeps depSet boot.configs s.pendingProgress s.chains s.store with
      | .error e => (s,.error (.other e))
      | .ok deps => checkChains tasks checks boot deps s 0 s.chains

def consolidationRound (s : ConsolidateState P) :
    Except (InteropError P) (ConsolidateState P ⊕ ConsolidateState P) :=
  match singleRoundConsolidation tasks checks boot s with
  | (s,.ok ()) => .ok (.inr s)
  | (s,.error .invalidBlockReplacement) => .ok (.inl s)
  | (_,.error e) => .error e

def newConsolidateState (state : TransitionState) (superRoot : SuperV1) : ConsolidateState P :=
  ⟨state.pendingProgress,[],superRoot.chains,checks.emptyStore⟩

/-- Each replacement is of another chain, so there is a last round among the first `n + 1` of `n`
chains. -/
def consolidate (state : TransitionState) (superRoot : SuperV1) :
    Option (Except (InteropError P) (ConsolidateState P)) :=
  loop (consolidationRound tasks checks boot) (superRoot.chains.length + 1)
    (newConsolidateState checks state superRoot)

def consolidatedChains : List ChainIDAndOutput → List OptimisticBlock →
    Except (InteropError P) (List ChainIDAndOutput)
  | [],_ => .ok []
  | _::_,[] => .error (.panic .indexOutOfRange)
  | chain::chains,block::blocks => do
    let rest ← consolidatedChains chains blocks
    pure (⟨chain.chainID,block.outputRoot⟩::rest)

def runConsolidation (keccak256 : Bytes → Hash) (state : TransitionState) (superRoot : SuperV1) :
    Except (InteropError P) Hash := do
  let s ← (consolidate tasks checks boot state superRoot).getD
    (.error (.panic .endlessConsolidation))
  let chains ← consolidatedChains s.chains s.pendingProgress
  pure (SuperV1.root keccak256 ⟨superRoot.timestamp + 1,chains⟩)

def invalidTransition : Bytes := [105,110,118,97,108,105,100]

def consolidateStep : UInt64 := 127

/-- The program with the hash function, the preimages it can ask for, the task executor and the
checks of the consolidation. -/
structure Program (P : Packages) where
  keccak256 : Bytes → Hash
  preimage : Hash → Option Bytes
  tasks : TaskExecutor P
  checks : Checks P

def ofTargetError : TargetError → InteropError P
  | .genesisNotReached l2Time => .genesisNotReached l2Time
  | .divisionByZero => .panic .blockTime

namespace Program
variable (prog : Program P) (boot : BootInfo P)

def invalidTransitionHash : Hash := prog.keccak256 invalidTransition

/-- `TransitionStateByRoot`, which panics on a preimage that is no transition state. -/
def transitionStateByRoot (root : Hash) : Except (InteropError P) TransitionState :=
  match (prog.preimage root).map unmarshalTransitionState with
  | some (.ok state) => .ok state
  | _ => .error (.panic .agreedPrestate)

def parseAgreedState : Except (InteropError P) (TransitionState × SuperV1) := do
  let state ← prog.transitionStateByRoot boot.agreedPrestate
  if state.version ≠ intermediateTransitionVersion then
    throw (.incorrectOutputRootType state.version)
  let superRoot ← (unmarshalSuperRoot state.superRoot).mapError .superRoot
  pure (state,superRoot)

def deriveOptimisticBlock (superRoot : SuperV1) (state : TransitionState) :
    Except (InteropError P) OptimisticBlock := do
  let chain ← orFail (.panic .indexOutOfRange) superRoot.chains[state.step.toNat]?
  let rollupCfg ← orFail (.noRollupConfig chain.chainID) (boot.configs.rollupConfig chain.chainID)
  let l2ChainConfig ←
    orFail (.noL2ChainConfig chain.chainID) (boot.configs.chainConfig chain.chainID)
  let l1ChainID ← orFail (.panic .l1ChainID) (ChainID.fromBig rollupCfg.l1ChainID)
  let l1ChainConfig ← orFail (.noL1ChainConfig l1ChainID) (boot.configs.l1ChainConfig l1ChainID)
  let depSet ← orFail (.noDependencySet chain.chainID) (boot.configs.dependencySet chain.chainID)
  let claimedBlockNumber ←
    (rollupCfg.targetBlockNumber (superRoot.timestamp + 1)).mapError ofTargetError
  let result ← (prog.tasks.runDerivation rollupCfg l1ChainConfig depSet l2ChainConfig boot.l1Head
    chain.output claimedBlockNumber).mapError .other
  if result.head.number < claimedBlockNumber then throw .l1HeadReached
  pure ⟨result.blockHash,result.outputRoot⟩

def finalState (state : TransitionState) (progress : List OptimisticBlock) : TransitionState :=
  ⟨state.superRoot,progress,state.step + 1⟩

def stepFrom (state : TransitionState) (superRoot : SuperV1) : Except (InteropError P) Hash :=
  if state.step.toNat < superRoot.chains.length then
    match prog.deriveOptimisticBlock boot superRoot state with
    | .ok block => .ok ((finalState state (state.pendingProgress ++ [block])).hash prog.keccak256)
    | .error .l1HeadReached => .ok prog.invalidTransitionHash
    | .error e => .error e
  else if state.step = consolidateStep then
    if consolidateStep.toNat < state.pendingProgress.length then .error .invalidPrestate
    else runConsolidation prog.tasks prog.checks boot prog.keccak256 state superRoot
  else .ok ((finalState state state.pendingProgress).hash prog.keccak256)

def stateTransition : Except (InteropError P) Hash :=
  if boot.agreedPrestate = prog.invalidTransitionHash then .ok prog.invalidTransitionHash
  else do
    let (state,superRoot) ← prog.parseAgreedState boot
    if superRoot.timestamp = boot.gameTimestamp then pure boot.agreedPrestate
    else if boot.gameTimestamp < superRoot.timestamp then throw (.panic .afterGameTimestamp)
    else prog.stepFrom boot state superRoot

end Program

end OpStack.Interop
