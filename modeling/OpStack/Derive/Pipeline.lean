import OpStack.Derive.BatchStage
import OpStack.Derive.L1Traversal

namespace OpStack.Derive
open Eth Rollup

inductive RawChannelProvider where
  | channelBank
  | channelAssembler
  deriving DecidableEq

/-- The active stage of the batch mux. Both stages embed the base batch stage. -/
inductive SingularBatchProvider where
  | batchQueue (base : BatchStage)
  | batchStage (base : BatchStage)
  deriving DecidableEq

namespace RawChannelProvider

/-- `ChannelMux.Reset`, which swaps the active stage on demand. -/
def reset (cfg : Config) (base : L1BlockRef) : RawChannelProvider :=
  if cfg.isHolocene base.time then .channelAssembler else .channelBank

/-- `ChannelMux.TransformHolocene`; there is no result where it panics. -/
def transformHolocene : Option RawChannelProvider → Option RawChannelProvider
  | some .channelBank => some .channelAssembler
  | some .channelAssembler => none
  | none => none

def transform (fork : Fork) (c : Option RawChannelProvider) : Option (Option RawChannelProvider) :=
  match fork with
  | .holocene => (transformHolocene c).map some
  | _ => some c

end RawChannelProvider

namespace SingularBatchProvider

def reset (cfg : Config) (base : L1BlockRef) : SingularBatchProvider :=
  if cfg.isHolocene base.time then .batchStage (BatchStage.reset base)
  else .batchQueue (BatchStage.reset base)

/-- `BatchMux.TransformHolocene`. The new stage keeps the L1 blocks of the old one and drops its
span batch. -/
def transformHolocene : Option SingularBatchProvider → Option SingularBatchProvider
  | some (.batchQueue base) => some (.batchStage { base with nextSpan := [] })
  | some (.batchStage _) => none
  | none => none

def transform (fork : Fork) (b : Option SingularBatchProvider) :
    Option (Option SingularBatchProvider) :=
  match fork with
  | .holocene => (transformHolocene b).map some
  | _ => some b

def mapBase (f : BatchStage → BatchStage) : SingularBatchProvider → SingularBatchProvider
  | .batchQueue base => .batchQueue (f base)
  | .batchStage base => .batchStage (f base)

end SingularBatchProvider

inductive NextAttributes where
  | attributes
  | error (e : PipelineError)

/-- What one call of `Step` gets from outside the control flow: the answers of the nodes, the
results of resetting the stages that can fail, and what the stages make of a request for attributes.
-/
structure StepEnv where
  l1 : L1Fetcher
  l2BlockRefByHash : Hash → Option L2BlockRef
  systemConfigByL2Hash : Hash → Option SystemConfig
  /-- The results of `L1Retrieval.Reset` and `AltDAInputFetcher.Reset`; `eof` is success. -/
  resetL1Retrieval : PipelineError
  resetAltDA : Option PipelineError
  /-- Whether the stages took the current block from the traversal. -/
  readL1Block : Bool
  workOnBatches : BatchStage → BatchStage
  nextAttributes : NextAttributes

structure DerivationPipeline where
  resetting : Nat
  traversal : L1Traversal
  channelMux : Option RawChannelProvider
  batchMux : Option SingularBatchProvider
  origin : L1BlockRef
  resetL2Safe : L2BlockRef
  resetSysConfig : SystemConfig
  engineIsReset : Bool

inductive StepResult where
  | attributes
  | again
  | error (e : PipelineError)
  | panic
  deriving DecidableEq

namespace DerivationPipeline

inductive Stage where
  | l1Traversal | l1Src | altDA | frameQueue | channelMux | chInReader | batchMux | attributesQueue

def stages : List Stage :=
  [.l1Traversal,.l1Src,.altDA,.frameQueue,.channelMux,.chInReader,.batchMux,.attributesQueue]

def newDerivationPipeline : DerivationPipeline where
  resetting := 0
  traversal := ⟨.zero,false,SystemConfig.zero⟩
  channelMux := none
  batchMux := none
  origin := .zero
  resetL2Safe := .zero
  resetSysConfig := SystemConfig.zero
  engineIsReset := false

def derivationReady (dp : DerivationPipeline) : Bool :=
  dp.engineIsReset && stages.length ≤ dp.resetting

def reset (dp : DerivationPipeline) : DerivationPipeline :=
  { dp with
    resetting := 0, resetSysConfig := SystemConfig.zero, resetL2Safe := .zero,
    engineIsReset := false }

def confirmEngineReset (dp : DerivationPipeline) : DerivationPipeline :=
  { dp with engineIsReset := true }

/-- The walk back along the L2 chain to an origin old enough to buffer channel data from. It has no
result when the fuel runs out. -/
def walkBack (cfg : Config) (env : StepEnv) (l1Origin : BlockID) :
    Nat → L2BlockRef → L1BlockRef → Option (Except PipelineError (L2BlockRef × L1BlockRef))
  | 0,_,_ => none
  | fuel+1,pipelineL2,pipelineOrigin =>
    let afterL2Genesis := cfg.genesis.l2.number < pipelineL2.number
    let afterL1Genesis := cfg.genesis.l1.number < pipelineL2.l1Origin.number
    let afterChannelTimeout :=
      l1Origin.number < pipelineL2.l1Origin.number + cfg.channelTimeoutAt pipelineOrigin.time
    if afterL2Genesis ∧ afterL1Genesis ∧ afterChannelTimeout then
      match env.l2BlockRefByHash pipelineL2.parentHash with
      | none => some (.error .reset)
      | some parent =>
        match env.l1.blockByHash parent.l1Origin.hash with
        | none => some (.error .temporary)
        | some origin => walkBack cfg env l1Origin fuel parent origin
    else some (.ok (pipelineL2,pipelineOrigin))

def initialReset (cfg : Config) (env : StepEnv) (fuel : Nat) (resetL2Safe : L2BlockRef)
    (dp : DerivationPipeline) : Option (DerivationPipeline × Option PipelineError) :=
  match env.l1.blockByHash resetL2Safe.l1Origin.hash with
  | none => some (dp,some .temporary)
  | some pipelineOrigin =>
    match walkBack cfg env resetL2Safe.l1Origin fuel resetL2Safe pipelineOrigin with
    | none => none
    | some (.error e) => some (dp,some e)
    | some (.ok (pipelineL2,origin)) =>
      match env.systemConfigByL2Hash pipelineL2.hash with
      | none => some (dp,some .temporary)
      | some sysCfg => some ({ dp with origin, resetSysConfig := sysCfg, resetL2Safe },none)

def resetStage (cfg : Config) (env : StepEnv) (stage : Stage) (dp : DerivationPipeline) :
    DerivationPipeline × Option PipelineError :=
  match stage with
  | .l1Traversal =>
    ({ dp with traversal := L1Traversal.reset dp.origin dp.resetSysConfig },some .eof)
  | .l1Src => (dp,some env.resetL1Retrieval)
  | .altDA => (dp,env.resetAltDA)
  | .frameQueue => (dp,some .eof)
  | .channelMux => ({ dp with channelMux := some (.reset cfg dp.origin) },some .eof)
  | .chInReader => (dp,some .eof)
  | .batchMux => ({ dp with batchMux := some (.reset cfg dp.origin) },some .eof)
  | .attributesQueue => (dp,some .eof)

/-- The frame queue is reset as well, but keeps nothing here. There is no result where one of the
muxes panics. -/
def transformStages (cfg : Config) (oldOrigin newOrigin : L1BlockRef) (dp : DerivationPipeline) :
    Option DerivationPipeline :=
  match cfg.isActivationBlock oldOrigin.time newOrigin.time with
  | none => some dp
  | some fork => do
    let channelMux ← RawChannelProvider.transform fork dp.channelMux
    let batchMux ← SingularBatchProvider.transform fork dp.batchMux
    some { dp with channelMux, batchMux }

/-- Each stage asks the one before it for the origin, down to the traversal; a mux without an active
stage has nothing to ask. -/
def attribOrigin (dp : DerivationPipeline) : Option L1BlockRef :=
  match dp.batchMux,dp.channelMux with
  | some _,some _ => some dp.traversal.block
  | _,_ => none

def pullAttributes (env : StepEnv) (dp : DerivationPipeline) : DerivationPipeline × StepResult :=
  let traversal := if env.readL1Block then dp.traversal.nextL1Block.1 else dp.traversal
  let batchMux := dp.batchMux.map (.mapBase env.workOnBatches)
  match env.nextAttributes with
  | .attributes => ({ dp with traversal, batchMux },.attributes)
  | .error .eof =>
    match traversal.advanceL1Block env.l1 with
    | (traversal,none) => ({ dp with traversal, batchMux },.again)
    | (traversal,some e) => ({ dp with traversal, batchMux },.error e)
  | .error e => ({ dp with traversal, batchMux },.error e)

def resetNext (cfg : Config) (env : StepEnv) (stage : Stage) (dp : DerivationPipeline) :
    DerivationPipeline × StepResult :=
  match resetStage cfg env stage dp with
  | (dp,some .eof) => ({ dp with resetting := dp.resetting + 1 },.again)
  | (dp,some e) => (dp,.error e)
  | (dp,none) => (dp,.again)

def stepReset (cfg : Config) (fuel : Nat) (env : StepEnv) (pendingSafeHead : L2BlockRef)
    (stage : Stage) (dp : DerivationPipeline) : Option (DerivationPipeline × StepResult) :=
  if dp.engineIsReset = false then some (dp,.error .reset)
  else
    let initial :=
      if pendingSafeHead ≠ dp.resetL2Safe then initialReset cfg env fuel pendingSafeHead dp
      else some (dp,none)
    match initial with
    | none => none
    | some (dp,some e) => some (dp,.error e)
    | some (dp,none) => some (resetNext cfg env stage dp)

def step (cfg : Config) (fuel : Nat) (env : StepEnv) (pendingSafeHead : L2BlockRef)
    (dp : DerivationPipeline) : Option (DerivationPipeline × StepResult) :=
  match stages[dp.resetting]? with
  | some stage => stepReset cfg fuel env pendingSafeHead stage dp
  | none =>
    match attribOrigin dp with
    | none => some (dp,.panic)
    | some newOrigin =>
      if dp.origin ≠ newOrigin then
        match verifyNewL1Origin env.l1 dp.origin newOrigin with
        | some e => some (dp,.error e)
        | none =>
          match transformStages cfg dp.origin newOrigin dp with
          | none => some (dp,.panic)
          | some dp => some (pullAttributes env { dp with origin := newOrigin })
      else some (pullAttributes env dp)

end DerivationPipeline
end OpStack.Derive
