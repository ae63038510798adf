import OpStack.Eth.Types

namespace OpStack.Rollup
open Eth

inductive Fork where
  | bedrock | regolith | canyon | delta | ecotone | fjord | granite | holocene | isthmus | jovian
  | karst | interop
  deriving DecidableEq

def scheduleableForks : List Fork :=
  [.regolith,.canyon,.delta,.ecotone,.fjord,.granite,.holocene,.isthmus,.jovian,.karst,.interop]

structure SystemConfig where
  batcherAddr : Address
  scalar : FixedBytes 32
  gasLimit : UInt64

def SystemConfig.zero : SystemConfig := ⟨.fill 20 0,.fill 32 0,0⟩

structure Genesis where
  l1 : BlockID
  l2 : BlockID
  l2Time : UInt64
  systemConfig : SystemConfig

inductive CommitmentType where
  | keccak
  | generic
  | unknown
  deriving DecidableEq

structure AltDAConfig where
  daChallengeAddress : Address
  daChallengeWindow : UInt64
  daResolveWindow : UInt64
  commitmentType : CommitmentType

structure Config where
  genesis : Genesis
  blockTime : UInt64
  maxSequencerDrift : UInt64
  seqWindowSize : UInt64
  channelTimeoutBedrock : UInt64
  l1ChainID : Option Int
  l2ChainID : Option Int
  regolithTime : Option UInt64 := none
  canyonTime : Option UInt64 := none
  deltaTime : Option UInt64 := none
  ecotoneTime : Option UInt64 := none
  fjordTime : Option UInt64 := none
  graniteTime : Option UInt64 := none
  holoceneTime : Option UInt64 := none
  isthmusTime : Option UInt64 := none
  jovianTime : Option UInt64 := none
  karstTime : Option UInt64 := none
  interopTime : Option UInt64 := none
  batchInboxAddress : Address
  depositContractAddress : Address
  altDAConfig : Option AltDAConfig := none

inductive ConfigError where
  | blockTimeZero | missingChannelTimeout | invalidSeqWindowSize | invalidMaxSeqDrift
  | missingGenesisL1Hash | missingGenesisL2Hash | genesisHashesSame | missingGenesisL2Time
  | missingBatcherAddr | missingScalar | missingGasLimit | missingBatchInboxAddress
  | missingDepositContractAddress | missingL1ChainID | missingL2ChainID | chainIDsSame
  | l1ChainIDNotPositive | l2ChainIDNotPositive | invalidCommitmentType
  | challengeAddressRequired | challengeAddressForbidden
  | priorForkMissing (fork prior : Fork)
  | priorForkLater (fork prior : Fork)
  deriving DecidableEq

inductive TargetError where
  | genesisNotReached (l2Time : UInt64)
  | divisionByZero
  deriving DecidableEq

namespace Config

/-- Bedrock has no activation time: it is always active and never scheduled. -/
def activationTime (c : Config) : Fork → Option UInt64
  | .bedrock => none
  | .regolith => c.regolithTime
  | .canyon => c.canyonTime
  | .delta => c.deltaTime
  | .ecotone => c.ecotoneTime
  | .fjord => c.fjordTime
  | .granite => c.graniteTime
  | .holocene => c.holoceneTime
  | .isthmus => c.isthmusTime
  | .jovian => c.jovianTime
  | .karst => c.karstTime
  | .interop => c.interopTime

def isForkActive (c : Config) (fork : Fork) (timestamp : UInt64) : Bool :=
  (c.activationTime fork).any (· ≤ timestamp)

def isCanyon (c : Config) := c.isForkActive .canyon
def isDelta (c : Config) := c.isForkActive .delta
def isFjord (c : Config) := c.isForkActive .fjord
def isGranite (c : Config) := c.isForkActive .granite
def isHolocene (c : Config) := c.isForkActive .holocene
def isIsthmus (c : Config) := c.isForkActive .isthmus
def isInterop (c : Config) := c.isForkActive .interop

def isActivationBlockForFork (c : Config) (fork : Fork) (l2BlockTime : UInt64) : Bool :=
  c.isForkActive fork l2BlockTime && c.blockTime ≤ l2BlockTime &&
    !c.isForkActive fork (l2BlockTime - c.blockTime)

/-- The first fork in chronological order that activates between the two times; there may be
more. -/
def isActivationBlock (c : Config) (oldTime newTime : UInt64) : Option Fork :=
  scheduleableForks.find? fun fork => c.isForkActive fork newTime && !c.isForkActive fork oldTime

def maxSequencerDriftFjord : UInt64 := 1800

def maxSequencerDriftAt (c : Config) (t : UInt64) : UInt64 :=
  if c.isFjord t then maxSequencerDriftFjord else c.maxSequencerDrift

def channelTimeoutGranite : UInt64 := 50

def channelTimeoutAt (c : Config) (t : UInt64) : UInt64 :=
  if c.isGranite t then channelTimeoutGranite else c.channelTimeoutBedrock

def maxRLPBytesPerChannelBedrock : UInt64 := 10000000
def maxRLPBytesPerChannelFjord : UInt64 := 100000000

def maxRLPBytesPerChannelAt (c : Config) (t : UInt64) : UInt64 :=
  if c.isFjord t then maxRLPBytesPerChannelFjord else maxRLPBytesPerChannelBedrock

def maxChannelBankSizeBedrock : UInt64 := 100000000
def maxChannelBankSizeFjord : UInt64 := 1000000000

def maxChannelBankSizeAt (c : Config) (t : UInt64) : UInt64 :=
  if c.isFjord t then maxChannelBankSizeFjord else maxChannelBankSizeBedrock

def timestampForBlock (c : Config) (blockNumber : UInt64) : UInt64 :=
  c.genesis.l2Time + (blockNumber - c.genesis.l2.number) * c.blockTime

def targetBlockNumber (c : Config) (timestamp : UInt64) : Except TargetError UInt64 :=
  if timestamp < c.genesis.l2Time then .error (.genesisNotReached c.genesis.l2Time)
  else if c.blockTime = 0 then .error .divisionByZero
  else .ok (c.genesis.l2.number + (timestamp - c.genesis.l2Time) / c.blockTime)

def checkFork (a b : Option UInt64) (aName bName : Fork) : Except ConfigError Unit :=
  match a,b with
  | none,some _ => .error (.priorForkMissing bName aName)
  | some a,some b => if b < a then .error (.priorForkLater bName aName) else .ok ()
  | _,none => .ok ()

/-- The number of L1 blocks to walk back. In alt-DA mode the longest window is that of a challenge
and its resolution. -/
def syncLookback (c : Config) : UInt64 :=
  match c.altDAConfig with
  | none => c.seqWindowSize
  | some alt =>
    let win := alt.daChallengeWindow + alt.daResolveWindow
    if c.seqWindowSize < win then win else c.seqWindowSize

def validateAltDAConfig (c : Config) : Except ConfigError Unit :=
  match c.altDAConfig with
  | none => .ok ()
  | some alt =>
    match alt.commitmentType with
    | .unknown => .error .invalidCommitmentType
    | .keccak =>
      if alt.daChallengeAddress = .fill 20 0 then .error .challengeAddressRequired else .ok ()
    | .generic =>
      if alt.daChallengeAddress ≠ .fill 20 0 then .error .challengeAddressForbidden else .ok ()

def checkParams (c : Config) : Except ConfigError Unit := do
  if c.blockTime = 0 then throw .blockTimeZero
  if c.channelTimeoutBedrock = 0 then throw .missingChannelTimeout
  if c.seqWindowSize < 2 then throw .invalidSeqWindowSize
  if c.maxSequencerDrift = 0 then throw .invalidMaxSeqDrift
  if c.genesis.l1.hash = .fill 32 0 then throw .missingGenesisL1Hash
  if c.genesis.l2.hash = .fill 32 0 then throw .missingGenesisL2Hash
  if c.genesis.l2.hash = c.genesis.l1.hash then throw .genesisHashesSame
  if c.genesis.l2Time = 0 then throw .missingGenesisL2Time
  if c.genesis.systemConfig.batcherAddr = .fill 20 0 then throw .missingBatcherAddr
  if c.genesis.systemConfig.scalar = .fill 32 0 then throw .missingScalar
  if c.genesis.systemConfig.gasLimit = 0 then throw .missingGasLimit
  if c.batchInboxAddress = .fill 20 0 then throw .missingBatchInboxAddress
  if c.depositContractAddress = .fill 20 0 then throw .missingDepositContractAddress

def checkChainIDs (c : Config) : Except ConfigError Unit :=
  match c.l1ChainID,c.l2ChainID with
  | none,_ => .error .missingL1ChainID
  | some _,none => .error .missingL2ChainID
  | some l1,some l2 =>
    if l1 = l2 then .error .chainIDsSame
    else if l1 < 1 then .error .l1ChainIDNotPositive
    else if l2 < 1 then .error .l2ChainIDNotPositive
    else .ok ()

def checkForks (c : Config) : Except ConfigError Unit := do
  checkFork c.regolithTime c.canyonTime .regolith .canyon
  checkFork c.canyonTime c.deltaTime .canyon .delta
  checkFork c.deltaTime c.ecotoneTime .delta .ecotone
  checkFork c.ecotoneTime c.fjordTime .ecotone .fjord
  checkFork c.fjordTime c.graniteTime .fjord .granite
  checkFork c.graniteTime c.holoceneTime .granite .holocene
  checkFork c.holoceneTime c.isthmusTime .holocene .isthmus

def check (c : Config) : Except ConfigError Unit := do
  c.checkParams
  c.checkChainIDs
  c.validateAltDAConfig
  c.checkForks

end Config
end OpStack.Rollup
