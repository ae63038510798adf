import OpStack.Eth.Types
import OpStack.Lib.Outcome

namespace OpStack.Eth
open Lib

inductive OutputError where
  | invalidOutput
  | invalidOutputVersion
  deriving DecidableEq

structure OutputV0 where
  stateRoot : Hash
  messagePasserStorageRoot : Hash
  blockHash : Hash
  deriving DecidableEq

def outputVersionV0 : Hash := .fill 32 0

namespace OutputV0

def marshal (o : OutputV0) : Bytes :=
  outputVersionV0.bytes ++ (o.stateRoot.bytes ++ (o.messagePasserStorageRoot.bytes ++
    o.blockHash.bytes))

/-- `OutputRoot`. -/
def root (keccak256 : Bytes → Hash) (o : OutputV0) : Hash := keccak256 o.marshal

end OutputV0

def unmarshalOutputV0 (data : Bytes) : Except OutputError OutputV0 :=
  if data.length ≠ 128 then .error .invalidOutput
  else do
    let stateRoot ← orFail .invalidOutput (FixedBytes.ofBytes? 32 ((data.drop 32).take 32))
    let storageRoot ← orFail .invalidOutput (FixedBytes.ofBytes? 32 ((data.drop 64).take 32))
    let blockHash ← orFail .invalidOutput (FixedBytes.ofBytes? 32 ((data.drop 96).take 32))
    pure ⟨stateRoot,storageRoot,blockHash⟩

def unmarshalOutput (data : Bytes) : Except OutputError OutputV0 :=
  if data.length < 32 then .error .invalidOutput
  else if data.take 32 = outputVersionV0.bytes then unmarshalOutputV0 data
  else .error .invalidOutputVersion

abbrev ChainID := Uint256

instance : LawfulBEq ChainID := inferInstance

namespace ChainID

/-- `ChainIDFromBig`. There is no result where it panics: on nil and on a value of more than 256
bits. A negative value wraps. -/
def fromBig : Option Int → Option ChainID
  | none => none
  | some n => if n.natAbs < 2 ^ 256 then some (.ofInt 256 n) else none

def fromBytes32 (b : FixedBytes 32) : ChainID := .ofNat 256 (ofBe b.bytes)

def bytes32 (id : ChainID) : FixedBytes 32 := ⟨beBytes 32 id.toNat,beBytes_length 32 id.toNat⟩

@[simp] theorem fromBytes32_bytes32 (id : ChainID) : fromBytes32 (bytes32 id) = id := by
  have hlt : id.toNat < 256 ^ 32 := lt_of_lt_of_eq id.isLt (by norm_num)
  simp [fromBytes32,bytes32,ofBe_beBytes hlt]

end ChainID

inductive RootError where
  | invalidSuperRoot
  | invalidSuperRootVersion
  | rlp
  deriving DecidableEq

structure ChainIDAndOutput where
  chainID : ChainID
  output : Hash
  deriving DecidableEq

def ChainIDAndOutput.marshal (c : ChainIDAndOutput) : Bytes :=
  (ChainID.bytes32 c.chainID).bytes ++ c.output.bytes

structure SuperV1 where
  timestamp : UInt64
  chains : List ChainIDAndOutput
  deriving DecidableEq

def superRootVersionV1 : UInt8 := 1

def chainIDAndOutputLen : Nat := 64

def superRootVersionV1MinLen : Nat := 1 + 8 + chainIDAndOutputLen

def SuperV1.marshal (s : SuperV1) : Bytes :=
  superRootVersionV1 :: (beBytes 8 s.timestamp.toNat ++
    (s.chains.map ChainIDAndOutput.marshal).flatten)

def newSuperV1 (timestamp : UInt64) (chains : List ChainIDAndOutput) : SuperV1 :=
  ⟨timestamp,chains.mergeSort fun a b => a.chainID.toNat ≤ b.chainID.toNat⟩

def SuperV1.root (keccak256 : Bytes → Hash) (s : SuperV1) : Hash := keccak256 s.marshal

def bytes32Reader : Reader RootError (FixedBytes 32) := do
  let buf ← Reader.full 32 .invalidSuperRoot
  match FixedBytes.ofBytes? 32 buf with
  | some b => pure b
  | none => throw .invalidSuperRoot

def chainOutputReader : Reader RootError ChainIDAndOutput := do
  let chainID ← bytes32Reader
  let output ← bytes32Reader
  pure ⟨.fromBytes32 chainID,output⟩

def superV1Reader (count : Nat) : Reader RootError SuperV1 := do
  let timestamp ← .full 8 .invalidSuperRoot
  let chains ← .many chainOutputReader count
  pure ⟨.ofNat (ofBe timestamp),chains⟩

def unmarshalSuperRootV1 (data : Bytes) : Except RootError SuperV1 :=
  if data.length < superRootVersionV1MinLen then .error .invalidSuperRoot
  else if (data.length - 9) % chainIDAndOutputLen ≠ 0 then .error .invalidSuperRoot
  else
    match superV1Reader ((data.length - 9) / chainIDAndOutputLen) (data.drop 1) with
    | .ok (s,_) => .ok s
    | .error e => .error e

def unmarshalSuperRoot (data : Bytes) : Except RootError SuperV1 :=
  match data with
  | [] => .error .invalidSuperRoot
  | ver::_ =>
    if ver = superRootVersionV1 then unmarshalSuperRootV1 data
    else .error .invalidSuperRootVersion

/-! The answer of `supervisor_superRootAtTimestamp`. -/

structure ChainRootInfo where
  chainID : ChainID
  canonical : Hash
  pending : Bytes

structure SuperRootResponse where
  crossSafeDerivedFrom : BlockID
  timestamp : UInt64
  version : UInt8
  chains : List ChainRootInfo

def SuperRootResponse.toSuper (r : SuperRootResponse) : Except RootError SuperV1 :=
  if r.version ≠ superRootVersionV1 then .error .invalidSuperRootVersion
  else .ok (newSuperV1 r.timestamp (r.chains.map fun c => ⟨c.chainID,c.canonical⟩))

/-! The answer of `superroot_atTimestamp`. -/

structure OutputWithRequiredL1 where
  output : Option OutputV0
  outputRoot : Hash
  requiredL1 : BlockID

structure SuperRootResponseData where
  verifiedRequiredL1 : BlockID
  super : Option SuperV1

structure SuperRootAtTimestampResponse where
  currentL1 : BlockID
  optimisticAtTimestamp : ChainID → Option OutputWithRequiredL1
  chainIDs : List ChainID
  data : Option SuperRootResponseData

end OpStack.Eth
