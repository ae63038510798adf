import OpStack.Eth.Types
import OpStack.Lib.Outcome

namespace OpStack.Derive
open Eth Lib

/-- What is read of a log. -/
structure DepositLog where
  topics : List Hash
  data : Bytes
  blockHash : Hash
  index : UInt64

structure DepositTx where
  sourceHash : Hash
  sender : Address
  recipient : Option Address
  mint : Option Nat
  value : Nat
  gas : UInt64
  isSystemTransaction : Bool
  data : Bytes

/-- `outOfRange` is where the program would stop: a slice that is not there. -/
inductive DepositError where
  | outOfRange
  | topicCount (n : Nat)
  | selector (topic : Hash)
  | header (length : Nat)
  | unaligned (length : Nat)
  | contentOffset (offset : UInt64)
  | contentLength (length : UInt64)
  | version (version : Hash)
  | opaqueLength (length : Nat)
  | gas
  | mintTooLarge
  | valueTooLarge

variable (keccak256 : Bytes → Hash)

def depositEventABIHash : Hash :=
  keccak256 "TransactionDeposited(address,address,uint256,bytes)".toUTF8.data.toList

def depositEventVersion0 : Hash := .fill 32 0

/-- `UserDepositSource.SourceHash`. -/
def userDepositSourceHash (l1BlockHash : Hash) (logIndex : UInt64) : Hash :=
  let depositIDHash := keccak256 (l1BlockHash.bytes ++ beBytes 32 logIndex.toNat)
  keccak256 (beBytes 32 0 ++ depositIDHash.bytes)

def addressAsLeftPaddedHash (addr : Address) : Hash :=
  ⟨List.replicate 12 0 ++ addr.bytes,by simp [addr.size]⟩

def topicAddress (topic : Hash) : Address := ⟨topic.bytes.drop 12,by simp [topic.size]⟩

def slice (lo hi : Nat) (bs : Bytes) : Except DepositError Bytes :=
  if lo ≤ hi ∧ hi ≤ bs.length then .ok ((bs.drop lo).take (hi - lo)) else .error .outOfRange

def unmarshalDepositVersion0 (dep : DepositTx) (recipient : Address) (opaqueData : Bytes) :
    Except DepositError DepositTx :=
  if opaqueData.length < 73 then .error (.opaqueLength opaqueData.length) else do
  let mint := ofBe (← slice 0 32 opaqueData)
  let value := ofBe (← slice 32 64 opaqueData)
  let gas := ofBe (← slice 64 72 opaqueData)
  if 2 ^ 64 ≤ gas then .error .gas else
  let isCreation ← slice 72 73 opaqueData
  let data ← slice 73 opaqueData.length opaqueData
  return { dep with
    mint := if mint = 0 then none else some mint
    value := value
    gas := .ofNat gas
    recipient := if isCreation = [0] then some recipient else none
    data := data }

def unmarshalDepositLogEvent (ev : DepositLog) : Except DepositError DepositTx :=
  match ev.topics with
  | [selector,sender,recipient,version] =>
    if selector ≠ depositEventABIHash keccak256 then .error (.selector selector) else
    if ev.data.length < 64 then .error (.header ev.data.length) else
    if ev.data.length % 32 ≠ 0 then .error (.unaligned ev.data.length) else do
    let offset := ofBe (← slice 0 32 ev.data)
    if 2 ^ 64 ≤ offset ∨ offset ≠ 32 then .error (.contentOffset (.ofNat offset)) else
    let length := ofBe (← slice 32 64 ev.data)
    let rest : UInt64 := .ofNat (ev.data.length - 64)
    if 2 ^ 64 ≤ length ∨ rest < .ofNat length ∨ .ofNat length + 32 ≤ rest then
      .error (.contentLength (.ofNat length)) else
    let opaqueData ← slice 64 (64 + .ofNat length : UInt64).toNat ev.data
    if version ≠ depositEventVersion0 then .error (.version version) else
    unmarshalDepositVersion0 ⟨userDepositSourceHash keccak256 ev.blockHash ev.index,
      topicAddress sender,none,none,0,0,false,[]⟩ (topicAddress recipient) opaqueData
  | topics => .error (.topicCount topics.length)

def marshalDepositVersion0 (deposit : DepositTx) : Except DepositError Bytes :=
  if 2 ^ 256 ≤ deposit.mint.getD 0 then .error .mintTooLarge else
  if 2 ^ 256 ≤ deposit.value then .error .valueTooLarge else
  .ok (beBytes 32 (deposit.mint.getD 0) ++ beBytes 32 deposit.value ++
    beBytes 8 deposit.gas.toNat ++ [if deposit.recipient = none then 1 else 0] ++ deposit.data)

/-- The zeros that fill the last word of `n` bytes. -/
def padding (n : Nat) : Bytes := if n % 32 = 0 then [] else .replicate (32 - n % 32) 0

def marshalDepositLogEvent (deposit : DepositTx) : Except DepositError DepositLog := do
  let toBytes := deposit.recipient.elim (.fill 32 0) addressAsLeftPaddedHash
  let opaqueData ← marshalDepositVersion0 deposit
  let data := beBytes 32 32 ++ beBytes 32 (opaqueData.length % 2 ^ 64) ++ opaqueData
  return ⟨[depositEventABIHash keccak256,addressAsLeftPaddedHash deposit.sender,toBytes,
    depositEventVersion0],data ++ padding data.length,.fill 32 0,0⟩

end OpStack.Derive
