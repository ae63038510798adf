import OpStack.Lib.Numbers

namespace OpStack.Eth
open Lib

structure FixedBytes (n : Nat) where
  bytes : Bytes
  size : bytes.length = n
  deriving DecidableEq

namespace FixedBytes

def fill (n : Nat) (b : UInt8) : FixedBytes n := ⟨List.replicate n b,List.length_replicate⟩

def first {n : Nat} (k : Nat) (h : k ≤ n) (f : FixedBytes n) : FixedBytes k :=
  ⟨f.bytes.take k,by simp [f.size,h]⟩

def ofBytes? (n : Nat) (bytes : Bytes) : Option (FixedBytes n) :=
  if h : bytes.length = n then some ⟨bytes,h⟩ else none

@[simp] theorem ofBytes?_bytes {n : Nat} (f : FixedBytes n) : ofBytes? n f.bytes = some f := by
  simp [ofBytes?,f.size]

end FixedBytes

abbrev Hash := FixedBytes 32
abbrev Address := FixedBytes 20

def Hash.check (h : Hash) : FixedBytes 20 := h.first 20 (by decide)

structure BlockID where
  hash : Hash
  number : UInt64
  deriving DecidableEq

structure L1BlockRef where
  hash : Hash
  number : UInt64
  parentHash : Hash
  time : UInt64
  deriving DecidableEq

structure L2BlockRef where
  hash : Hash
  number : UInt64
  parentHash : Hash
  time : UInt64
  l1Origin : BlockID
  sequenceNumber : UInt64
  deriving DecidableEq

def BlockID.zero : BlockID := ⟨.fill 32 0,0⟩

def L1BlockRef.zero : L1BlockRef := ⟨.fill 32 0,0,.fill 32 0,0⟩

def L2BlockRef.zero : L2BlockRef := ⟨.fill 32 0,0,.fill 32 0,0,BlockID.zero,0⟩

def L1BlockRef.id (b : L1BlockRef) : BlockID := ⟨b.hash,b.number⟩

def L2BlockRef.id (b : L2BlockRef) : BlockID := ⟨b.hash,b.number⟩

inductive Fetched (α : Type) where
  | found (a : α)
  | notFound
  | failed

abbrev Uint256 := BitVec 256

structure AccessTuple where
  address : Address
  storageKeys : List Hash

structure SetCodeAuthorization where
  chainID : Uint256
  address : Address
  nonce : UInt64
  v : UInt8
  r : Uint256
  s : Uint256

structure LegacyTx where
  nonce : UInt64
  gasPrice : Nat
  gas : UInt64
  toAddr : Option Address
  value : Nat
  data : Bytes
  v : Nat
  r : Nat
  s : Nat

structure AccessListTx where
  chainID : Nat
  nonce : UInt64
  gasPrice : Nat
  gas : UInt64
  toAddr : Option Address
  value : Nat
  data : Bytes
  accessList : List AccessTuple
  v : Nat
  r : Nat
  s : Nat

structure DynamicFeeTx where
  chainID : Nat
  nonce : UInt64
  gasTipCap : Nat
  gasFeeCap : Nat
  gas : UInt64
  toAddr : Option Address
  value : Nat
  data : Bytes
  accessList : List AccessTuple
  v : Nat
  r : Nat
  s : Nat

structure SetCodeTx where
  chainID : Uint256
  nonce : UInt64
  gasTipCap : Uint256
  gasFeeCap : Uint256
  gas : UInt64
  toAddr : Address
  value : Uint256
  data : Bytes
  accessList : List AccessTuple
  authList : List SetCodeAuthorization
  v : Uint256
  r : Uint256
  s : Uint256

/-- A transaction of a type no span batch carries (blob, deposit): only what its accessors
return before the type is rejected. -/
structure OtherTx where
  txType : UInt8
  chainID : Nat
  toAddr : Option Address
  v : Nat
  r : Nat
  s : Nat

inductive Transaction where
  | legacy (tx : LegacyTx)
  | accessList (tx : AccessListTx)
  | dynamicFee (tx : DynamicFeeTx)
  | setCode (tx : SetCodeTx)
  | other (tx : OtherTx)

def legacyTxType : Nat := 0
def accessListTxType : Nat := 1
def dynamicFeeTxType : Nat := 2
def setCodeTxType : Nat := 4

namespace Transaction

def type : Transaction → Nat
  | legacy _ => legacyTxType
  | accessList _ => accessListTxType
  | dynamicFee _ => dynamicFeeTxType
  | setCode _ => setCodeTxType
  | other tx => tx.txType.toNat

def isProtected : Transaction → Bool
  | legacy tx => tx.v ≠ 27 && tx.v ≠ 28 && tx.v ≠ 1 && tx.v ≠ 0
  | _ => true

/-- A legacy transaction's chain ID is derived from `v`, in 64-bit arithmetic where it fits. -/
def chainId : Transaction → Nat
  | legacy tx =>
    if tx.v = 27 ∨ tx.v = 28 then 0
    else if tx.v < 35 then (tx.v + 2 ^ 64 - 35) / 2
    else (tx.v - 35) / 2
  | accessList tx => tx.chainID
  | dynamicFee tx => tx.chainID
  | setCode tx => tx.chainID.toNat
  | other tx => tx.chainID

def rawSignatureValues : Transaction → Nat × Nat × Nat
  | legacy tx => (tx.v,tx.r,tx.s)
  | accessList tx => (tx.v,tx.r,tx.s)
  | dynamicFee tx => (tx.v,tx.r,tx.s)
  | setCode tx => (tx.v.toNat,tx.r.toNat,tx.s.toNat)
  | other tx => (tx.v,tx.r,tx.s)

def toAddr : Transaction → Option Address
  | legacy tx => tx.toAddr
  | accessList tx => tx.toAddr
  | dynamicFee tx => tx.toAddr
  | setCode tx => some tx.toAddr
  | other tx => tx.toAddr

def nonce : Transaction → UInt64
  | legacy tx => tx.nonce
  | accessList tx => tx.nonce
  | dynamicFee tx => tx.nonce
  | setCode tx => tx.nonce
  | other _ => 0

def gas : Transaction → UInt64
  | legacy tx => tx.gas
  | accessList tx => tx.gas
  | dynamicFee tx => tx.gas
  | setCode tx => tx.gas
  | other _ => 0

end Transaction

end OpStack.Eth
