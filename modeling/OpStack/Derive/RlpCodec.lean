import OpStack.Derive.SpanBatchTxs

namespace OpStack.Derive.RlpCodecs
open Lib Eth Lib.Rlp

/-! The transaction codecs in the RLP layout of the Ethereum specifications: one concrete
instance of `TxCodec`. -/

structure Layout (α : Type) where
  toItem : α → Item
  ofItem : Item → Option α
  ofItem_toItem : ∀ a, ofItem (toItem a) = some a

def natLayout : Layout Nat where
  toItem n := .str (natBytes n)
  ofItem
    | .str bs => some (ofBe bs)
    | .list _ => none
  ofItem_toItem n := by simp [ofBe_natBytes]

def bytesLayout : Layout Bytes where
  toItem := .str
  ofItem
    | .str bs => some bs
    | .list _ => none
  ofItem_toItem _ := rfl

def uint64Layout : Layout UInt64 where
  toItem n := natLayout.toItem n.toNat
  ofItem it := (natLayout.ofItem it).map .ofNat
  ofItem_toItem n := by simp [natLayout.ofItem_toItem]

def uint256Layout : Layout Uint256 where
  toItem n := natLayout.toItem n.toNat
  ofItem it := (natLayout.ofItem it).map (.ofNat 256)
  ofItem_toItem n := by simp [natLayout.ofItem_toItem]

def fixedLayout (n : Nat) : Layout (FixedBytes n) where
  toItem f := .str f.bytes
  ofItem it := (bytesLayout.ofItem it).bind (FixedBytes.ofBytes? n)
  ofItem_toItem f := by simp [bytesLayout]

/-- A missing recipient is the empty string. -/
def toLayout : Layout (Option Address) where
  toItem a := .str (a.elim [] FixedBytes.bytes)
  ofItem it := (bytesLayout.ofItem it).bind fun bs =>
    if bs = [] then some none else (FixedBytes.ofBytes? 20 bs).map some
  ofItem_toItem a := by
    cases a with
    | none => simp [bytesLayout]
    | some a =>
      have hne : a.bytes ≠ [] := by
        intro he
        have hs := a.size
        simp [he] at hs
      simp [bytesLayout,hne]

def ofItems {α : Type} (l : Layout α) : List Item → Option (List α)
  | [] => some []
  | it::its => (l.ofItem it).bind fun a => (ofItems l its).map (a::·)

def listLayout {α : Type} (l : Layout α) : Layout (List α) where
  toItem as := .list (as.map l.toItem)
  ofItem
    | .list its => ofItems l its
    | .str _ => none
  ofItem_toItem as := by
    induction as with
    | nil => rfl
    | cons a as ih =>
      simp only [List.map_cons,ofItems,l.ofItem_toItem]
      simp only at ih
      rw [ih]
      rfl

def accessTupleLayout : Layout AccessTuple where
  toItem t := .list [(fixedLayout 20).toItem t.address,
    (listLayout (fixedLayout 32)).toItem t.storageKeys]
  ofItem
    | .list [a,ks] => do
      let address ← (fixedLayout 20).ofItem a
      let storageKeys ← (listLayout (fixedLayout 32)).ofItem ks
      pure ⟨address,storageKeys⟩
    | _ => none
  ofItem_toItem t := by simp [Layout.ofItem_toItem]

def accessListLayout : Layout (List AccessTuple) := listLayout accessTupleLayout

def authorizationLayout : Layout SetCodeAuthorization where
  toItem a := .list [uint256Layout.toItem a.chainID,(fixedLayout 20).toItem a.address,
    uint64Layout.toItem a.nonce,natLayout.toItem a.v.toNat,uint256Layout.toItem a.r,
    uint256Layout.toItem a.s]
  ofItem
    | .list [c,a,n,v,r,s] => do
      let chainID ← uint256Layout.ofItem c
      let address ← (fixedLayout 20).ofItem a
      let nonce ← uint64Layout.ofItem n
      let v ← natLayout.ofItem v
      let r ← uint256Layout.ofItem r
      let s ← uint256Layout.ofItem s
      pure ⟨chainID,address,nonce,.ofNat v,r,s⟩
    | _ => none
  ofItem_toItem a := by simp [Layout.ofItem_toItem]

/-- A struct is the list of its fields. -/
structure StructLayout (α : Type) where
  fields : α → List Item
  ofFields : List Item → Option α
  ofFields_fields : ∀ a, ofFields (fields a) = some a

namespace StructLayout
variable {α : Type} (l : StructLayout α)

def encode (a : α) : Bytes := Rlp.encode (.list (l.fields a))

def decode (bs : Bytes) : Option α :=
  match Rlp.decode bs with
  | some (.list its) => l.ofFields its
  | _ => none

def codec : RlpCodec α := ⟨l.encode,l.decode⟩

end StructLayout

def legacyData : StructLayout SpanBatchLegacyTxData where
  fields d := [natLayout.toItem d.value,natLayout.toItem d.gasPrice,bytesLayout.toItem d.data]
  ofFields
    | [value,gasPrice,data] => do
      let value ← natLayout.ofItem value
      let gasPrice ← natLayout.ofItem gasPrice
      let data ← bytesLayout.ofItem data
      pure { value, gasPrice, data }
    | _ => none
  ofFields_fields d := by simp [Layout.ofItem_toItem]

def accessListData : StructLayout SpanBatchAccessListTxData where
  fields d := [natLayout.toItem d.value,natLayout.toItem d.gasPrice,bytesLayout.toItem d.data,
    accessListLayout.toItem d.accessList]
  ofFields
    | [value,gasPrice,data,accessList] => do
      let value ← natLayout.ofItem value
      let gasPrice ← natLayout.ofItem gasPrice
      let data ← bytesLayout.ofItem data
      let accessList ← accessListLayout.ofItem accessList
      pure { value, gasPrice, data, accessList }
    | _ => none
  ofFields_fields d := by simp [Layout.ofItem_toItem]

def dynamicFeeData : StructLayout SpanBatchDynamicFeeTxData where
  fields d := [natLayout.toItem d.value,natLayout.toItem d.gasTipCap,natLayout.toItem d.gasFeeCap,
    bytesLayout.toItem d.data,accessListLayout.toItem d.accessList]
  ofFields
    | [value,gasTipCap,gasFeeCap,data,accessList] => do
      let value ← natLayout.ofItem value
      let gasTipCap ← natLayout.ofItem gasTipCap
      let gasFeeCap ← natLayout.ofItem gasFeeCap
      let data ← bytesLayout.ofItem data
      let accessList ← accessListLayout.ofItem accessList
      pure { value, gasTipCap, gasFeeCap, data, accessList }
    | _ => none
  ofFields_fields d := by simp [Layout.ofItem_toItem]

def setCodeData : StructLayout SpanBatchSetCodeTxData where
  fields d := [uint256Layout.toItem d.value,uint256Layout.toItem d.gasTipCap,
    uint256Layout.toItem d.gasFeeCap,bytesLayout.toItem d.data,
    accessListLayout.toItem d.accessList,
    (listLayout authorizationLayout).toItem d.authorizationList]
  ofFields
    | [value,gasTipCap,gasFeeCap,data,accessList,authorizationList] => do
      let value ← uint256Layout.ofItem value
      let gasTipCap ← uint256Layout.ofItem gasTipCap
      let gasFeeCap ← uint256Layout.ofItem gasFeeCap
      let data ← bytesLayout.ofItem data
      let accessList ← accessListLayout.ofItem accessList
      let authorizationList ← (listLayout authorizationLayout).ofItem authorizationList
      pure { value, gasTipCap, gasFeeCap, data, accessList, authorizationList }
    | _ => none
  ofFields_fields d := by simp [Layout.ofItem_toItem]

def legacyTx : StructLayout LegacyTx where
  fields tx := [uint64Layout.toItem tx.nonce,natLayout.toItem tx.gasPrice,
    uint64Layout.toItem tx.gas,toLayout.toItem tx.toAddr,natLayout.toItem tx.value,
    bytesLayout.toItem tx.data,natLayout.toItem tx.v,natLayout.toItem tx.r,natLayout.toItem tx.s]
  ofFields
    | [nonce,gasPrice,gas,toAddr,value,data,v,r,s] => do
      let nonce ← uint64Layout.ofItem nonce
      let gasPrice ← natLayout.ofItem gasPrice
      let gas ← uint64Layout.ofItem gas
      let toAddr ← toLayout.ofItem toAddr
      let value ← natLayout.ofItem value
      let data ← bytesLayout.ofItem data
      let v ← natLayout.ofItem v
      let r ← natLayout.ofItem r
      let s ← natLayout.ofItem s
      pure { nonce, gasPrice, gas, toAddr, value, data, v, r, s }
    | _ => none
  ofFields_fields tx := by simp [Layout.ofItem_toItem]

def accessListTx : StructLayout AccessListTx where
  fields tx := [natLayout.toItem tx.chainID,uint64Layout.toItem tx.nonce,
    natLayout.toItem tx.gasPrice,uint64Layout.toItem tx.gas,toLayout.toItem tx.toAddr,
    natLayout.toItem tx.value,bytesLayout.toItem tx.data,accessListLayout.toItem tx.accessList,
    natLayout.toItem tx.v,natLayout.toItem tx.r,natLayout.toItem tx.s]
  ofFields
    | [chainID,nonce,gasPrice,gas,toAddr,value,data,accessList,v,r,s] => do
      let chainID ← natLayout.ofItem chainID
      let nonce ← uint64Layout.ofItem nonce
      let gasPrice ← natLayout.ofItem gasPrice
      let gas ← uint64Layout.ofItem gas
      let toAddr ← toLayout.ofItem toAddr
      let value ← natLayout.ofItem value
      let data ← bytesLayout.ofItem data
      let accessList ← accessListLayout.ofItem accessList
      let v ← natLayout.ofItem v
      let r ← natLayout.ofItem r
      let s ← natLayout.ofItem s
      pure { chainID, nonce, gasPrice, gas, toAddr, value, data, accessList, v, r, s }
    | _ => none
  ofFields_fields tx := by simp [Layout.ofItem_toItem]

def dynamicFeeTx : StructLayout DynamicFeeTx where
  fields tx := [natLayout.toItem tx.chainID,uint64Layout.toItem tx.nonce,
    natLayout.toItem tx.gasTipCap,natLayout.toItem tx.gasFeeCap,uint64Layout.toItem tx.gas,
    toLayout.toItem tx.toAddr,natLayout.toItem tx.value,bytesLayout.toItem tx.data,
    accessListLayout.toItem tx.accessList,natLayout.toItem tx.v,natLayout.toItem tx.r,
    natLayout.toItem tx.s]
  ofFields
    | [chainID,nonce,gasTipCap,gasFeeCap,gas,toAddr,value,data,accessList,v,r,s] => do
      let chainID ← natLayout.ofItem chainID
      let nonce ← uint64Layout.ofItem nonce
      let gasTipCap ← natLayout.ofItem gasTipCap
      let gasFeeCap ← natLayout.ofItem gasFeeCap
      let gas ← uint64Layout.ofItem gas
      let toAddr ← toLayout.ofItem toAddr
      let value ← natLayout.ofItem value
      let data ← bytesLayout.ofItem data
      let accessList ← accessListLayout.ofItem accessList
      let v ← natLayout.ofItem v
      let r ← natLayout.ofItem r
      let s ← natLayout.ofItem s
      pure { chainID, nonce, gasTipCap, gasFeeCap, gas, toAddr, value, data, accessList, v, r, s }
    | _ => none
  ofFields_fields tx := by simp [Layout.ofItem_toItem]

def setCodeTx : StructLayout SetCodeTx where
  fields tx := [uint256Layout.toItem tx.chainID,uint64Layout.toItem tx.nonce,
    uint256Layout.toItem tx.gasTipCap,uint256Layout.toItem tx.gasFeeCap,
    uint64Layout.toItem tx.gas,(fixedLayout 20).toItem tx.toAddr,uint256Layout.toItem tx.value,
    bytesLayout.toItem tx.data,accessListLayout.toItem tx.accessList,
    (listLayout authorizationLayout).toItem tx.authList,uint256Layout.toItem tx.v,
    uint256Layout.toItem tx.r,uint256Layout.toItem tx.s]
  ofFields
    | [chainID,nonce,gasTipCap,gasFeeCap,gas,toAddr,value,data,accessList,authList,v,r,s] => do
      let chainID ← uint256Layout.ofItem chainID
      let nonce ← uint64Layout.ofItem nonce
      let gasTipCap ← uint256Layout.ofItem gasTipCap
      let gasFeeCap ← uint256Layout.ofItem gasFeeCap
      let gas ← uint64Layout.ofItem gas
      let toAddr ← (fixedLayout 20).ofItem toAddr
      let value ← uint256Layout.ofItem value
      let data ← bytesLayout.ofItem data
      let accessList ← accessListLayout.ofItem accessList
      let authList ← (listLayout authorizationLayout).ofItem authList
      let v ← uint256Layout.ofItem v
      let r ← uint256Layout.ofItem r
      let s ← uint256Layout.ofItem s
      pure
        { chainID, nonce, gasTipCap, gasFeeCap, gas, toAddr, value, data, accessList, authList,
          v, r, s }
    | _ => none
  ofFields_fields tx := by simp [Layout.ofItem_toItem]

def marshalBinary : Transaction → Bytes
  | .legacy tx => legacyTx.encode tx
  | .accessList tx => 1::accessListTx.encode tx
  | .dynamicFee tx => 2::dynamicFeeTx.encode tx
  | .setCode tx => 4::setCodeTx.encode tx
  | .other tx => [tx.txType]

def unmarshalBinary (bs : Bytes) : Option Transaction :=
  match bs with
  | [] => none
  | b::payload =>
    if 0x7f < b then (legacyTx.decode bs).map .legacy
    else if b = 1 then (accessListTx.decode payload).map .accessList
    else if b = 2 then (dynamicFeeTx.decode payload).map .dynamicFee
    else if b = 4 then (setCodeTx.decode payload).map .setCode
    else none

def stream : RlpStream where
  kind limit bs :=
    match head bs with
    | none => .error .other
    | some (kind,skip,size) => if limit < skip + size then .error .valueTooLarge else .ok kind
  raw limit bs :=
    match head bs with
    | none => .error .other
    | some (_,skip,size) =>
      if limit < skip + size then .error .valueTooLarge
      else if bs.length < skip + size then .error .other
      else .ok (bs.take (skip + size),bs.drop (skip + size))

def txCodec : TxCodec where
  marshalBinary := marshalBinary
  unmarshalBinary := unmarshalBinary
  legacy := legacyData.codec
  accessList := accessListData.codec
  dynamicFee := dynamicFeeData.codec
  setCode := setCodeData.codec
  stream := stream

end OpStack.Derive.RlpCodecs
