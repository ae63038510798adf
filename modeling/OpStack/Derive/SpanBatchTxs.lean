import OpStack.Lib.Rlp
import OpStack.Eth.Types

namespace OpStack.Derive
open Lib Eth

inductive Field where
  | relTimestamp | l1OriginNum | parentCheck | l1OriginCheck | blockCount | originBits
  | blockTxCount | contractCreationBits | yParityBits | txSigR | txSigS | txTo | txInitialByte
  | txPrefix | txPayload | txNonce | txGas | protectedBits
  deriving DecidableEq

inductive SpanBatchError where
  | tooBigSpanBatchSize
  | emptySpanBatch
  | read (field : Field)
  | bitfieldTooLong (field : Field)
  | txPrefixNotList
  | typedTxTooShort
  | txTypeNotSupported
  | invalidTxType (txType : Nat)
  | failedToDecodeTx
  | failedToDecodeTxData (txType : Nat)
  | wrongChainID (got expected : Nat)
  | txSigsMismatch
  | txToNotEnough
  | toAddressRequired
  | cannotMergeEmpty
  | txsTotalOverflow
  | panic
  deriving DecidableEq

structure SpanBatchLegacyTxData where
  value : Nat
  gasPrice : Nat
  data : Bytes

structure SpanBatchAccessListTxData where
  value : Nat
  gasPrice : Nat
  data : Bytes
  accessList : List AccessTuple

structure SpanBatchDynamicFeeTxData where
  value : Nat
  gasTipCap : Nat
  gasFeeCap : Nat
  data : Bytes
  accessList : List AccessTuple

structure SpanBatchSetCodeTxData where
  value : Uint256
  gasTipCap : Uint256
  gasFeeCap : Uint256
  data : Bytes
  accessList : List AccessTuple
  authorizationList : List SetCodeAuthorization

inductive SpanBatchTx where
  | legacy (inner : SpanBatchLegacyTxData)
  | accessList (inner : SpanBatchAccessListTxData)
  | dynamicFee (inner : SpanBatchDynamicFeeTxData)
  | setCode (inner : SpanBatchSetCodeTxData)

def SpanBatchTx.type : SpanBatchTx → Nat
  | legacy _ => legacyTxType
  | accessList _ => accessListTxType
  | dynamicFee _ => dynamicFeeTxType
  | setCode _ => setCodeTxType

inductive StreamError where
  | valueTooLarge
  | other
  deriving DecidableEq

structure RlpCodec (α : Type) where
  encode : α → Bytes
  decode : Bytes → Option α

/-- An RLP stream with an input limit: the kind of the next value, and its raw bytes with what
follows them. -/
structure RlpStream where
  kind : Nat → Bytes → Except StreamError Rlp.Kind
  raw : Nat → Bytes → Except StreamError (Bytes × Bytes)

structure TxCodec where
  marshalBinary : Transaction → Bytes
  unmarshalBinary : Bytes → Option Transaction
  legacy : RlpCodec SpanBatchLegacyTxData
  accessList : RlpCodec SpanBatchAccessListTxData
  dynamicFee : RlpCodec SpanBatchDynamicFeeTxData
  setCode : RlpCodec SpanBatchSetCodeTxData
  stream : RlpStream

namespace SpanBatchTx
variable (codec : TxCodec)

def rlpEncode : SpanBatchTx → Bytes
  | legacy inner => codec.legacy.encode inner
  | accessList inner => codec.accessList.encode inner
  | dynamicFee inner => codec.dynamicFee.encode inner
  | setCode inner => codec.setCode.encode inner

def marshalBinary (tx : SpanBatchTx) : Bytes :=
  if tx.type = legacyTxType then tx.rlpEncode codec
  else UInt8.ofNat tx.type :: tx.rlpEncode codec

def decodeTyped (b : Bytes) : Except SpanBatchError SpanBatchTx :=
  match b with
  | [] | [_] => .error .typedTxTooShort
  | t::payload =>
    if t.toNat = accessListTxType then
      match codec.accessList.decode payload with
      | some inner => .ok (accessList inner)
      | none => .error (.failedToDecodeTxData accessListTxType)
    else if t.toNat = dynamicFeeTxType then
      match codec.dynamicFee.decode payload with
      | some inner => .ok (dynamicFee inner)
      | none => .error (.failedToDecodeTxData dynamicFeeTxType)
    else if t.toNat = setCodeTxType then
      match codec.setCode.decode payload with
      | some inner => .ok (setCode inner)
      | none => .error (.failedToDecodeTxData setCodeTxType)
    else .error .txTypeNotSupported

def unmarshalBinary (b : Bytes) : Except SpanBatchError SpanBatchTx :=
  match b with
  | t::_ =>
    if 0x7f < t then
      match codec.legacy.decode b with
      | some inner => .ok (legacy inner)
      | none => .error (.failedToDecodeTxData legacyTxType)
    else decodeTyped codec b
  | [] => decodeTyped codec b

/-- `uint256.MustFromBig` panics on a value of more than 256 bits. -/
def mustFromBig (n : Nat) : Except SpanBatchError Uint256 :=
  if n < 2 ^ 256 then .ok (BitVec.ofNat 256 n) else .error .panic

def convertToFullTx (tx : SpanBatchTx) (nonce gas : UInt64) (to' : Option Address)
    (chainID v r s : Nat) : Except SpanBatchError Transaction :=
  match tx with
  | legacy inner =>
    .ok (.legacy
      { nonce, gasPrice := inner.gasPrice, gas, toAddr := to', value := inner.value,
        data := inner.data, v, r, s })
  | accessList inner =>
    .ok (.accessList
      { chainID, nonce, gasPrice := inner.gasPrice, gas, toAddr := to', value := inner.value,
        data := inner.data, accessList := inner.accessList, v, r, s })
  | dynamicFee inner =>
    .ok (.dynamicFee
      { chainID, nonce, gasTipCap := inner.gasTipCap, gasFeeCap := inner.gasFeeCap, gas,
        toAddr := to', value := inner.value, data := inner.data,
        accessList := inner.accessList, v, r, s })
  | setCode inner =>
    match to' with
    | none => .error .toAddressRequired
    | some toAddr => do
      let chainID ← mustFromBig chainID
      let v ← mustFromBig v
      let r ← mustFromBig r
      let s ← mustFromBig s
      pure (.setCode
        { chainID, nonce, gasTipCap := inner.gasTipCap, gasFeeCap := inner.gasFeeCap, gas, toAddr,
          value := inner.value, data := inner.data, accessList := inner.accessList,
          authList := inner.authorizationList, v, r, s })

/-- The 256-bit fields of a set-code transaction pass through `big.Int` and back. -/
def newSpanBatchTx : Transaction → Except SpanBatchError SpanBatchTx
  | .legacy tx => .ok (legacy { value := tx.value, gasPrice := tx.gasPrice, data := tx.data })
  | .accessList tx =>
    .ok (accessList
      { value := tx.value, gasPrice := tx.gasPrice, data := tx.data, accessList := tx.accessList })
  | .dynamicFee tx =>
    .ok (dynamicFee
      { value := tx.value, gasTipCap := tx.gasTipCap, gasFeeCap := tx.gasFeeCap, data := tx.data,
        accessList := tx.accessList })
  | .setCode tx => do
    let gasTipCap ← mustFromBig tx.gasTipCap.toNat
    let gasFeeCap ← mustFromBig tx.gasFeeCap.toNat
    let value ← mustFromBig tx.value.toNat
    pure (setCode
      { value, gasTipCap, gasFeeCap, data := tx.data, accessList := tx.accessList,
        authorizationList := tx.authList })
  | .other tx => .error (.invalidTxType tx.txType.toNat)

end SpanBatchTx

/-- Limit on blocks, on transactions in total and per block, and on the bytes of one
transaction's span batch data. -/
def maxSpanBatchElementCount : Nat := 10000000

def bitsLen (bitLength : Nat) : Nat :=
  bitLength / 8 + if bitLength % 8 ≠ 0 then 1 else 0

def encodeSpanBatchBits (field : Field) (bitLength bits : Nat) : Except SpanBatchError Bytes :=
  if bitLength < bits.size then .error (.bitfieldTooLong field)
  else .ok (beBytes (bitsLen bitLength) bits)

def decodeSpanBatchBits (field : Field) (bitLength : Nat) : Reader SpanBatchError Nat := do
  let buf ← .full (bitsLen bitLength) (.read field)
  if bitLength < (ofBe buf).size then throw (.bitfieldTooLong field) else pure (ofBe buf)

structure SpanBatchSignature where
  v : Option Nat
  r : Uint256
  s : Uint256

structure SpanBatchTxs where
  totalBlockTxCount : Nat := 0
  contractCreationBits : Nat := 0
  yParityBits : Nat := 0
  txSigs : List SpanBatchSignature := []
  txNonces : List UInt64 := []
  txGases : List UInt64 := []
  txTos : List Address := []
  txDatas : List Bytes := []
  protectedBits : Nat := 0
  txTypes : List Nat := []
  totalLegacyTxCount : Nat := 0

def isProtectedV (v txType : Nat) : Bool :=
  if txType = legacyTxType then v ≠ 27 && v ≠ 28 else true

/-- `bigs.Uint64Strict` panics on a value of more than 64 bits. -/
def uint64Strict (v : Nat) : Except SpanBatchError Nat :=
  if v < 2 ^ 64 then .ok v else .error .panic

def convertVToYParity (v txType : Nat) : Except SpanBatchError Nat :=
  if txType = legacyTxType then
    if isProtectedV v txType then .ok (((v : Int) - 35) % 2).toNat
    else (uint64Strict v).map (· - 27)
  else if txType = accessListTxType ∨ txType = dynamicFeeTxType ∨ txType = setCodeTxType then
    uint64Strict v
  else .error (.invalidTxType txType)

namespace SpanBatchTxs
variable (codec : TxCodec) (chainID : Nat)

/-- One iteration of `AddTxs`, at position `at'` of the span. What was written before an error
stays. -/
def addTx (at' : Nat) (sbtx : SpanBatchTxs) (raw : Bytes) :
    SpanBatchTxs × Option SpanBatchError :=
  match codec.unmarshalBinary raw with
  | none => (sbtx,some .failedToDecodeTx)
  | some tx =>
    let sbtx :=
      if tx.type = legacyTxType then
        { sbtx with
          protectedBits := setBit sbtx.protectedBits sbtx.totalLegacyTxCount tx.isProtected
          totalLegacyTxCount := sbtx.totalLegacyTxCount + 1 }
      else sbtx
    if tx.isProtected ∧ tx.chainId ≠ chainID then
      (sbtx,some (.wrongChainID tx.chainId chainID))
    else
      let (v,r,s) := tx.rawSignatureValues
      let sbtx :=
        { sbtx with
          txSigs := sbtx.txSigs ++ [⟨some v,.ofNat 256 r,.ofNat 256 s⟩]
          txTos := sbtx.txTos ++ tx.toAddr.toList
          contractCreationBits := setBit sbtx.contractCreationBits at' tx.toAddr.isNone }
      match convertVToYParity v tx.type with
      | .error e => (sbtx,some e)
      | .ok yParityBit =>
        -- `SetBit` panics on a bit other than 0 and 1
        if 1 < yParityBit then (sbtx,some .panic)
        else
          let sbtx :=
            { sbtx with
              yParityBits := setBit sbtx.yParityBits at' (yParityBit = 1)
              txNonces := sbtx.txNonces ++ [tx.nonce]
              txGases := sbtx.txGases ++ [tx.gas] }
          match SpanBatchTx.newSpanBatchTx tx with
          | .error e => (sbtx,some e)
          | .ok stx =>
            ({ sbtx with
                txDatas := sbtx.txDatas ++ [stx.marshalBinary codec]
                txTypes := sbtx.txTypes ++ [tx.type] },none)

def addTxsLoop : Nat → SpanBatchTxs → List Bytes → SpanBatchTxs × Option SpanBatchError
  | _,sbtx,[] => (sbtx,none)
  | at',sbtx,raw::raws =>
    match addTx codec chainID at' sbtx raw with
    | (sbtx,some e) => (sbtx,some e)
    | (sbtx,none) => addTxsLoop (at' + 1) sbtx raws

def addTxs (sbtx : SpanBatchTxs) (txs : List Bytes) : SpanBatchTxs × Option SpanBatchError :=
  match addTxsLoop codec chainID sbtx.totalBlockTxCount sbtx txs with
  | (sbtx,some e) => (sbtx,some e)
  | (sbtx,none) => ({ sbtx with totalBlockTxCount := sbtx.totalBlockTxCount + txs.length },none)

def encodeTxSigsRS (btx : SpanBatchTxs) : Bytes :=
  (btx.txSigs.map fun sig => beBytes 32 sig.r.toNat ++ beBytes 32 sig.s.toNat).flatten

def encode (btx : SpanBatchTxs) : Except SpanBatchError Bytes := do
  let creation ← encodeSpanBatchBits .contractCreationBits btx.totalBlockTxCount
    btx.contractCreationBits
  let yParity ← encodeSpanBatchBits .yParityBits btx.totalBlockTxCount btx.yParityBits
  let protect ← encodeSpanBatchBits .protectedBits btx.totalLegacyTxCount btx.protectedBits
  pure (creation ++ (yParity ++ (btx.encodeTxSigsRS ++ ((btx.txTos.map FixedBytes.bytes).flatten ++
    (btx.txDatas.flatten ++ ((btx.txNonces.map putUvarint).flatten ++
    ((btx.txGases.map putUvarint).flatten ++ protect)))))))

def readTxData : Reader SpanBatchError (Bytes × Nat) := fun bs =>
  let payload (pre : Bytes) (txType : Nat) (bs : Bytes) :=
    match codec.stream.kind maxSpanBatchElementCount bs with
    | .error .valueTooLarge => .error .tooBigSpanBatchSize
    | .error .other => .error (.read .txPrefix)
    | .ok .string => .error .txPrefixNotList
    | .ok .list =>
      match codec.stream.raw maxSpanBatchElementCount bs with
      | .error _ => .error (.read .txPayload)
      | .ok (payload,rest) => .ok ((pre ++ payload,txType),rest)
  match bs with
  | [] => .error (.read .txInitialByte)
  | b::tail => if b ≤ 0x7f then payload [b] b.toNat tail else payload [] legacyTxType bs

def decodeTxSig : Reader SpanBatchError SpanBatchSignature := do
  let r ← .full 32 (.read .txSigR)
  let s ← .full 32 (.read .txSigS)
  pure ⟨none,.ofNat 256 (ofBe r),.ofNat 256 (ofBe s)⟩

def decodeTxTo : Reader SpanBatchError Address := do
  let buf ← Reader.full 20 (.read .txTo)
  match FixedBytes.ofBytes? 20 buf with
  | some a => pure a
  | none => throw (.read .txTo)

def contractCreationCount (bits n : Nat) : Nat :=
  (List.range n).countP bits.testBit

def decode (totalBlockTxCount : Nat) : Reader SpanBatchError SpanBatchTxs := do
  if maxSpanBatchElementCount < totalBlockTxCount then throw .tooBigSpanBatchSize
  let contractCreationBits ← decodeSpanBatchBits .contractCreationBits totalBlockTxCount
  let yParityBits ← decodeSpanBatchBits .yParityBits totalBlockTxCount
  let txSigs ← .many decodeTxSig totalBlockTxCount
  let txTos ← .many decodeTxTo
    (totalBlockTxCount - contractCreationCount contractCreationBits totalBlockTxCount)
  let txs ← .many (readTxData codec) totalBlockTxCount
  let totalLegacyTxCount := txs.countP fun tx => tx.2 = legacyTxType
  let txNonces ← .many (readUvarint (.read .txNonce)) totalBlockTxCount
  let txGases ← .many (readUvarint (.read .txGas)) totalBlockTxCount
  if maxSpanBatchElementCount < totalLegacyTxCount then throw .tooBigSpanBatchSize
  let protectedBits ← decodeSpanBatchBits .protectedBits totalLegacyTxCount
  pure
    { totalBlockTxCount, contractCreationBits, yParityBits, txSigs, txNonces, txGases, txTos,
      txDatas := txs.map Prod.fst, protectedBits, txTypes := txs.map Prod.snd,
      totalLegacyTxCount }

/-- `idx` is the transaction, `protectedIdx` the number of legacy transactions before it. -/
def recoverVLoop (btx : SpanBatchTxs) : Nat → Nat → List Nat → List SpanBatchSignature →
    Except SpanBatchError (List SpanBatchSignature)
  | idx,protectedIdx,txType::types,sig::sigs =>
    let bit := (btx.yParityBits.testBit idx).toNat
    if txType = legacyTxType then do
      let v := if btx.protectedBits.testBit protectedIdx then chainID * 2 + 35 + bit else 27 + bit
      let sigs ← recoverVLoop btx (idx + 1) (protectedIdx + 1) types sigs
      pure ({ sig with v := some v }::sigs)
    else if txType = accessListTxType ∨ txType = dynamicFeeTxType ∨ txType = setCodeTxType then do
      let sigs ← recoverVLoop btx (idx + 1) protectedIdx types sigs
      pure ({ sig with v := some bit }::sigs)
    else .error (.invalidTxType txType)
  | _,_,_,_ => .ok []

def recoverV (btx : SpanBatchTxs) : Except SpanBatchError SpanBatchTxs :=
  if btx.txTypes.length ≠ btx.txSigs.length then .error .txSigsMismatch
  else do
    let sigs ← recoverVLoop chainID btx 0 0 btx.txTypes btx.txSigs
    pure { btx with txSigs := sigs }

/-- Rebuilds the transactions from `idx` on; an index past the end of a column panics. -/
def fullTxsLoop (btx : SpanBatchTxs) : Nat → Nat → Nat → Except SpanBatchError (List Bytes)
  | 0,_,_ => .ok []
  | n+1,idx,toIdx =>
    match btx.txDatas[idx]?,btx.txNonces[idx]?,btx.txGases[idx]?,btx.txSigs[idx]? with
    | some txData,some nonce,some gas,some ⟨some v,r,s⟩ => do
      let stx ← SpanBatchTx.unmarshalBinary codec txData
      if btx.contractCreationBits.testBit idx then
        let tx ← stx.convertToFullTx nonce gas none chainID v r.toNat s.toNat
        let txs ← fullTxsLoop btx n (idx + 1) toIdx
        pure (codec.marshalBinary tx::txs)
      else
        match btx.txTos[toIdx]? with
        | none => .error .txToNotEnough
        | some a =>
          let tx ← stx.convertToFullTx nonce gas (some a) chainID v r.toNat s.toNat
          let txs ← fullTxsLoop btx n (idx + 1) (toIdx + 1)
          pure (codec.marshalBinary tx::txs)
    | _,_,_,_ => .error .panic

def fullTxs (btx : SpanBatchTxs) : Except SpanBatchError (List Bytes) :=
  fullTxsLoop codec chainID btx btx.totalBlockTxCount 0 0

end SpanBatchTxs
end OpStack.Derive
