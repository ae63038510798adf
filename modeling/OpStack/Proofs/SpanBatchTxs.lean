import OpStack.Lib.Outcome
import OpStack.Derive.SpanBatchTxs

namespace OpStack.Proofs.SpanBatchTxs
open Lib Eth Derive Derive.SpanBatchTxs Transaction Reader SpanBatchError List
open SpanBatchTx hiding type

/-- What the RLP package documents for a struct type: it decodes what it encodes, as a list, and a
stream reads a value whole within the input limit and reports `ErrValueTooLarge` beyond it. Lengths
on the wire are 64-bit. -/
structure RlpLawful {α : Type} (c : RlpCodec α) (stream : RlpStream) : Prop where
  decode_encode : ∀ a,(c.encode a).length < 2 ^ 64 → c.decode (c.encode a) = some a
  list_first : ∀ a,(c.encode a).length < 2 ^ 64 → ∃ b bs,c.encode a = b::bs ∧ 0xc0 ≤ b
  kind_list : ∀ limit a rest,(c.encode a).length < 2 ^ 64 → (c.encode a).length ≤ limit →
    stream.kind limit (c.encode a ++ rest) = .ok .list
  raw_list : ∀ limit a rest,(c.encode a).length < 2 ^ 64 → (c.encode a).length ≤ limit →
    stream.raw limit (c.encode a ++ rest) = .ok (c.encode a,rest)
  kind_too_large : ∀ limit a rest,(c.encode a).length < 2 ^ 64 → limit < (c.encode a).length →
    stream.kind limit (c.encode a ++ rest) = .error .valueTooLarge

structure Lawful (codec : TxCodec) : Prop where
  unmarshal_marshal : ∀ tx,(∀ other,tx ≠ .other other) → (codec.marshalBinary tx).length < 2 ^ 64 →
    codec.unmarshalBinary (codec.marshalBinary tx) = some tx
  legacy : RlpLawful codec.legacy codec.stream
  accessList : RlpLawful codec.accessList codec.stream
  dynamicFee : RlpLawful codec.dynamicFee codec.stream
  setCode : RlpLawful codec.setCode codec.stream

/-- A transaction with a well-formed signature for the chain. The fields of a set-code transaction
are 256-bit by type. -/
def WellFormed (chainID : Nat) : Transaction → Prop
  | .legacy tx =>
    (tx.v = 27 ∨ tx.v = 28 ∨ tx.v = 2 * chainID + 35 ∨ tx.v = 2 * chainID + 36) ∧
    tx.r < 2 ^ 256 ∧ tx.s < 2 ^ 256
  | .accessList tx => tx.chainID = chainID ∧ (tx.v = 0 ∨ tx.v = 1) ∧ tx.r < 2 ^ 256 ∧ tx.s < 2 ^ 256
  | .dynamicFee tx => tx.chainID = chainID ∧ (tx.v = 0 ∨ tx.v = 1) ∧ tx.r < 2 ^ 256 ∧ tx.s < 2 ^ 256
  | .setCode tx => tx.chainID.toNat = chainID ∧ (tx.v = 0 ∨ tx.v = 1)
  | .other _ => False

def spanTx : Transaction → SpanBatchTx
  | .legacy tx => .legacy ⟨tx.value,tx.gasPrice,tx.data⟩
  | .accessList tx => .accessList ⟨tx.value,tx.gasPrice,tx.data,tx.accessList⟩
  | .dynamicFee tx => .dynamicFee ⟨tx.value,tx.gasTipCap,tx.gasFeeCap,tx.data,tx.accessList⟩
  | .setCode tx => .setCode ⟨tx.value,tx.gasTipCap,tx.gasFeeCap,tx.data,tx.accessList,tx.authList⟩
  | .other _ => .legacy ⟨0,0,[]⟩

def yParity (tx : Transaction) : Bool :=
  match tx with
  | .legacy tx => tx.v = 28 ∨ tx.v ≠ 27 ∧ tx.v % 2 = 0
  | tx => tx.rawSignatureValues.1 = 1

def isLegacy (tx : Transaction) : Bool := tx.type = legacyTxType

def signature (tx : Transaction) : SpanBatchSignature :=
  let (v,r,s) := tx.rawSignatureValues
  ⟨some v,.ofNat 256 r,.ofNat 256 s⟩

def columns (codec : TxCodec) (txs : List Transaction) : Derive.SpanBatchTxs where
  totalBlockTxCount := txs.length
  contractCreationBits := ofBits (txs.map fun tx => tx.toAddr.isNone)
  yParityBits := ofBits (txs.map yParity)
  txSigs := txs.map signature
  txNonces := txs.map Transaction.nonce
  txGases := txs.map Transaction.gas
  txTos := txs.filterMap Transaction.toAddr
  txDatas := txs.map fun tx => (spanTx tx).marshalBinary codec
  protectedBits := ofBits ((txs.filter isLegacy).map Transaction.isProtected)
  txTypes := txs.map Transaction.type
  totalLegacyTxCount := (txs.filter isLegacy).length

section
variable {codec : TxCodec} {chainID : Nat} {tx : Transaction}

theorem mustFromBig_toNat (n : Uint256) : mustFromBig n.toNat = .ok n := by
  simp [mustFromBig,n.isLt]

theorem toNat_bit {v : Nat} (h : v = 0 ∨ v = 1) : (decide (v = 1)).toNat = v := by
  rcases h with rfl | rfl <;> rfl

section
variable (h : WellFormed chainID tx)
include h

theorem newSpanBatchTx_wellFormed : newSpanBatchTx tx = .ok (spanTx tx) := by
  cases tx with
  | setCode tx =>
    simp only [newSpanBatchTx,mustFromBig_toNat]
    rfl
  | other tx => cases h
  | _ => rfl

theorem typed_v (ht : tx.type ≠ legacyTxType) : (yParity tx).toNat = tx.rawSignatureValues.1 ∧
    (tx.type = accessListTxType ∨ tx.type = dynamicFeeTxType ∨ tx.type = setCodeTxType) := by
  cases tx with
  | legacy tx => exact absurd rfl ht
  | accessList tx => exact ⟨toNat_bit h.2.1,.inl rfl⟩
  | dynamicFee tx => exact ⟨toNat_bit h.2.1,.inr (.inl rfl)⟩
  | setCode tx =>
    refine ⟨?_,.inr (.inr rfl)⟩
    rcases h.2 with hv | hv <;> simp [yParity,rawSignatureValues,hv]
  | other tx => cases h

theorem convertVToYParity_wellFormed :
    convertVToYParity tx.rawSignatureValues.1 tx.type = .ok (yParity tx).toNat := by
  by_cases ht : tx.type = legacyTxType
  · cases tx with
    | legacy tx =>
      obtain ⟨hv,-,-⟩ := h
      simp only [rawSignatureValues,type,convertVToYParity,isProtectedV,yParity]
      rcases hv with hv | hv | hv
      · simp [hv,uint64Strict,Except.map]
      · simp [hv,uint64Strict,Except.map]
      have h1 : tx.v ≠ 27 := by omega
      have h2 : tx.v ≠ 28 := by omega
      rcases hv with hv | hv
      · have h3 : (tx.v : Int) - 35 = 2 * chainID := by omega
        have h4 : tx.v % 2 = 1 := by omega
        simp [h1,h2,h3,h4]
      have h3 : (tx.v : Int) - 35 = 2 * chainID + 1 := by omega
      have h4 : tx.v % 2 = 0 := by omega
      have h5 : ((2 : Int) * chainID + 1) % 2 = 1 := by omega
      simp [h1,h2,h3,h4]
    | other tx => cases h
    | _ => cases ht
  obtain ⟨hv,htype⟩ := typed_v h ht
  rw [← hv,convertVToYParity,if_neg ht,if_pos htype]
  cases yParity tx <;> rfl

theorem chainId_wellFormed (hp : tx.isProtected = true) : tx.chainId = chainID := by
  cases tx with
  | legacy tx =>
    obtain ⟨hv,-,-⟩ := h
    simp only [isProtected,Bool.and_eq_true,decide_eq_true_eq] at hp
    obtain ⟨⟨⟨h27,h28⟩,-⟩,-⟩ := hp
    have hge : ¬ tx.v < 35 := by omega
    simp only [chainId,h27,h28,or_self,↓reduceIte,hge]
    omega
  | accessList tx => exact h.1
  | dynamicFee tx => exact h.1
  | setCode tx => exact h.1
  | other tx => cases h

theorem not_other : ∀ other,tx ≠ .other other := by
  intro other he
  subst he
  exact h

end

theorem addTx_columns (hc : Lawful codec) (h : WellFormed chainID tx)
    (hl : (codec.marshalBinary tx).length < 2 ^ 64) (txs : List Transaction) (n : Nat) :
    addTx codec chainID txs.length { columns codec txs with totalBlockTxCount := n }
      (codec.marshalBinary tx) =
    ({ columns codec (txs ++ [tx]) with totalBlockTxCount := n },none) := by
  have hch : ¬ (tx.isProtected = true ∧ tx.chainId ≠ chainID) :=
    fun ⟨hp,hne⟩ => hne (chainId_wellFormed h hp)
  have hy := convertVToYParity_wellFormed h
  have hbit : ¬ 1 < (yParity tx).toNat := by
    have := (yParity tx).toNat_le
    omega
  have hdec : decide ((yParity tx).toNat = 1) = yParity tx := by cases yParity tx <;> rfl
  have hcreate := setBit_ofBits (txs.map fun tx => tx.toAddr.isNone) tx.toAddr.isNone
  have hpar := setBit_ofBits (txs.map yParity) (yParity tx)
  have hprot := setBit_ofBits ((txs.filter isLegacy).map isProtected) tx.isProtected
  rw [length_map] at hcreate hpar hprot
  have hto : txs.filterMap toAddr ++ tx.toAddr.toList = (txs ++ [tx]).filterMap toAddr := by
    cases hx : tx.toAddr <;> simp [hx]
  unfold addTx
  rw [hc.unmarshal_marshal tx (not_other h) hl]
  by_cases hleg : tx.type = legacyTxType
  · have hi : isLegacy tx = true := by simp [isLegacy,hleg]
    simp only [hleg,hch] at hy ⊢
    simp only [hy,hbit,↓reduceIte,newSpanBatchTx_wellFormed h]
    simp only [columns,hdec,hcreate,hpar,hprot,hto]
    simp [hi,signature,hleg]
  · have hi : isLegacy tx = false := by simp [isLegacy,hleg]
    simp only [hleg,↓reduceIte,hch,hy,hbit,newSpanBatchTx_wellFormed h]
    simp only [columns,hdec,hcreate,hpar,hto]
    simp [hi,signature]

theorem addTxsLoop_columns (hc : Lawful codec) (more : List Transaction)
    (h : ∀ tx ∈ more,WellFormed chainID tx ∧ (codec.marshalBinary tx).length < 2 ^ 64)
    (txs : List Transaction) (n : Nat) :
    addTxsLoop codec chainID txs.length { columns codec txs with totalBlockTxCount := n }
      (more.map codec.marshalBinary) =
    ({ columns codec (txs ++ more) with totalBlockTxCount := n },none) := by
  induction more generalizing txs with
  | nil => simp [addTxsLoop]
  | cons tx more ih =>
    obtain ⟨hw,hl⟩ := h tx (by simp)
    have hi := ih (fun t ht => h t (mem_cons_of_mem _ ht)) (txs ++ [tx])
    rw [length_append,length_singleton] at hi
    simp [addTxsLoop,addTx_columns hc hw hl,hi]

theorem addTxs_columns (hc : Lawful codec) (txs more : List Transaction)
    (h : ∀ tx ∈ more,WellFormed chainID tx ∧ (codec.marshalBinary tx).length < 2 ^ 64) :
    addTxs codec chainID (columns codec txs) (more.map codec.marshalBinary) =
    (columns codec (txs ++ more),none) := by
  have hlp := addTxsLoop_columns hc more h txs txs.length
  have htot : (columns codec txs).totalBlockTxCount = txs.length := rfl
  change addTxsLoop codec chainID txs.length (columns codec txs) _ = _ at hlp
  unfold addTxs
  rw [htot,hlp]
  simp [columns]

end

variable {codec : TxCodec} {chainID : Nat} {tx : Transaction} (field : Field) (bs : List Bool)

theorem lt_pow_bitsLen {n bits : Nat} (h : bits < 2 ^ n) : bits < 256 ^ bitsLen n := by
  have he : (256 : Nat) ^ bitsLen n = 2 ^ (8 * bitsLen n) := by rw [Nat.pow_mul]
  rw [he]
  refine lt_of_lt_of_le h (Nat.pow_le_pow_right (by omega) ?_)
  unfold bitsLen
  split <;> omega

theorem encodeSpanBatchBits_ofBits : encodeSpanBatchBits field bs.length (ofBits bs) =
    .ok (beBytes (bitsLen bs.length) (ofBits bs)) := by
  have hs := Nat.size_le.mpr (ofBits_lt bs)
  unfold encodeSpanBatchBits
  rw [if_neg (by omega)]

theorem decodeSpanBatchBits_ofBits : Reader.Reads (decodeSpanBatchBits field bs.length)
    (beBytes (bitsLen bs.length) (ofBits bs)) (ofBits bs) := by
  have hs := Nat.size_le.mpr (ofBits_lt bs)
  have hb := ofBe_beBytes (lt_pow_bitsLen (ofBits_lt bs))
  have hr := full_reads_of_length (beBytes_length (bitsLen bs.length) (ofBits bs)) (read field)
  intro rest
  unfold decodeSpanBatchBits
  rw [bind_eq,hr rest]
  simp only [hb]
  rw [if_neg (by omega)]
  rfl

theorem contractCreationCount_ofBits :
    contractCreationCount (ofBits bs) bs.length = bs.countP id := by
  unfold contractCreationCount
  induction bs with
  | nil => rfl
  | cons b bs ih =>
    have hshift : ∀ i,(ofBits (b::bs)).testBit (i + 1) = (ofBits bs).testBit i := by
      simp [testBit_ofBits]
    have hz : (ofBits (b::bs)).testBit 0 = b := testBit_ofBits _ 0
    rw [length_cons,range_succ_eq_map,countP_cons,hz,countP_cons,← ih]
    simp [Function.comp_def,hshift]

theorem past_single_byte {b : UInt8} (h : 0xc0 ≤ b) : 0x7f < b :=
  UInt8.lt_of_lt_of_le (by decide) h

/-- The span batch data of a supported transaction within the decoder's limit is read back with
the transaction's type. -/
theorem readTxData_reads (hc : Lawful codec) (h : WellFormed chainID tx)
    (hl : ((spanTx tx).rlpEncode codec).length ≤ maxSpanBatchElementCount) :
    Reader.Reads (readTxData codec) ((spanTx tx).marshalBinary codec)
      ((spanTx tx).marshalBinary codec,tx.type) := by
  have h64 : ((spanTx tx).rlpEncode codec).length < 2 ^ 64 := by
    unfold maxSpanBatchElementCount at hl
    omega
  intro rest
  cases tx with
  | legacy tx =>
    obtain ⟨b,bs,hb,hge⟩ := hc.legacy.list_first _ h64
    have hk := hc.legacy.kind_list _ _ rest h64 hl
    have hr := hc.legacy.raw_list _ _ rest h64 hl
    have hgt := UInt8.not_le.mpr (past_single_byte hge)
    simp only [spanTx,marshalBinary,SpanBatchTx.type,rlpEncode]
    rw [hb] at hk hr ⊢
    simp only [readTxData,cons_append,hgt,↓reduceIte] at hk hr ⊢
    simp [hk,hr,type]
  | accessList tx =>
    have hk := hc.accessList.kind_list _ _ rest h64 hl
    have hr := hc.accessList.raw_list _ _ rest h64 hl
    simp [readTxData,spanTx,marshalBinary,SpanBatchTx.type,rlpEncode,hk,hr,
      type,legacyTxType,accessListTxType]
  | dynamicFee tx =>
    have hk := hc.dynamicFee.kind_list _ _ rest h64 hl
    have hr := hc.dynamicFee.raw_list _ _ rest h64 hl
    simp [readTxData,spanTx,marshalBinary,SpanBatchTx.type,rlpEncode,hk,hr,
      type,legacyTxType,dynamicFeeTxType]
  | setCode tx =>
    have hk := hc.setCode.kind_list _ _ rest h64 hl
    have hr := hc.setCode.raw_list _ _ rest h64 hl
    simp [readTxData,spanTx,marshalBinary,SpanBatchTx.type,rlpEncode,hk,hr,
      type,legacyTxType,setCodeTxType]
  | other tx => cases h

theorem decodeTxSig_reads (r s : Uint256) :
    Reader.Reads decodeTxSig (beBytes 32 r.toNat ++ beBytes 32 s.toNat) ⟨none,r,s⟩ := by
  have hbe : ∀ n : Uint256,.ofNat 256 (ofBe (beBytes 32 n.toNat)) = n := by
    intro n
    have hp : (256 : Nat) ^ 32 = 2 ^ 256 := by norm_num
    have hn := hp ▸ n.isLt
    rw [ofBe_beBytes hn,BitVec.ofNat_toNat,BitVec.setWidth_eq]
  have hr := full_reads_of_length (beBytes_length 32 r.toNat) (read .txSigR)
  have hs := full_reads_of_length (beBytes_length 32 s.toNat) (read .txSigS)
  intro rest
  unfold decodeTxSig
  rw [bind_eq,append_assoc,hr]
  simp only
  rw [bind_eq,hs]
  simp only [hbe]
  rfl

theorem decodeTxTo_reads (a : Address) : Reader.Reads decodeTxTo a.bytes a := by
  have hr := full_reads_of_length a.size (read .txTo)
  intro rest
  unfold decodeTxTo
  rw [bind_eq,hr rest]
  simp only [FixedBytes.ofBytes?_bytes]
  rfl

def withoutV (btx : Derive.SpanBatchTxs) : Derive.SpanBatchTxs :=
  { btx with txSigs := btx.txSigs.map fun sig => { sig with v := none } }

def sigBytes (tx : Transaction) : Bytes :=
  beBytes 32 (signature tx).r.toNat ++ beBytes 32 (signature tx).s.toNat

def creationBits (txs : List Transaction) : List Bool := txs.map fun tx => tx.toAddr.isNone

def protectedList (txs : List Transaction) : List Bool :=
  (txs.filter isLegacy).map Transaction.isProtected

def headBytes (txs : List Transaction) (tail : Bytes) : Bytes :=
  beBytes (bitsLen txs.length) (ofBits (creationBits txs)) ++
    (beBytes (bitsLen txs.length) (ofBits (txs.map yParity)) ++
    ((txs.map sigBytes).flatten ++
    (((txs.filterMap Transaction.toAddr).map FixedBytes.bytes).flatten ++ tail)))

def tailBytes (txs : List Transaction) : Bytes :=
  (txs.map fun tx => putUvarint tx.nonce).flatten ++
    ((txs.map fun tx => putUvarint tx.gas).flatten ++
    beBytes (bitsLen (protectedList txs).length) (ofBits (protectedList txs)))

def dataBytes (codec : TxCodec) (txs : List Transaction) : Bytes :=
  (txs.map fun tx => (spanTx tx).marshalBinary codec).flatten

section
variable (txs : List Transaction)

theorem encode_columns (codec : TxCodec) :
    (columns codec txs).encode = .ok (headBytes txs (dataBytes codec txs ++ tailBytes txs)) := by
  have h1 := encodeSpanBatchBits_ofBits .contractCreationBits (creationBits txs)
  have h2 := encodeSpanBatchBits_ofBits .yParityBits (txs.map yParity)
  have h3 := encodeSpanBatchBits_ofBits .protectedBits (protectedList txs)
  simp only [creationBits,protectedList,length_map] at h1 h2 h3
  simp only [encode,columns,h1,h2,h3,encodeTxSigsRS,headBytes,tailBytes,dataBytes,
    protectedList,length_map,map_map]
  rfl

theorem creations_add_tos :
    (creationBits txs).countP id + (txs.filterMap toAddr).length = txs.length := by
  induction txs with
  | nil => rfl
  | cons tx txs ih =>
    simp only [creationBits] at ih ⊢
    cases hx : tx.toAddr with
    | none =>
      simp only [map_cons,hx,Option.isNone_none,countP_cons,id_eq,↓reduceIte,
        filterMap_cons_none hx,length_cons]
      omega
    | some a =>
      simp only [map_cons,hx,Option.isNone_some,countP_cons,id_eq,Bool.false_eq_true,
        ↓reduceIte,filterMap_cons_some hx,length_cons]
      omega

theorem count_tos : txs.length - contractCreationCount (ofBits (creationBits txs)) txs.length =
    (txs.filterMap toAddr).length := by
  have hct := contractCreationCount_ofBits (creationBits txs)
  have hsum := creations_add_tos txs
  have hlen : (creationBits txs).length = txs.length := by simp [creationBits]
  rw [hlen] at hct
  omega

theorem countP_legacy (codec : TxCodec) :
    (txs.map fun tx => ((spanTx tx).marshalBinary codec,tx.type)).countP
      (fun tx => tx.2 = legacyTxType) = (txs.filter isLegacy).length := by
  rw [countP_map,countP_eq_length_filter]
  rfl

theorem reads_creationBits : Reader.Reads (decodeSpanBatchBits .contractCreationBits txs.length)
    (beBytes (bitsLen txs.length) (ofBits (creationBits txs))) (ofBits (creationBits txs)) := by
  simpa [creationBits] using decodeSpanBatchBits_ofBits .contractCreationBits (creationBits txs)

theorem reads_yParityBits : Reader.Reads (decodeSpanBatchBits .yParityBits txs.length)
    (beBytes (bitsLen txs.length) (ofBits (txs.map yParity))) (ofBits (txs.map yParity)) := by
  simpa using decodeSpanBatchBits_ofBits .yParityBits (txs.map yParity)

theorem reads_txSigs : Reader.Reads (many decodeTxSig txs.length) (txs.map sigBytes).flatten
    (txs.map fun tx => { signature tx with v := none }) := by
  have h := many_reads_map (r := decodeTxSig)
    (fun sig => beBytes 32 sig.r.toNat ++ beBytes 32 sig.s.toNat)
    (txs.map fun tx => { signature tx with v := none }) (by
      intro sig hs
      obtain ⟨tx,-,rfl⟩ := mem_map.mp hs
      exact decodeTxSig_reads _ _)
  rw [length_map,map_map] at h
  exact h

theorem reads_txTos : Reader.Reads (many decodeTxTo
    (txs.length - contractCreationCount (ofBits (creationBits txs)) txs.length))
    ((txs.filterMap toAddr).map FixedBytes.bytes).flatten
    (txs.filterMap toAddr) := by
  rw [count_tos]
  exact many_reads_map FixedBytes.bytes _ (fun a _ => decodeTxTo_reads a)

end

theorem decode_columns (hc : Lawful codec) (txs : List Transaction)
    (h : ∀ tx ∈ txs,WellFormed chainID tx ∧
      ((spanTx tx).rlpEncode codec).length ≤ maxSpanBatchElementCount)
    (hn : txs.length ≤ maxSpanBatchElementCount) :
    Reader.Reads (decode codec txs.length)
      (headBytes txs (dataBytes codec txs ++ tailBytes txs)) (withoutV (columns codec txs)) := by
  have hleg : (txs.filter isLegacy).length ≤ maxSpanBatchElementCount :=
    (length_filter_le _ _).trans hn
  have hprot := decodeSpanBatchBits_ofBits .protectedBits (protectedList txs)
  have hdatas := many_reads_map (r := readTxData codec) Prod.fst
    (txs.map fun tx => ((spanTx tx).marshalBinary codec,tx.type)) (by
      intro data hd
      obtain ⟨tx,ht,rfl⟩ := mem_map.mp hd
      exact readTxData_reads hc (h tx ht).1 (h tx ht).2)
  have hnonces := many_reads_map putUvarint (txs.map nonce)
    (fun x _ => putUvarint_reads (read .txNonce) x)
  have hgases := many_reads_map putUvarint (txs.map gas)
    (fun x _ => putUvarint_reads (read .txGas) x)
  simp only [length_map,map_map] at hdatas hnonces hgases
  unfold decode
  rw [if_neg (by omega)]
  refine (reads_creationBits txs).bind ((reads_yParityBits txs).bind ((reads_txSigs txs).bind
    ((reads_txTos txs).bind (hdatas.bind (hnonces.bind (hgases.bind ?_))))))
  rw [countP_legacy,if_neg (by omega)]
  have hlen : (protectedList txs).length = (txs.filter isLegacy).length := by simp [protectedList]
  rw [hlen] at hprot ⊢
  convert hprot.map _ using 1
  simp [withoutV,columns,creationBits,protectedList]

theorem readTxData_rejects (hc : Lawful codec) {tx : LegacyTx}
    (hl : maxSpanBatchElementCount < ((spanTx (.legacy tx)).rlpEncode codec).length)
    (h64 : ((spanTx (.legacy tx)).rlpEncode codec).length < 2 ^ 64) :
    Reader.Rejects (readTxData codec) ((spanTx (.legacy tx)).marshalBinary codec)
      .tooBigSpanBatchSize := by
  intro rest
  obtain ⟨b,bs,hb,hge⟩ := hc.legacy.list_first _ h64
  have hk := hc.legacy.kind_too_large _ _ rest h64 hl
  have hgt := UInt8.not_le.mpr (past_single_byte hge)
  simp only [spanTx,marshalBinary,SpanBatchTx.type,↓reduceIte,rlpEncode]
  rw [hb] at hk ⊢
  simp only [readTxData,cons_append,hgt] at hk ⊢
  simp [hk]

/-- A transaction whose span batch data is over the limit makes the whole span undecodable. -/
theorem decode_rejects (hc : Lawful codec) {tx : LegacyTx} (txs : List Transaction)
    (hl : maxSpanBatchElementCount < ((spanTx (.legacy tx)).rlpEncode codec).length)
    (h64 : ((spanTx (.legacy tx)).rlpEncode codec).length < 2 ^ 64)
    (hn : (legacy tx::txs).length ≤ maxSpanBatchElementCount) :
    Reader.Rejects (decode codec (legacy tx::txs).length)
      (headBytes (.legacy tx::txs) (dataBytes codec (.legacy tx::txs) ++ tailBytes (.legacy tx::txs)))
      .tooBigSpanBatchSize := by
  have hmany : Reader.Rejects (many (readTxData codec) (legacy tx::txs).length)
      (dataBytes codec (.legacy tx::txs)) .tooBigSpanBatchSize := by
    exact ((readTxData_rejects hc hl h64).bind).append _
  unfold decode
  rw [if_neg (by omega)]
  exact (reads_creationBits _).bind_rejects ((reads_yParityBits _).bind_rejects
    ((reads_txSigs _).bind_rejects ((reads_txTos _).bind_rejects (hmany.bind.append _))))

/-- The parity bit, and for a legacy transaction the protected bit, determine `v`. -/
theorem legacy_v {tx : LegacyTx} (h : WellFormed chainID (.legacy tx)) :
    (if (legacy tx).isProtected then chainID * 2 + 35 + (yParity (.legacy tx)).toNat
      else 27 + (yParity (.legacy tx)).toNat) = tx.v := by
  obtain ⟨hv,-,-⟩ := h
  rcases hv with hv | hv | hv
  · simp [isProtected,yParity,hv]
  · simp [isProtected,yParity,hv]
  have h1 : tx.v ≠ 27 := by omega
  have h2 : tx.v ≠ 28 := by omega
  have h3 : tx.v ≠ 1 := by omega
  have h4 : tx.v ≠ 0 := by omega
  rcases hv with hv | hv
  · have h5 : tx.v % 2 = 1 := by omega
    simp [isProtected,yParity,h1,h2,h3,h4,h5]
    omega
  · have h5 : tx.v % 2 = 0 := by omega
    simp [isProtected,yParity,h1,h2,h3,h4,h5]
    omega

theorem testBit_ofBits_map {α : Type} (f : α → Bool) (pre post : List α) (x : α) :
    (ofBits ((pre ++ x::post).map f)).testBit pre.length = f x := by
  simp [testBit_ofBits]

/-- Invariant of the loop: `pre` is done, the parity index is its length and the protected index
its number of legacy transactions. -/
theorem recoverVLoop_columns (codec : TxCodec) (pre post : List Transaction)
    (h : ∀ tx ∈ post,WellFormed chainID tx) :
    recoverVLoop chainID (withoutV (columns codec (pre ++ post))) pre.length
      (pre.filter isLegacy).length (post.map type)
      (post.map fun tx => { signature tx with v := none }) = .ok (post.map signature) := by
  induction post generalizing pre with
  | nil => simp [recoverVLoop]
  | cons tx post ih =>
    have hw := h tx (by simp)
    have hpar := testBit_ofBits_map yParity pre post tx
    have hi := ih (pre ++ [tx]) (fun t ht => h t (mem_cons_of_mem _ ht))
    simp only [append_assoc,singleton_append,length_append,length_singleton] at hi
    by_cases hleg : tx.type = legacyTxType
    · have hl : isLegacy tx = true := by simp [isLegacy,hleg]
      have hprot := testBit_ofBits_map isProtected (pre.filter isLegacy) (post.filter isLegacy) tx
      have hf : (pre ++ tx::post).filter isLegacy =
          pre.filter isLegacy ++ tx::post.filter isLegacy := by simp [hl]
      rw [← hf] at hprot
      simp only [filter_append,filter_cons,hl,↓reduceIte,filter_nil,
        length_append,length_singleton] at hi
      have hv : signature tx = { signature tx with
          v := some (if tx.isProtected then chainID * 2 + 35 + (yParity tx).toNat
            else 27 + (yParity tx).toNat) } := by
        cases tx with
        | legacy tx => rw [legacy_v hw]; rfl
        | other tx => cases hw
        | _ => cases hleg
      simp only [map_cons,recoverVLoop,hleg,hi]
      simp only [withoutV,columns,hpar,hprot]
      simp [← hv]
    · have hl : isLegacy tx = false := by simp [isLegacy,hleg]
      obtain ⟨hv,ht⟩ := typed_v hw hleg
      simp only [filter_append,filter_cons,hl,Bool.false_eq_true,↓reduceIte,
        filter_nil,append_nil] at hi
      have hsig : signature tx = { signature tx with v := some (yParity tx).toNat } := by
        rw [hv]
        rfl
      simp only [map_cons,recoverVLoop,hleg,ht,hi]
      simp only [withoutV,columns,hpar]
      simp [← hsig]

theorem recoverV_columns (codec : TxCodec) (txs : List Transaction)
    (h : ∀ tx ∈ txs,WellFormed chainID tx) :
    recoverV chainID (withoutV (columns codec txs)) = .ok (columns codec txs) := by
  have hlp := recoverVLoop_columns codec [] txs h
  simp only [nil_append,length_nil,filter_nil] at hlp
  have hsigs : (withoutV (columns codec txs)).txSigs =
      txs.map fun tx => { signature tx with v := none } := by
    simp [withoutV,columns]
  unfold recoverV
  rw [hsigs,if_neg (by simp [withoutV,columns])]
  change (do
    let sigs ← recoverVLoop chainID (withoutV (columns codec txs)) 0 0 (txs.map type) _
    pure { withoutV (columns codec txs) with txSigs := sigs }) = _
  rw [hlp]
  rfl

theorem unmarshalBinary_spanTx (hc : Lawful codec) (h : WellFormed chainID tx)
    (hl : ((spanTx tx).rlpEncode codec).length < 2 ^ 64) :
    unmarshalBinary codec ((spanTx tx).marshalBinary codec) = .ok (spanTx tx) := by
  cases tx with
  | legacy tx =>
    obtain ⟨b,bs,hb,hge⟩ := hc.legacy.list_first _ hl
    have hd := hc.legacy.decode_encode _ hl
    have hgt := past_single_byte hge
    simp only [spanTx,marshalBinary,SpanBatchTx.type,rlpEncode]
    rw [hb] at hd ⊢
    simp [unmarshalBinary,hgt,hd]
  | accessList tx =>
    obtain ⟨b,bs,hb,-⟩ := hc.accessList.list_first _ hl
    have hd := hc.accessList.decode_encode _ hl
    simp only [spanTx,marshalBinary,SpanBatchTx.type,rlpEncode]
    rw [hb] at hd ⊢
    simp [unmarshalBinary,decodeTyped,legacyTxType,accessListTxType,hd]
  | dynamicFee tx =>
    obtain ⟨b,bs,hb,-⟩ := hc.dynamicFee.list_first _ hl
    have hd := hc.dynamicFee.decode_encode _ hl
    simp only [spanTx,marshalBinary,SpanBatchTx.type,rlpEncode]
    rw [hb] at hd ⊢
    simp [unmarshalBinary,decodeTyped,legacyTxType,accessListTxType,
      dynamicFeeTxType,hd]
  | setCode tx =>
    obtain ⟨b,bs,hb,-⟩ := hc.setCode.list_first _ hl
    have hd := hc.setCode.decode_encode _ hl
    simp only [spanTx,marshalBinary,SpanBatchTx.type,rlpEncode]
    rw [hb] at hd ⊢
    simp [unmarshalBinary,decodeTyped,legacyTxType,accessListTxType,
      dynamicFeeTxType,setCodeTxType,hd]
  | other tx => cases h

theorem toNat_uint256 {n : Nat} (h : n < 2 ^ 256) : (BitVec.ofNat 256 n).toNat = n :=
  Nat.mod_eq_of_lt h

theorem convertToFullTx_spanTx (h : WellFormed chainID tx) :
    (spanTx tx).convertToFullTx tx.nonce tx.gas tx.toAddr chainID tx.rawSignatureValues.1
      (signature tx).r.toNat (signature tx).s.toNat = .ok tx := by
  cases tx with
  | legacy tx =>
    simp only [signature,rawSignatureValues,toNat_uint256 h.2.1,toNat_uint256 h.2.2]
    rfl
  | accessList tx =>
    obtain ⟨rfl,-,hr,hs⟩ := h
    simp only [signature,rawSignatureValues,toNat_uint256 hr,toNat_uint256 hs]
    rfl
  | dynamicFee tx =>
    obtain ⟨rfl,-,hr,hs⟩ := h
    simp only [signature,rawSignatureValues,toNat_uint256 hr,toNat_uint256 hs]
    rfl
  | setCode tx =>
    obtain ⟨rfl,-⟩ := h
    simp only [spanTx,convertToFullTx,signature,rawSignatureValues,BitVec.ofNat_toNat,
      mustFromBig_toNat]
    rfl
  | other tx => cases h

/-- Invariant of the loop: `pre` is done, and the address index is its number of addresses. -/
theorem fullTxsLoop_columns (hc : Lawful codec) (pre post : List Transaction)
    (h : ∀ tx ∈ post,WellFormed chainID tx ∧ ((spanTx tx).rlpEncode codec).length < 2 ^ 64) :
    fullTxsLoop codec chainID (columns codec (pre ++ post)) post.length pre.length
      (pre.filterMap toAddr).length = .ok (post.map codec.marshalBinary) := by
  induction post generalizing pre with
  | nil => rfl
  | cons tx post ih =>
    obtain ⟨hw,hl⟩ := h tx (by simp)
    have hi := ih (pre ++ [tx]) (fun t ht => h t (mem_cons_of_mem _ ht))
    have hcv := convertToFullTx_spanTx hw
    have hbit := testBit_ofBits_map (fun tx : Transaction => tx.toAddr.isNone) pre post tx
    have hget : ∀ {β : Type} (f : Transaction → β),
        ((pre ++ tx::post).map f)[pre.length]? = some (f tx) := by
      simp
    simp only [append_assoc,singleton_append,length_append,length_singleton] at hi
    simp only [length_cons,fullTxsLoop]
    conv_lhs => simp only [columns,hget,signature,hbit]
    cases hto : tx.toAddr with
    | none =>
      rw [hto] at hcv
      simp only [filterMap_append,filterMap_cons_none hto,filterMap_nil,append_nil] at hi
      simp only [signature,columns] at hcv hi
      simp only [unmarshalBinary_spanTx hc hw hl,hcv,hi,ok_bind]
      rfl
    | some a =>
      rw [hto] at hcv
      simp only [filterMap_append,filterMap_cons_some hto,filterMap_nil,
        length_append,length_singleton] at hi
      simp only [signature,columns] at hcv hi
      have hget' : ((pre ++ tx::post).filterMap toAddr)[
          (pre.filterMap toAddr).length]? = some a := by
        simp [filterMap_cons_some hto]
      simp only [unmarshalBinary_spanTx hc hw hl,Option.isNone_some,
        hget',hcv,hi,ok_bind]
      rfl

theorem fullTxs_columns (hc : Lawful codec) (txs : List Transaction)
    (h : ∀ tx ∈ txs,WellFormed chainID tx ∧ ((spanTx tx).rlpEncode codec).length < 2 ^ 64) :
    fullTxs codec chainID (columns codec txs) = .ok (txs.map codec.marshalBinary) :=
  fullTxsLoop_columns hc [] txs h

end OpStack.Proofs.SpanBatchTxs
