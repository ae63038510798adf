import OpStack.Derive.RlpCodec
import OpStack.Proofs.SpanBatchTxs

namespace OpStack.Proofs.RlpCodec
open Lib Eth Derive Derive.RlpCodecs Lib.Rlp StructLayout

section
variable {α : Type} (l : StructLayout α) (a : α)

private theorem encodeAll_length (a : α) :
    (encodeAll (l.fields a)).length ≤ (l.encode a).length := by
  unfold StructLayout.encode Rlp.encode
  simp

theorem decode_encode (h : (l.encode a).length < 2 ^ 64) : l.decode (l.encode a) = some a := by
  simp only [StructLayout.decode,StructLayout.encode] at h ⊢
  rw [Rlp.decode_encode _ h]
  exact l.ofFields_fields a

theorem encode_first (h : (l.encode a).length < 2 ^ 64) : ∃ b bs,l.encode a = b::bs ∧ 0xc0 ≤ b := by
  have hl := encodeAll_length l a
  obtain ⟨b,bs,hb,hge⟩ := header_list_first (encodeAll (l.fields a)).length (by omega)
  refine ⟨b,bs ++ encodeAll (l.fields a),?_,hge⟩
  unfold StructLayout.encode Rlp.encode
  rw [hb,List.cons_append]

theorem head_encode (rest : Bytes) (h : (l.encode a).length < 2 ^ 64) :
    ∃ skip size,head (l.encode a ++ rest) = some (.list,skip,size) ∧
      skip + size = (l.encode a).length := by
  have hl := encodeAll_length l a
  have he : l.encode a = header 192 (encodeAll (l.fields a)).length ++ encodeAll (l.fields a) := by
    rfl
  refine ⟨(header 192 (encodeAll (l.fields a)).length).length,(encodeAll (l.fields a)).length,?_,?_⟩
  · rw [he,List.append_assoc]
    exact head_header_list (by omega) _
  · rw [he,List.length_append]

theorem rlpLawful : SpanBatchTxs.RlpLawful l.codec stream where
  decode_encode := decode_encode l
  list_first := encode_first l
  kind_list limit a rest h64 hl := by
    obtain ⟨skip,size,hh,hs⟩ := head_encode l a rest h64
    have hn : ¬ limit < skip + size := by
      change (l.encode a).length ≤ limit at hl
      omega
    simp [codec,stream,hh,hn]
  raw_list limit a rest h64 hl := by
    obtain ⟨skip,size,hh,hs⟩ := head_encode l a rest h64
    have hn : ¬ limit < skip + size := by
      change (l.encode a).length ≤ limit at hl
      omega
    simp only [codec,stream,hh,hn]
    simp [hs]
  kind_too_large limit a rest h64 hl := by
    obtain ⟨skip,size,hh,hs⟩ := head_encode l a rest h64
    have hp : limit < skip + size := by
      change limit < (l.encode a).length at hl
      omega
    simp [codec,stream,hh,hp]

end

theorem unmarshal_marshal (tx : Transaction) (ho : ∀ other,tx ≠ .other other)
    (h : (marshalBinary tx).length < 2 ^ 64) : unmarshalBinary (marshalBinary tx) = some tx := by
  cases tx with
  | legacy tx =>
    obtain ⟨b,bs,hb,hge⟩ := encode_first legacyTx tx h
    have hgt := SpanBatchTxs.past_single_byte hge
    have hd := decode_encode legacyTx tx h
    simp only [marshalBinary]
    rw [hb] at hd ⊢
    simp [unmarshalBinary,hgt,↓reduceIte,hd]
  | accessList tx =>
    simp only [marshalBinary,List.length_cons] at h
    simp [marshalBinary,unmarshalBinary,decode_encode accessListTx tx (by omega)]
  | dynamicFee tx =>
    simp only [marshalBinary,List.length_cons] at h
    simp [marshalBinary,unmarshalBinary,decode_encode dynamicFeeTx tx (by omega)]
  | setCode tx =>
    simp only [marshalBinary,List.length_cons] at h
    simp [marshalBinary,unmarshalBinary,decode_encode setCodeTx tx (by omega)]
  | other tx => exact absurd rfl (ho tx)

theorem lawful : SpanBatchTxs.Lawful txCodec where
  unmarshal_marshal := unmarshal_marshal
  legacy := rlpLawful legacyData
  accessList := rlpLawful accessListData
  dynamicFee := rlpLawful dynamicFeeData
  setCode := rlpLawful setCodeData

end OpStack.Proofs.RlpCodec
