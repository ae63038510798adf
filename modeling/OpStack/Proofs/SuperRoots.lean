import OpStack.Interop.Consolidate

namespace OpStack.Eth
open Lib List

theorem OutputV0.unmarshal_marshal (o : OutputV0) : unmarshalOutput o.marshal = .ok o := by
  have hver := outputVersionV0.size
  have hsta := o.stateRoot.size
  have hstorage := o.messagePasserStorageRoot.size
  have hhs := o.blockHash.size
  have hlen : o.marshal.length = 128 := by simp [marshal,hver,hsta,hstorage,hhs]
  have htake : o.marshal.take 32 = outputVersionV0.bytes := take_left' hver
  have hdr : o.marshal.drop 32 = o.stateRoot.bytes ++
      (o.messagePasserStorageRoot.bytes ++ o.blockHash.bytes) := drop_left' hver
  have hdr' : o.marshal.drop 64 = o.messagePasserStorageRoot.bytes ++ o.blockHash.bytes := by
    rw [show 64 = 32 + 32 from rfl,← drop_drop,hdr,drop_left' hsta]
  have hdr'' : o.marshal.drop 96 = o.blockHash.bytes := by
    rw [show 96 = 64 + 32 from rfl,← drop_drop,hdr',drop_left' hstorage]
  unfold unmarshalOutput unmarshalOutputV0
  rw [if_neg (by omega),if_pos htake,if_neg (by omega),hdr,hdr',hdr'',
    take_left' hsta,take_left' hstorage,take_of_length_le (by omega)]
  simp

theorem bytes32Reader_reads (b : FixedBytes 32) : Reader.Reads bytes32Reader b.bytes b := by
  intro rest
  unfold bytes32Reader
  rw [Reader.bind_eq,Reader.full_reads_of_length b.size _ rest]
  simp only [FixedBytes.ofBytes?_bytes]
  rfl

theorem chainOutputReader_reads (c : ChainIDAndOutput) :
    Reader.Reads chainOutputReader c.marshal c := by
  have hpure : Reader.Reads (bytes32Reader >>= fun output =>
      Pure.pure (⟨ChainID.fromBytes32 (ChainID.bytes32 c.chainID),output⟩ : ChainIDAndOutput))
      c.output.bytes c := by
    simpa using (bytes32Reader_reads c.output).map (ChainIDAndOutput.mk
      (ChainID.fromBytes32 (ChainID.bytes32 c.chainID)))
  exact (bytes32Reader_reads _).bind hpure

namespace SuperV1

theorem timestamp_bytes (t : UInt64) : .ofNat (ofBe (beBytes 8 t.toNat)) = t := by
  rw [ofBe_beBytes (lt_of_lt_of_eq t.toNat_lt (by norm_num)),UInt64.ofNat_toNat]

variable (s : SuperV1)

theorem reads : Reader.Reads (superV1Reader s.chains.length)
    (beBytes 8 s.timestamp.toNat ++ (s.chains.map ChainIDAndOutput.marshal).flatten) s := by
  have hchs := Reader.many_reads_map ChainIDAndOutput.marshal s.chains
    fun c _ => chainOutputReader_reads c
  have hls := hchs.map (SuperV1.mk (UInt64.ofNat (ofBe (beBytes 8 s.timestamp.toNat))))
  rw [timestamp_bytes] at hls
  refine Reader.Reads.bind (Reader.full_reads_of_length (beBytes_length 8 _) _) ?_
  rw [timestamp_bytes]
  exact hls

theorem marshal_length : s.marshal.length = 9 + 64 * s.chains.length := by
  have hone (c : ChainIDAndOutput) : c.marshal.length = 64 := by
    simp [ChainIDAndOutput.marshal,FixedBytes.size]
  have hall : ((s.chains.map ChainIDAndOutput.marshal).map length).sum = 64 * s.chains.length := by
    induction s.chains with
    | nil => rfl
    | cons c cs ih =>
      simp only [map_cons,sum_cons,hone,length_cons]
      omega
  simp only [marshal,length_cons,length_append,length_flatten,beBytes_length]
  omega

theorem unmarshal_marshal (h : s.chains ≠ []) : unmarshalSuperRoot s.marshal = .ok s := by
  have hpos := length_pos_iff.mpr h
  have hlen := s.marshal_length
  have hrd := s.reads []
  rw [append_nil] at hrd
  have hver : unmarshalSuperRoot s.marshal = unmarshalSuperRootV1 s.marshal := by
    simp [unmarshalSuperRoot,marshal]
  have hmin : ¬ 9 + 64 * s.chains.length < superRootVersionV1MinLen := by
    simp only [superRootVersionV1MinLen,chainIDAndOutputLen]
    omega
  rw [hver,unmarshalSuperRootV1,hlen,if_neg hmin]
  simp [chainIDAndOutputLen,marshal,hrd]

theorem unmarshal_marshal_nil (h : s.chains = []) :
    unmarshalSuperRoot s.marshal = .error .invalidSuperRoot := by
  have hlen := s.marshal_length
  have hver : unmarshalSuperRoot s.marshal = unmarshalSuperRootV1 s.marshal := by
    simp [unmarshalSuperRoot,marshal]
  rw [hver,unmarshalSuperRootV1,hlen,h]
  rfl

end SuperV1

end OpStack.Eth

namespace OpStack.Interop
open Lib Eth Derive.RlpCodecs

theorem encode_hash_length (h : Hash) : (Rlp.encodeBytes h.bytes).length ≤ 41 := by
  have hl := Rlp.encodeBytes_length_le h.bytes (by simp [h.size])
  rwa [h.size] at hl

theorem encode_block_length (b : OptimisticBlock) :
    (Rlp.encode (optimisticBlockLayout.toItem b)).length ≤ 91 := by
  have hhs := encode_hash_length b.blockHash
  have hrt := encode_hash_length b.outputRoot
  simp only [optimisticBlockLayout,fixedLayout,Rlp.encode,Rlp.encodeAll,List.length_append,
    List.length_nil,Nat.add_zero]
  have hsz : (Rlp.encodeBytes b.blockHash.bytes).length +
      (Rlp.encodeBytes b.outputRoot.bytes).length < 2 ^ 64 := by omega
  have hheader := Rlp.header_length_le 192 hsz
  omega

theorem encode_blocks_length (bs : List OptimisticBlock) :
    (Rlp.encodeAll (bs.map optimisticBlockLayout.toItem)).length ≤ 91 * bs.length := by
  induction bs with
  | nil => simp [Rlp.encodeAll]
  | cons b bs ih =>
    have hb := encode_block_length b
    simp only [List.map_cons,Rlp.encodeAll,List.length_append,List.length_cons]
    omega

namespace TransitionState

/-- The sizes of the super root and of the pending blocks stay far below a machine word. -/
structure Small (s : TransitionState) : Prop where
  superRoot : s.superRoot.length < 2 ^ 32
  pendingProgress : s.pendingProgress.length < 2 ^ 32

theorem Small.encode_length {s : TransitionState} (h : s.Small) :
    (Rlp.encode (transitionStateLayout.toItem s)).length < 2 ^ 64 := by
  have hrt := h.superRoot
  have hpen := h.pendingProgress
  have hbs := encode_blocks_length s.pendingProgress
  have hby := Rlp.encodeBytes_length_le s.superRoot (by omega)
  have hst : (Rlp.encodeBytes (natBytes s.step.toNat)).length ≤ 17 := by
    have hl : (natBytes s.step.toNat).length ≤ 8 := by
      rw [natBytes,beBytes_length]
      exact byteLen_le (lt_of_lt_of_eq s.step.toNat_lt (by norm_num))
    have hle := Rlp.encodeBytes_length_le (natBytes s.step.toNat) (by omega)
    omega
  have hinner := Rlp.header_length_le 192 (show
    (Rlp.encodeAll (s.pendingProgress.map optimisticBlockLayout.toItem)).length < 2 ^ 64 by omega)
  simp only [transitionStateLayout,bytesLayout,listLayout,uint64Layout,natLayout,Rlp.encode,
    Rlp.encodeAll,List.length_append,List.length_nil]
  generalize hsz : (Rlp.encodeBytes s.superRoot).length + _ = size
  have houter := Rlp.header_length_le 192 (show size < 2 ^ 64 by omega)
  omega

theorem unmarshal_marshal {s : TransitionState} (h : s.Small) :
    unmarshalTransitionState s.marshal = .ok s := by
  have hd := Rlp.decode_encode _ h.encode_length
  simp [unmarshalTransitionState,marshal,unmarshalIntermediate,hd,
    transitionStateLayout.ofItem_toItem]

end TransitionState

end OpStack.Interop
