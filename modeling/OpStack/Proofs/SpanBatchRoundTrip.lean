import Mathlib.Data.List.Chain
import Mathlib.Algebra.Order.BigOperators.Group.List
import OpStack.Derive.SpanBatch
import OpStack.Proofs.RlpCodec

namespace OpStack.Proofs.SpanBatchRoundTrip
open Lib Eth Derive SpanBatchTxs RawSpanBatch List UInt64 Rlp

def appendAll (codec : TxCodec) : SpanBatch → List (SingularBatch × UInt64) →
    Except SpanBatchError SpanBatch
  | b,[] => .ok b
  | b,(singular,seqNum)::more =>
    match b.appendSingularBatch codec singular seqNum with
    | (_,some e) => .error e
    | (b,none) => appendAll codec b more

def roundTrip (codec : TxCodec) (blockTime genesisTimestamp : UInt64) (chainID : Nat)
    (blocks : List (SingularBatch × UInt64)) : Except SpanBatchError SpanBatch := do
  let b ← appendAll codec (.newSpanBatch genesisTimestamp chainID) blocks
  let raw ← b.toRawSpanBatch
  let bytes ← raw.encode
  let (decoded,_) ← RawSpanBatch.decode codec bytes
  decoded.derive codec blockTime genesisTimestamp chainID

def Follows (blockTime : UInt64) (a b : SingularBatch) : Prop :=
  b.timestamp.toNat = a.timestamp.toNat + blockTime.toNat ∧
  (b.epochNum = a.epochNum ∨ b.epochNum.toNat = a.epochNum.toNat + 1)

structure Accumulated (codec : TxCodec) (genesisTimestamp : UInt64) (chainID : Nat)
    (blocks : List SingularBatch) (txs : List Transaction) (b : SpanBatch) : Prop where
  genesis : b.genesisTimestamp = genesisTimestamp
  chain : b.chainID = chainID
  batches : b.batches = blocks.map singularBatchToElement
  bits : ∃ bits : List Bool,b.originBits = ofBits bits ∧ bits.length = blocks.length ∧
    ∀ pre x y post,blocks = pre ++ x::y::post →
      bits.getD (pre.length + 1) false = decide (x.epochNum < y.epochNum)
  counts : b.blockTxCounts = blocks.map fun s => s.transactions.length
  sbtxs : b.sbtxs = columns codec txs
  transactions : (blocks.map SingularBatch.transactions).flatten = txs.map codec.marshalBinary

section
variable {codec : TxCodec} {genesisTimestamp : UInt64} {chainID : Nat}
  {blocks : List SingularBatch} {txs : List Transaction} {b : SpanBatch}

theorem accumulated_nil (codec : TxCodec) (genesisTimestamp : UInt64) (chainID : Nat) :
    Accumulated codec genesisTimestamp chainID [] [] (.newSpanBatch genesisTimestamp chainID) := by
  refine ⟨rfl,rfl,rfl,⟨[],rfl,rfl,?_⟩,rfl,rfl,rfl⟩
  intro pre x y post h
  simp at h

private theorem getLast?_map_element (blocks : List SingularBatch) :
    (blocks.map singularBatchToElement).getLast? = blocks.getLast?.map singularBatchToElement := by
  simp

variable {bits : List Bool} {blockTime : UInt64} {n : Nat} {inner : Bytes} {s : SingularBatch}
  {P : Transaction → Prop} {raw : RawSpanBatch}

theorem bits_append {bit : Bool} (hl : bits.length = blocks.length)
    (h : ∀ pre x y post,blocks = pre ++ x::y::post →
      bits.getD (pre.length + 1) false = decide (x.epochNum < y.epochNum))
    (hb : ∀ x,blocks.getLast? = some x → bit = decide (x.epochNum < s.epochNum)) :
    ∀ pre x y post,blocks ++ [s] = pre ++ x::y::post →
      (bits ++ [bit]).getD (pre.length + 1) false = decide (x.epochNum < y.epochNum) := by
  intro pre x y post he
  rcases eq_nil_or_concat post with rfl | ⟨post,z,rfl⟩
  · have hsp : blocks ++ [s] = (pre ++ [x]) ++ [y] := by simpa using he
    obtain ⟨rfl,hs⟩ := append_inj' hsp rfl
    simp only [cons.injEq,and_true] at hs
    subst hs
    have hbit := hb x (by simp)
    have hlen : bits.length = pre.length + 1 := by simpa using hl
    rw [getD_eq_getElem?_getD,← hlen,getElem?_concat_length]
    exact hbit
  have hsp : blocks ++ [s] = (pre ++ x::y::post) ++ [z] := by simpa using he
  obtain ⟨rfl,-⟩ := append_inj' hsp rfl
  have hbit := h pre x y post rfl
  have hlt : pre.length + 1 < bits.length := by
    rw [hl]
    simp
  rw [getD_eq_getElem?_getD,getElem?_append_left hlt]
  exact hbit

theorem append_accumulated (hc : Lawful codec)
    (ha : Accumulated codec genesisTimestamp chainID blocks txs b) (s : SingularBatch)
    (seqNum : UInt64) (more : List Transaction) (hm : s.transactions = more.map codec.marshalBinary)
    (hw : ∀ tx ∈ more,WellFormed chainID tx ∧ (codec.marshalBinary tx).length < 2 ^ 64)
    (ho : ∀ x,blocks.getLast? = some x → x.timestamp ≤ s.timestamp) :
    ∃ b',b.appendSingularBatch codec s seqNum = (b',none) ∧
      Accumulated codec genesisTimestamp chainID (blocks ++ [s]) (txs ++ more) b' := by
  obtain ⟨bits,hbits,hlen,hchange⟩ := ha.bits
  have hls : b.batches.getLast? = blocks.getLast?.map singularBatchToElement := by
    rw [ha.batches,getLast?_map_element]
  have hadd := addTxs_columns hc txs more hw
  have hord : (b.batches.getLast?.any fun e => s.timestamp < e.timestamp) = false := by
    rw [hls]
    cases hx : blocks.getLast? with
    | none => rfl
    | some x =>
      have hle := ho x hx
      simpa [singularBatchToElement] using hle
  have hcount : b.batches.length = bits.length := by rw [ha.batches,hlen,length_map]
  have hset : ∀ bit,setBit b.originBits b.batches.length bit = ofBits (bits ++ [bit]) := by
    intro bit
    rw [hbits,hcount,setBit_ofBits]
  unfold SpanBatch.appendSingularBatch
  simp only [hord,ha.sbtxs,ha.chain,hm,hadd]
  refine ⟨_,rfl,?_⟩
  constructor
  · exact ha.genesis
  · rfl
  · simp [ha.batches]
  · refine ⟨_,hset _,by simp [hlen],bits_append hlen hchange ?_⟩
    intro x hx
    simp [hls,hx,singularBatchToElement]
  · simp [ha.counts,hm]
  · rfl
  · simp [ha.transactions,hm]

/-- A transaction as it stands in a batch: the encoding of a well-formed transaction. A byte
slice's length fits in 64 bits. -/
def Encodes (codec : TxCodec) (chainID : Nat) (raw : Bytes) (tx : Transaction) : Prop :=
  raw = codec.marshalBinary tx ∧ WellFormed chainID tx ∧ raw.length < 2 ^ 64

theorem exists_transactions (raws : List Bytes)
    (h : ∀ raw ∈ raws,∃ tx,Encodes codec chainID raw tx ∧ P tx) :
    ∃ txs : List Transaction,raws = txs.map codec.marshalBinary ∧
      ∀ tx ∈ txs,(WellFormed chainID tx ∧ (codec.marshalBinary tx).length < 2 ^ 64) ∧ P tx := by
  induction raws with
  | nil => exact ⟨[],rfl,by simp⟩
  | cons raw raws ih =>
    obtain ⟨tx,⟨hraw,hw,hl⟩,hp⟩ := h raw (by simp)
    obtain ⟨txs,hraws,htxs⟩ := ih (fun r hr => h r (mem_cons_of_mem _ hr))
    refine ⟨tx::txs,by simp [← hraw,← hraws],?_⟩
    intro t ht
    rcases mem_cons.mp ht with rfl | ht
    · exact ⟨⟨hw,hraw ▸ hl⟩,hp⟩
    · exact htxs t ht

theorem appendAll_accumulated (hc : Lawful codec)
    (ha : Accumulated codec genesisTimestamp chainID blocks txs b)
    (more : List (SingularBatch × UInt64))
    (hf : (blocks ++ more.map Prod.fst).IsChain (Follows blockTime))
    (hm : ∀ s ∈ more.map Prod.fst,∀ raw ∈ s.transactions,∃ tx,Encodes codec chainID raw tx ∧ P tx)
    (hp : ∀ tx ∈ txs,WellFormed chainID tx ∧ P tx) : ∃ b' all,appendAll codec b more = .ok b' ∧
      Accumulated codec genesisTimestamp chainID (blocks ++ more.map Prod.fst) all b' ∧
      ∀ tx ∈ all,WellFormed chainID tx ∧ P tx := by
  induction more generalizing blocks txs b with
  | nil => exact ⟨b,txs,rfl,by simpa using ha,hp⟩
  | cons head more ih =>
    obtain ⟨s,seqNum⟩ := head
    obtain ⟨new,hnew,hnw⟩ := exists_transactions s.transactions (hm s (by simp))
    have ho : ∀ x,blocks.getLast? = some x → x.timestamp ≤ s.timestamp := by
      intro x hx
      obtain ⟨pre,rfl⟩ := getLast?_eq_some_iff.mp hx
      have hxs : Follows blockTime x s := by
        rw [map_cons,append_assoc] at hf
        exact (isChain_append_cons_cons.mp hf).2.1
      rw [le_iff_toNat_le,hxs.1]
      omega
    obtain ⟨b1,hb1,ha1⟩ := append_accumulated hc ha s seqNum new hnew (fun t ht => (hnw t ht).1) ho
    have hall : ∀ tx ∈ txs ++ new,WellFormed chainID tx ∧ P tx := by
      intro tx ht
      rcases mem_append.mp ht with ht | ht
      · exact hp tx ht
      · exact ⟨(hnw tx ht).1.1,(hnw tx ht).2⟩
    obtain ⟨b2,all,hb2,ha2,hw2⟩ := ih ha1 (by simpa using hf)
      (fun t ht => hm t (mem_cons_of_mem _ ht)) hall
    refine ⟨b2,all,?_,by simpa using ha2,hw2⟩
    simp only [appendAll,hb1]
    exact hb2

theorem decodeCheck_reads (field : Field) (check : FixedBytes 20) :
    Reader.Reads (decodeCheck field) check.bytes check := by
  have hr := Reader.full_reads_of_length check.size (SpanBatchError.read field)
  intro rest
  unfold decodeCheck
  rw [Reader.bind_eq,hr rest]
  simp only [FixedBytes.ofBytes?_bytes]
  rfl

private theorem toNat_ofNat_le (h : n ≤ maxSpanBatchElementCount) : (ofNat n).toNat = n := by
  unfold maxSpanBatchElementCount at h
  simp only [toNat_ofNat']
  omega

theorem decodeBlockCount_reads (h : n ≤ maxSpanBatchElementCount) (hp : 0 < n) :
    Reader.Reads decodeBlockCount (putUvarint (ofNat n)) n := by
  have hr := putUvarint_reads (SpanBatchError.read .blockCount) (ofNat n)
  have hn := toNat_ofNat_le h
  have hz : ¬ ofNat n = 0 := by
    intro he
    rw [he] at hn
    simp only [reduceToNat] at hn
    omega
  intro rest
  unfold decodeBlockCount
  rw [Reader.bind_eq,hr rest]
  simp only [hn,hz]
  rw [if_neg (by omega)]
  rfl

theorem decodeBlockTxCount_reads (h : n ≤ maxSpanBatchElementCount) :
    Reader.Reads decodeBlockTxCount (putUvarint (ofNat n)) n := by
  have hr := putUvarint_reads (SpanBatchError.read .blockTxCount) (ofNat n)
  have hn := toNat_ofNat_le h
  intro rest
  unfold decodeBlockTxCount
  rw [Reader.bind_eq,hr rest]
  simp only [hn]
  rw [if_neg (by omega)]
  rfl

def outerBytes (raw : RawSpanBatch) (txs : Bytes) : Bytes :=
  putUvarint raw.relTimestamp ++ (putUvarint raw.l1OriginNum ++ (raw.parentCheck.bytes ++
    (raw.l1OriginCheck.bytes ++ (putUvarint (ofNat raw.blockCount) ++
    (beBytes (bitsLen raw.blockCount) raw.originBits ++
    ((raw.blockTxCounts.map fun n => putUvarint (ofNat n)).flatten ++ txs))))))

theorem encode_eq (raw : RawSpanBatch) (hb : raw.originBits = ofBits bits)
    (hl : bits.length = raw.blockCount) (ht : raw.txs.encode = .ok inner) :
    raw.encode = .ok (outerBytes raw inner) := by
  have he := encodeSpanBatchBits_ofBits .originBits bits
  rw [hl,← hb] at he
  simp only [RawSpanBatch.encode,he,ht]
  simp [outerBytes,RawSpanBatch.encodePrefix]

theorem originBits_reads (hb : raw.originBits = ofBits bits) (hl : bits.length = raw.blockCount) :
    Reader.Reads (decodeSpanBatchBits .originBits raw.blockCount)
      (beBytes (bitsLen raw.blockCount) raw.originBits) raw.originBits := by
  have h := decodeSpanBatchBits_ofBits .originBits bits
  rw [hl,← hb] at h
  exact h

theorem blockTxCounts_reads (hcount : raw.blockTxCounts.length = raw.blockCount)
    (htotal : raw.blockTxCounts.sum ≤ maxSpanBatchElementCount) :
    Reader.Reads (.many decodeBlockTxCount raw.blockCount)
      (raw.blockTxCounts.map fun n => putUvarint (ofNat n)).flatten raw.blockTxCounts := by
  rw [← hcount]
  exact Reader.many_reads_map (fun n => putUvarint (ofNat n)) raw.blockTxCounts
    (fun n hn => decodeBlockTxCount_reads ((le_sum_of_mem hn).trans htotal))

theorem decodeTxs_eq {counts : List Nat} (htotal : counts.sum ≤ maxSpanBatchElementCount) :
    decodeTxs codec counts = SpanBatchTxs.decode codec counts.sum := by
  have h64 : ¬ 2 ^ 64 ≤ counts.sum := by
    unfold maxSpanBatchElementCount at htotal
    omega
  unfold decodeTxs
  rw [if_neg h64,if_neg (by omega)]

section
variable (raw : RawSpanBatch) (hb : raw.originBits = ofBits bits)
  (hl : bits.length = raw.blockCount) (hcount : raw.blockTxCounts.length = raw.blockCount)
  (hpos : 0 < raw.blockCount) (hblocks : raw.blockCount ≤ maxSpanBatchElementCount)
  (htotal : raw.blockTxCounts.sum ≤ maxSpanBatchElementCount)
include hb hl hcount hpos hblocks htotal

theorem decode_reads {txs : Derive.SpanBatchTxs}
    (ht : Reader.Reads (SpanBatchTxs.decode codec raw.blockTxCounts.sum) inner txs) :
    Reader.Reads (RawSpanBatch.decode codec) (outerBytes raw inner) { raw with txs } := by
  have hcounts := blockTxCounts_reads hcount htotal
  have htxs : Reader.Reads (RawSpanBatch.decodeTxs codec raw.blockTxCounts) inner txs := by
    rw [decodeTxs_eq htotal]
    exact ht
  exact (putUvarint_reads _ _).bind ((putUvarint_reads _ _).bind ((decodeCheck_reads _ _).bind
    ((decodeCheck_reads _ _).bind ((decodeBlockCount_reads hblocks hpos).bind
    ((originBits_reads hb hl).bind (hcounts.bind (htxs.map _)))))))

theorem decode_rejects_of_txs {e : SpanBatchError}
    (ht : Reader.Rejects (SpanBatchTxs.decode codec raw.blockTxCounts.sum) inner e) :
    Reader.Rejects (RawSpanBatch.decode codec) (outerBytes raw inner) e := by
  have hcounts := blockTxCounts_reads hcount htotal
  have htxs : Reader.Rejects (RawSpanBatch.decodeTxs codec raw.blockTxCounts) inner e := by
    rw [decodeTxs_eq htotal]
    exact ht
  exact (putUvarint_reads _ _).bind_rejects ((putUvarint_reads _ _).bind_rejects
    ((decodeCheck_reads _ _).bind_rejects ((decodeCheck_reads _ _).bind_rejects
    ((decodeBlockCount_reads hblocks hpos).bind_rejects ((originBits_reads hb hl).bind_rejects
    (hcounts.bind_rejects htxs.bind))))))

end

/-- The origins are rebuilt from the last block down: at each block the bit says whether the block
before it is one epoch lower. -/
theorem blockOriginNums_eq (pre : List SingularBatch) (last : UInt64) (nums : List UInt64)
    (hlast : ∀ x,pre.getLast? = some x → x.epochNum = last) (hf : pre.IsChain (Follows blockTime))
    (hb : ∀ p x y q,pre = p ++ x::y::q →
      bits.getD (p.length + 1) false = decide (x.epochNum < y.epochNum)) :
    blockOriginNums (ofBits bits) pre.length last nums =
      pre.map SingularBatch.epochNum ++ nums := by
  induction pre using reverseRecOn generalizing last nums with
  | nil => rfl
  | append_singleton pre y ih =>
    have hy := hlast y (by simp)
    subst hy
    rw [length_append,length_singleton]
    rw [map_append,append_assoc,map_singleton]
    refine ih _ _ ?_ hf.left_of_append ?_
    · intro x hx
      obtain ⟨p,rfl⟩ := getLast?_eq_some_iff.mp hx
      have hxy : Follows blockTime x y := by
        rw [append_assoc] at hf
        exact (isChain_append_cons_cons.mp hf).2.1
      have hbit := hb p x y [] (by simp)
      rw [← testBit_ofBits] at hbit
      simp only [length_append,length_singleton,hbit,decide_eq_true_eq,Nat.zero_lt_succ,and_true]
      rcases hxy.2 with he | he
      · simp [he]
      have hlt : x.epochNum < y.epochNum := by
        rw [lt_iff_toNat_lt]
        omega
      rw [if_pos hlt,← UInt64.toNat_inj,UInt64.toNat_sub_of_le _ _ (by
        rw [le_iff_toNat_le]
        simp only [reduceToNat]
        omega)]
      simp only [reduceToNat]
      omega
    · intro p x z q he
      exact hb p x z (q ++ [y]) (by simp [he])

/-- The flat list of transactions is cut back into the blocks, `i` blocks after the first. -/
theorem deriveBlocks_eq (start blockTime : UInt64) (i : Nat) (rest : List SingularBatch)
    (htime : ∀ x,rest.head? = some x → x.timestamp = start + blockTime * ofNat i)
    (hf : rest.IsChain (Follows blockTime)) :
    deriveBlocks start blockTime i (rest.map SingularBatch.epochNum)
      (rest.map fun s => s.transactions.length)
      (rest.map SingularBatch.transactions).flatten = .ok (rest.map singularBatchToElement) := by
  induction rest generalizing i with
  | nil => rfl
  | cons x rest ih =>
    have hx := htime x rfl
    have hi := ih (i + 1) (by
      intro y hy
      obtain ⟨rest,rfl⟩ := head?_eq_some_iff.mp hy
      have hxy := (isChain_cons_cons.mp hf).1
      have hadd : y.timestamp = x.timestamp + blockTime := by
        have hlt := y.timestamp.toNat_lt
        rw [← UInt64.toNat_inj,UInt64.toNat_add,hxy.1,Nat.mod_eq_of_lt (hxy.1 ▸ hlt)]
      rw [hadd,ofNat_add]
      grind) hf.tail
    simp only [map_cons,flatten_cons,deriveBlocks,length_append,drop_left,take_left,hi]
    rw [if_neg (by omega),← hx]
    rfl

structure SpanInput (codec : TxCodec) (blockTime genesisTimestamp : UInt64) (chainID : Nat)
    (blocks : List SingularBatch) : Prop where
  nonempty : blocks ≠ []
  follows : blocks.IsChain (Follows blockTime)
  genesis : ∀ s ∈ blocks.head?,genesisTimestamp ≤ s.timestamp
  blockLimit : blocks.length ≤ maxSpanBatchElementCount
  txLimit : (blocks.map fun s => s.transactions.length).sum ≤ maxSpanBatchElementCount
  encodes : ∀ s ∈ blocks,∀ raw ∈ s.transactions,∃ tx,Encodes codec chainID raw tx

/-- The span batch comes back with the same checks and the same blocks. -/
def RoundTrips (codec : TxCodec) (blockTime genesisTimestamp : UInt64) (chainID : Nat)
    (blocks : List (SingularBatch × UInt64)) : Prop :=
  ∃ b derived,appendAll codec (.newSpanBatch genesisTimestamp chainID) blocks = .ok b ∧
    roundTrip codec blockTime genesisTimestamp chainID blocks = .ok derived ∧
    derived.parentCheck = b.parentCheck ∧ derived.l1OriginCheck = b.l1OriginCheck ∧
    derived.batches = blocks.map fun s => singularBatchToElement s.1

def rawSpan (genesisTimestamp : UInt64) (b : SpanBatch) (blocks : List SingularBatch)
    (first last : SingularBatch) (cols : Derive.SpanBatchTxs) : RawSpanBatch where
  relTimestamp := first.timestamp - genesisTimestamp
  l1OriginNum := last.epochNum
  parentCheck := b.parentCheck
  l1OriginCheck := b.l1OriginCheck
  blockCount := blocks.length
  originBits := b.originBits
  blockTxCounts := blocks.map fun s => s.transactions.length
  txs := cols

section
variable (ha : Accumulated codec genesisTimestamp chainID blocks txs b)
include ha

theorem toRaw_accumulated (first last : SingularBatch) (hfirst : blocks.head? = some first)
    (hlast : blocks.getLast? = some last) : b.toRawSpanBatch =
      .ok (rawSpan genesisTimestamp b blocks first last (columns codec txs)) := by
  have hf : b.batches.head? = some (singularBatchToElement first) := by
    rw [ha.batches,head?_map,hfirst,Option.map_some]
  have hl : b.batches.getLast? = some (singularBatchToElement last) := by
    rw [ha.batches,getLast?_map_element,hlast,Option.map_some]
  simp only [SpanBatch.toRawSpanBatch,hf,hl,singularBatchToElement,ha.genesis,ha.counts,ha.sbtxs,
    rawSpan]
  rw [ha.batches,length_map]

theorem sum_counts : (blocks.map fun s => s.transactions.length).sum = txs.length := by
  have hl := congrArg length ha.transactions
  rw [length_flatten,map_map,length_map] at hl
  exact hl

theorem derive_accumulated (hc : Lawful codec) (hf : blocks.IsChain (Follows blockTime))
    (first last : SingularBatch) (hfirst : blocks.head? = some first)
    (hlast : blocks.getLast? = some last)
    (hw : ∀ tx ∈ txs,WellFormed chainID tx ∧ ((spanTx tx).rlpEncode codec).length < 2 ^ 64) :
    ∃ derived,(rawSpan genesisTimestamp b blocks first last
        (withoutV (columns codec txs))).derive codec blockTime genesisTimestamp chainID =
        .ok derived ∧
      derived.parentCheck = b.parentCheck ∧ derived.l1OriginCheck = b.l1OriginCheck ∧
      derived.batches = blocks.map singularBatchToElement := by
  obtain ⟨bits,hbits,-,hchange⟩ := ha.bits
  have hpos : blocks.length ≠ 0 := by
    intro hz
    rw [length_eq_zero_iff] at hz
    simp [hz] at hfirst
  have hnums := blockOriginNums_eq blocks last.epochNum [] (by
    intro x hx
    rw [hlast,Option.some.injEq] at hx
    rw [hx]) hf hchange
  have hsta : genesisTimestamp + (first.timestamp - genesisTimestamp) = first.timestamp := by grind
  have hblocks := deriveBlocks_eq first.timestamp blockTime 0 blocks (by
    intro x hx
    rw [hfirst,Option.some.injEq] at hx
    simp [hx]) hf
  refine ⟨{ parentCheck := b.parentCheck, l1OriginCheck := b.l1OriginCheck
            batches := blocks.map singularBatchToElement },?_,rfl,rfl,rfl⟩
  simp only [derive,rawSpan,hpos,hbits,hnums,append_nil,
    recoverV_columns codec txs (fun t ht => (hw t ht).1),ok_bind,
    fullTxs_columns hc txs hw,← ha.transactions,hsta,hblocks]
  rfl

end

theorem span_batch_round_trip (hc : Lawful codec) (blockTime genesisTimestamp : UInt64)
    (chainID : Nat) (blocks : List (SingularBatch × UInt64))
    (h : SpanInput codec blockTime genesisTimestamp chainID (blocks.map Prod.fst))
    (hsize : ∀ s ∈ blocks,∀ raw ∈ s.1.transactions,∀ tx,Encodes codec chainID raw tx →
      ((spanTx tx).rlpEncode codec).length ≤ maxSpanBatchElementCount) :
    RoundTrips codec blockTime genesisTimestamp chainID blocks := by
  obtain ⟨first,hfst⟩ : ∃ x,(blocks.map Prod.fst).head? = some x := by
    cases hx : (blocks.map Prod.fst).head? with
    | none => exact absurd (head?_eq_none_iff.mp hx) h.nonempty
    | some x => exact ⟨x,rfl⟩
  obtain ⟨last,hls⟩ : ∃ x,(blocks.map Prod.fst).getLast? = some x := by
    cases hx : (blocks.map Prod.fst).getLast? with
    | none => exact absurd (getLast?_eq_none_iff.mp hx) h.nonempty
    | some x => exact ⟨x,rfl⟩
  have hm : ∀ s ∈ blocks.map Prod.fst,∀ raw ∈ s.transactions,∃ tx,Encodes codec chainID raw tx ∧
      ((spanTx tx).rlpEncode codec).length ≤ maxSpanBatchElementCount := by
    intro s hs raw hr
    obtain ⟨tx,ht⟩ := h.encodes s hs raw hr
    obtain ⟨p,hp,rfl⟩ := mem_map.mp hs
    exact ⟨tx,ht,hsize p hp raw hr tx ht⟩
  obtain ⟨b,txs,hb,ha,hw⟩ := appendAll_accumulated hc
    (accumulated_nil codec genesisTimestamp chainID)
    blocks (by simpa using h.follows) hm (by simp)
  rw [nil_append] at ha
  obtain ⟨bits,hbits,hlen,-⟩ := ha.bits
  have hsum := sum_counts ha
  have hraw := toRaw_accumulated ha first last hfst hls
  have hdec := decode_columns hc txs hw (hsum ▸ h.txLimit)
  rw [← hsum] at hdec
  have hpos := length_pos_of_ne_nil h.nonempty
  have hrds := decode_reads
    (rawSpan genesisTimestamp b (blocks.map Prod.fst) first last (columns codec txs))
    hbits hlen (by simp [rawSpan]) hpos h.blockLimit h.txLimit hdec []
  obtain ⟨derived,hder,hpc,hoc,hbs⟩ := derive_accumulated ha hc h.follows first last hfst hls
    (fun t ht => ⟨(hw t ht).1,lt_of_le_of_lt (hw t ht).2 (by decide)⟩)
  refine ⟨b,derived,hb,?_,hpc,hoc,by rw [hbs,map_map]; rfl⟩
  have henc := encode_eq
    (rawSpan genesisTimestamp b (blocks.map Prod.fst) first last (columns codec txs))
    hbits hlen (encode_columns txs codec)
  rw [append_nil] at hrds
  simp only [roundTrip,hb,hraw,ok_bind,henc,hrds]
  exact hder

/-- A span of one block with one legacy transaction over the limit cannot be decoded again. -/
theorem oversized_not_roundTrips {tx : LegacyTx} (hc : Lawful codec)
    (blockTime genesisTimestamp seqNum : UInt64) (chainID : Nat)
    (hs : s.transactions = [codec.marshalBinary (.legacy tx)])
    (hw : Encodes codec chainID (codec.marshalBinary (.legacy tx)) (.legacy tx))
    (hl : maxSpanBatchElementCount < ((spanTx (.legacy tx)).rlpEncode codec).length)
    (h64 : ((spanTx (.legacy tx)).rlpEncode codec).length < 2 ^ 64) :
    ¬ RoundTrips codec blockTime genesisTimestamp chainID [(s,seqNum)] := by
  obtain ⟨b,hb,ha⟩ := append_accumulated hc (accumulated_nil codec genesisTimestamp chainID)
    s seqNum [.legacy tx] (by simpa using hs) (by simpa using hw.2) (by simp)
  obtain ⟨bits,hbits,hlen,-⟩ := ha.bits
  have happ : appendAll codec (.newSpanBatch genesisTimestamp chainID) [(s,seqNum)] = .ok b := by
    simp [appendAll,hb]
  have hraw := toRaw_accumulated ha s s rfl rfl
  have hsum := sum_counts ha
  have hone : [Transaction.legacy tx].length ≤ maxSpanBatchElementCount := by
    simp [maxSpanBatchElementCount]
  have hdec := decode_rejects hc [] hl h64 hone
  have hrej := decode_rejects_of_txs
    (rawSpan genesisTimestamp b [s] s s (columns codec [.legacy tx])) hbits hlen
    (by simp [rawSpan]) Nat.one_pos hone (hsum ▸ hone) (hsum ▸ hdec) []
  have henc := encode_eq (rawSpan genesisTimestamp b [s] s s (columns codec [.legacy tx]))
    hbits hlen (encode_columns [.legacy tx] codec)
  rw [append_nil] at hrej
  rintro ⟨-,derived,-,hrt,-⟩
  simp only [nil_append] at hraw
  simp only [roundTrip,happ,hraw,ok_bind,error_bind,henc,hrej,reduceCtorEq] at hrt

theorem Encodes.unique (hc : Lawful codec) {raw : Bytes} {tx tx' : Transaction}
    (h : Encodes codec chainID raw tx) (h' : Encodes codec chainID raw tx') : tx = tx' := by
  obtain ⟨rfl,hw,hl⟩ := h
  obtain ⟨he,hw',-⟩ := h'
  have hu := hc.unmarshal_marshal tx (not_other hw) hl
  rw [he] at hl hu
  rw [hc.unmarshal_marshal tx' (not_other hw') hl,Option.some.injEq] at hu
  exact hu.symm

end

open RlpCodecs

def sampleLegacy : Transaction :=
  .legacy
    { nonce := 3, gasPrice := 1000000000, gas := 53000, toAddr := none, value := 7,
      data := [0x60,0x00], v := 56, r := 81985529216486895, s := 9 }

def sampleDynamicFee : Transaction :=
  .dynamicFee
    { chainID := 10, nonce := 300, gasTipCap := 1, gasFeeCap := 2000000000, gas := 21000,
      toAddr := some (.fill 20 0xaa), value := 0, data := [],
      accessList := [⟨.fill 20 0xbb,[.fill 32 1]⟩], v := 1, r := 5, s := 6 }

def sampleBlocks : List (SingularBatch × UInt64) :=
  [(⟨.fill 32 1,100,.fill 32 2,1000,[marshalBinary sampleLegacy]⟩,4),
   (⟨.fill 32 0,101,.fill 32 3,1002,[marshalBinary sampleDynamicFee,marshalBinary sampleLegacy]⟩,0)]

theorem encodes_sampleLegacy : Encodes txCodec 10 (marshalBinary sampleLegacy) sampleLegacy :=
  ⟨rfl,⟨by decide,by decide,by decide⟩,by decide +kernel⟩

theorem encodes_sampleDynamicFee :
    Encodes txCodec 10 (marshalBinary sampleDynamicFee) sampleDynamicFee :=
  ⟨rfl,⟨rfl,by decide,by decide,by decide⟩,by decide +kernel⟩

theorem sampleBlocks_raw {s : SingularBatch × UInt64} (hs : s ∈ sampleBlocks) {raw : Bytes}
    (hr : raw ∈ s.1.transactions) :
    raw = marshalBinary sampleLegacy ∨ raw = marshalBinary sampleDynamicFee := by
  simp only [sampleBlocks,mem_cons,not_mem_nil,or_false] at hs
  rcases hs with rfl | rfl
  · exact .inl (mem_singleton.mp hr)
  · simp only [mem_cons,not_mem_nil,or_false] at hr
    exact hr.symm

theorem sampleBlocks_spanInput : SpanInput txCodec 2 990 10 (sampleBlocks.map Prod.fst) where
  nonempty := by simp [sampleBlocks]
  follows := by
    simp only [sampleBlocks,map_cons,map_nil,isChain_cons_cons,isChain_singleton,and_true]
    exact ⟨rfl,.inr rfl⟩
  genesis := by simp [sampleBlocks]
  blockLimit := by decide
  txLimit := by decide
  encodes := by
    intro s hs raw hr
    obtain ⟨p,hp,rfl⟩ := mem_map.mp hs
    rcases sampleBlocks_raw hp hr with rfl | rfl
    · exact ⟨_,encodes_sampleLegacy⟩
    · exact ⟨_,encodes_sampleDynamicFee⟩

theorem span_batch_round_trip_sample : RoundTrips txCodec 2 990 10 sampleBlocks := by
  refine span_batch_round_trip RlpCodec.lawful 2 990 10 sampleBlocks sampleBlocks_spanInput ?_
  intro s hs raw hr tx htx
  rcases sampleBlocks_raw hs hr with rfl | rfl
  · rw [htx.unique RlpCodec.lawful encodes_sampleLegacy]
    decide +kernel
  · rw [htx.unique RlpCodec.lawful encodes_sampleDynamicFee]
    decide +kernel

def zerosTx (n : Nat) : LegacyTx :=
  { nonce := 0, gasPrice := 0, gas := 0, toAddr := none, value := 0, data := .replicate n 0,
    v := 27, r := 1, s := 1 }

def zerosBlock (n : Nat) : SingularBatch :=
  ⟨.fill 32 1,100,.fill 32 2,1000,[marshalBinary (.legacy (zerosTx n))]⟩

theorem zerosTx_data (n : Nat) : (spanTx (.legacy (zerosTx n))).rlpEncode txCodec =
    header 192 ([0x80,0x80] ++ encodeBytes (replicate n 0)).length ++
      ([0x80,0x80] ++ Rlp.encodeBytes (replicate n 0)) := by
  have h0 : natBytes 0 = [] := rfl
  simp [spanTx,SpanBatchTx.rlpEncode,txCodec,StructLayout.codec,StructLayout.encode,legacyData,
    zerosTx,natLayout,bytesLayout,Rlp.encode,Rlp.encodeAll,h0,Rlp.encodeBytes,Rlp.header]

theorem zerosTx_marshal (n : Nat) : marshalBinary (.legacy (zerosTx n)) =
    Rlp.header 192 ([0x80,0x80,0x80,0x80,0x80] ++ (Rlp.encodeBytes (replicate n 0) ++
      [0x1b,0x01,0x01])).length ++
    ([0x80,0x80,0x80,0x80,0x80] ++ (Rlp.encodeBytes (replicate n 0) ++ [0x1b,0x01,0x01])) := by
  have h0 : natBytes 0 = [] := rfl
  have h1 : natBytes 1 = [0x01] := by decide
  have h27 : natBytes 27 = [0x1b] := by decide
  simp [marshalBinary,StructLayout.encode,legacyTx,zerosTx,uint64Layout,natLayout,bytesLayout,
    toLayout,Rlp.encode,Rlp.encodeAll,h0,h1,h27,Rlp.encodeBytes,Rlp.header]

variable {n : Nat}

theorem zerosTx_lengths (h : n < 2 ^ 32) :
    n < ((spanTx (.legacy (zerosTx n))).rlpEncode txCodec).length ∧
    ((spanTx (.legacy (zerosTx n))).rlpEncode txCodec).length < 2 ^ 64 ∧
    (marshalBinary (.legacy (zerosTx n))).length < 2 ^ 64 := by
  have hge := encodeBytes_length_ge (replicate n (0 : UInt8))
  have hle := encodeBytes_length_le (replicate n 0) (by
    rw [length_replicate]
    omega)
  rw [length_replicate] at hge hle
  have hhd : ∀ size,size < 2 ^ 64 → (header 192 size).length ≤ 9 :=
    fun _ hs => header_length_le 192 hs
  have h1 := hhd (2 + (encodeBytes (replicate n 0)).length) (by omega)
  have h2 := hhd (5 + ((encodeBytes (replicate n 0)).length + 3)) (by omega)
  rw [zerosTx_data,zerosTx_marshal,length_append]
  simp only [length_append,length_cons,length_nil,Nat.reduceAdd] at h1 h2 ⊢
  omega

theorem encodes_zerosTx (h : n < 2 ^ 32) :
    Encodes txCodec 10 (marshalBinary (.legacy (zerosTx n))) (.legacy (zerosTx n)) := by
  refine ⟨rfl,⟨.inl rfl,?_,?_⟩,(zerosTx_lengths h).2.2⟩
  · simp [zerosTx]
  · simp [zerosTx]

theorem zerosBlock_spanInput (h : n < 2 ^ 32) : SpanInput txCodec 2 990 10 [zerosBlock n] where
  nonempty := by simp
  follows := isChain_singleton _
  genesis := by simp [zerosBlock]
  blockLimit := by simp [maxSpanBatchElementCount]
  txLimit := by simp [zerosBlock,maxSpanBatchElementCount]
  encodes := by
    intro s hs raw hr
    rw [mem_singleton] at hs
    subst hs
    rw [zerosBlock,mem_singleton] at hr
    exact ⟨_,hr ▸ encodes_zerosTx h⟩

/-- Data of more than ten million bytes in one transaction: the input is a list of consecutive
blocks with well-formed transactions, and the round trip fails in `ReadTxData`. -/
theorem span_batch_round_trip_oversized : SpanInput txCodec 2 990 10 [zerosBlock 10000000] ∧
    ¬ RoundTrips txCodec 2 990 10 [(zerosBlock 10000000,0)] :=
  have h : 10000000 < 2 ^ 32 := by decide
  ⟨zerosBlock_spanInput h,oversized_not_roundTrips RlpCodec.lawful 2 990 0 10 rfl
    (encodes_zerosTx h) (zerosTx_lengths h).1 (zerosTx_lengths h).2.1⟩

end OpStack.Proofs.SpanBatchRoundTrip
