import OpStack.Derive.Batches
import OpStack.Lib.Lists
import OpStack.Lib.Outcome

namespace OpStack.Proofs.SpanChecks
open Lib Eth Rollup Derive RawSpanBatch List

/-- The epoch stays or advances by one; the arithmetic wraps. -/
def EpochStep (a b : UInt64) : Prop := b = a ∨ b = a + 1

structure Follows (blockTime : UInt64) (a b : SpanBatchElement) : Prop where
  timestamp : b.timestamp = a.timestamp + blockTime
  epoch : EpochStep a.epochNum b.epochNum

/-- A span batch as decoding and `derive` produce it, for a chain with this block time. -/
def Derived (blockTime : UInt64) (span : SpanBatch) : Prop :=
  ∃ (codec : TxCodec) (raw : RawSpanBatch) (genesisTimestamp : UInt64) (chainID : Nat),
    raw.derive codec blockTime genesisTimestamp chainID = .ok span

def emptyBlocks (parentHash l1OriginHash : Hash) (relTimestamp l1OriginNum : UInt64)
    (blockCount originBits : Nat) : RawSpanBatch where
  relTimestamp
  l1OriginNum
  parentCheck := Hash.check parentHash
  l1OriginCheck := Hash.check l1OriginHash
  blockCount
  originBits
  blockTxCounts := replicate blockCount 0
  txs := {}

variable {nums : List UInt64} {blockTime : UInt64}

theorem blockOriginNums_chain (originBits i : Nat) {num : UInt64}
    (h : (num::nums).IsChain EpochStep) :
    (blockOriginNums originBits i num nums).IsChain EpochStep := by
  induction i generalizing num nums with
  | zero => exact (isChain_cons.mp h).2
  | succ i ih =>
    apply ih
    refine isChain_cons_cons.mpr ⟨?_,h⟩
    split
    · exact .inr (by grind)
    · exact .inl rfl

theorem deriveBlocks_follows {start : UInt64} {i : Nat}
    {counts : List Nat} {txs : List Bytes} {blocks : List SpanBatchElement}
    (h : deriveBlocks start blockTime i nums counts txs = .ok blocks)
    (hn : nums.IsChain EpochStep) :
    blocks.map SpanBatchElement.epochNum = nums ∧ blocks.IsChain (Follows blockTime) ∧
      ∀ b ∈ blocks.head?,b.timestamp = start + blockTime * .ofNat i := by
  induction nums generalizing i counts txs blocks with
  | nil =>
    cases h
    exact ⟨rfl,.nil,by simp⟩
  | cons num nums ih =>
    cases counts with
    | nil => cases h
    | cons count counts =>
      unfold deriveBlocks at h
      split at h
      · cases h
      obtain ⟨rest,hr,hrs⟩ := of_bind_ok h
      cases hrs
      obtain ⟨hnum,hst⟩ := isChain_cons.mp hn
      obtain ⟨hmap,hch,hhd⟩ := ih hr hst
      refine ⟨by rw [map_cons,hmap],isChain_cons.mpr ⟨?_,hch⟩,by simp⟩
      intro b hb
      refine ⟨?_,hnum b.epochNum ?_⟩
      · rw [hhd b hb,UInt64.ofNat_add]
        grind
      · rw [← hmap,head?_map]
        exact Option.mem_map_of_mem _ hb

theorem Derived.follows {span : SpanBatch} (h : Derived blockTime span) :
    span.batches.IsChain (Follows blockTime) := by
  obtain ⟨codec,raw,genesis,chainID,h⟩ := h
  unfold derive at h
  split at h
  · cases h
  obtain ⟨txs,-,h⟩ := of_bind_ok h
  obtain ⟨fullTxs,-,h⟩ := of_bind_ok h
  obtain ⟨blocks,hb,hspn⟩ := of_bind_ok h
  cases hspn
  exact (deriveBlocks_follows hb (blockOriginNums_chain _ _ (isChain_singleton _))).2.1

variable {cfg : Config} {l1Blocks : List L1BlockRef} {safeHead : L2BlockRef} {b : NonemptySpan}
  {inclusion : L1BlockRef} {e : SpanBatchElement}

def StartRules (cfg : Config) (safeHead : L2BlockRef) (b : NonemptySpan) : SpanStart → Prop
  | .verdict validity => validity ≠ .accept
  | .onSafeHead => b.first.timestamp = safeHead.time + cfg.blockTime ∧
      safeHead.time + cfg.blockTime ≤ b.last.timestamp
  | .onNumber num => b.first.timestamp < safeHead.time + cfg.blockTime ∧
      b.first.timestamp ≤ safeHead.time ∧
      (safeHead.time - b.first.timestamp) % cfg.blockTime = 0 ∧
      safeHead.time + cfg.blockTime ≤ b.last.timestamp ∧
      num = safeHead.number - (safeHead.time - b.first.timestamp) / cfg.blockTime - 1

theorem spanStart_rules (cfg : Config) (l1Blocks : List L1BlockRef) (safeHead : L2BlockRef)
    (b : NonemptySpan) (inclusion : L1BlockRef) :
    StartRules cfg safeHead b (spanStart cfg l1Blocks safeHead b inclusion) := by
  unfold spanStart
  split
  · exact nofun
  split
  · exact nofun
  dsimp only
  split
  · exact nofun
  split
  · split <;> exact nofun
  rename_i hfut
  split
  · split <;> exact nofun
  rename_i hpast
  have hls := UInt64.not_lt.mp hpast
  split
  · rename_i hlt
    split
    · exact nofun
    rename_i hle
    split
    · exact nofun
    · rename_i hmod
      exact ⟨hlt,UInt64.not_lt.mp hle,not_not.mp hmod,hls,rfl⟩
  · rename_i hge
    exact ⟨UInt64.le_antisymm (UInt64.not_lt.mp hfut) (UInt64.not_lt.mp hge),hls⟩

theorem checkSpanBatchPrefix_accept {fetch : UInt64 → Option L2BlockRef}
    {parent : Option L2BlockRef}
    (h : checkSpanBatchPrefix cfg l1Blocks safeHead b inclusion fetch = (.accept,parent)) :
    ∃ p,parent = some p ∧
      ((spanStart cfg l1Blocks safeHead b inclusion = .onSafeHead ∧ p = safeHead) ∨
        ∃ num,spanStart cfg l1Blocks safeHead b inclusion = .onNumber num ∧ fetch num = some p) ∧
      checkOnParent cfg l1Blocks p b inclusion = .accept := by
  have hru := spanStart_rules cfg l1Blocks safeHead b inclusion
  unfold checkSpanBatchPrefix at h
  cases hs : spanStart cfg l1Blocks safeHead b inclusion with
  | verdict validity =>
    rw [hs] at h hru
    exact absurd (Prod.mk.inj h).1 hru
  | onSafeHead =>
    rw [hs] at h
    obtain ⟨hck,rfl⟩ := Prod.mk.inj h
    exact ⟨safeHead,rfl,.inl ⟨rfl,rfl⟩,hck⟩
  | onNumber num =>
    cases hf : fetch num with
    | none => simp [hs,hf] at h
    | some p =>
      simp only [hs,hf] at h
      obtain ⟨hck,rfl⟩ := Prod.mk.inj h
      exact ⟨p,rfl,.inr ⟨num,rfl,hf⟩,hck⟩

theorem checkOnParent_accept {parent : L2BlockRef}
    (h : checkOnParent cfg l1Blocks parent b inclusion = .accept) :
    inclusion.number ≤ b.first.epochNum + cfg.seqWindowSize ∧
      parent.l1Origin.number ≤ b.first.epochNum ∧
      b.first.epochNum ≤ parent.l1Origin.number + 1 := by
  unfold checkOnParent at h
  dsimp only at h
  split at h
  · cases h
  split at h
  · cases h
  rename_i hwin
  split at h
  · cases h
  rename_i hfar
  split at h
  · cases h
  split at h
  · cases h
  split at h
  · cases h
  · rename_i hold
    exact ⟨UInt64.not_lt.mp hwin,UInt64.not_lt.mp hold,UInt64.not_lt.mp hfar⟩

theorem checkSpanBatch_accept {l2 : SafeBlockFetcher}
    (h : checkSpanBatch cfg l1Blocks safeHead b inclusion l2 = some .accept) :
    ∃ parent,checkSpanBatchPrefix cfg l1Blocks safeHead b inclusion l2.l2BlockRefByNumber =
        (.accept,some parent) ∧
      checkSpanBlocks cfg safeHead (decide (b.first.epochNum = parent.l1Origin.number + 1))
        l1Blocks none b.span.batches = .accept := by
  unfold checkSpanBatch at h
  cases hp : checkSpanBatchPrefix cfg l1Blocks safeHead b inclusion l2.l2BlockRefByNumber with
  | mk validity parent =>
    rw [hp] at h
    cases validity with
    | accept =>
      obtain ⟨p,rfl,-⟩ := checkSpanBatchPrefix_accept hp
      refine ⟨p,rfl,?_⟩
      cases hb : checkSpanBlocks cfg safeHead (decide (b.first.epochNum = p.l1Origin.number + 1))
        l1Blocks none b.span.batches with
      | accept => rfl
      | drop => simp [hb] at h
      | undecided => simp [hb] at h
      | future => simp [hb] at h
      | past => simp [hb] at h
    | drop => cases h
    | undecided => cases h
    | future => cases h
    | past => cases h

theorem checkSpanBlock_pass {o : L1BlockRef} {os : List L1BlockRef} {advanced : Bool}
    (h : checkSpanBlock cfg o os advanced e = none) : o.time ≤ e.timestamp ∧
      (o.time + cfg.maxSequencerDriftAt o.time < e.timestamp → e.transactions = [] ∧
          (advanced = true ∨ ∃ next,os.head? = some next ∧ e.timestamp < next.time)) ∧
      e.transactions.any (forbiddenTx (cfg.isIsthmus e.timestamp)) = false := by
  unfold checkSpanBlock at h
  split at h
  · cases h
  rename_i htm
  refine ⟨UInt64.not_lt.mp htm,?_⟩
  dsimp only at h
  split at h
  · cases h
  rename_i hdr
  split at h
  · cases h
  rename_i htxs
  refine ⟨?_,by simpa using htxs⟩
  intro hpast
  rw [if_pos hpast] at hdr
  split at hdr
  · rename_i hemp
    refine ⟨hemp,?_⟩
    split at hdr
    · rename_i hadv
      exact .inl hadv
    cases os with
    | nil => cases hdr
    | cons next rest =>
      dsimp only at hdr
      split at hdr
      · cases hdr
      · rename_i hlt
        exact .inr ⟨next,rfl,UInt64.not_le.mp hlt⟩
  · cases hdr

theorem checkSpanBlock_ne_accept (cfg : Config) (o : L1BlockRef) (os : List L1BlockRef)
    (advanced : Bool) (e : SpanBatchElement) :
    checkSpanBlock cfg o os advanced e ≠ some .accept := by
  unfold checkSpanBlock
  grind

theorem checkSpanBlocks_cons {startAdvanced : Bool} {origins : List L1BlockRef}
    {prevEpoch : Option UInt64} {es : List SpanBatchElement}
    (h : checkSpanBlocks cfg safeHead startAdvanced origins prevEpoch (e::es) = .accept) :
    (e.timestamp ≤ safeHead.time ∧
      checkSpanBlocks cfg safeHead startAdvanced origins (some e.epochNum) es = .accept) ∨
    (safeHead.time < e.timestamp ∧ safeHead.l1Origin.number ≤ e.epochNum ∧
      ∃ o os,origins.dropWhile (fun o => o.number ≠ e.epochNum) = o::os ∧
        checkSpanBlock cfg o os (originAdvanced startAdvanced prevEpoch e.epochNum) e = none ∧
        checkSpanBlocks cfg safeHead startAdvanced (o::os) (some e.epochNum) es = .accept) := by
  unfold checkSpanBlocks at h
  split at h
  · rename_i hsk
    exact .inl ⟨hsk,h⟩
  rename_i hnx
  split at h
  · cases h
  rename_i hold
  refine .inr ⟨UInt64.not_le.mp hnx,UInt64.not_lt.mp hold,?_⟩
  cases ho : origins.dropWhile (fun o => o.number ≠ e.epochNum) with
  | nil =>
    rw [ho] at h
    cases h
  | cons o os =>
    rw [ho] at h
    dsimp only at h
    split at h
    · rename_i validity hv
      subst h
      exact absurd hv (checkSpanBlock_ne_accept cfg o os _ e)
    · rename_i hv
      exact ⟨o,os,rfl,hv,h⟩

end OpStack.Proofs.SpanChecks
