import OpStack.Proofs.SpanConversion

namespace OpStack.Proofs.SequencingWindow
open Lib Eth Rollup Derive SpanChecks SpanConversion Proofs.Config List UInt64

/-- A verdict that does not stop the search for the next batch without finding one. -/
def Decided (validity : BatchValidity) : Prop :=
  validity = .drop ∨ validity = .future ∨ validity = .accept

def skipped (validity : Option BatchValidity) : Bool :=
  validity = some .drop || validity = some .future

theorem scanBatches_result (check : BatchWithL1InclusionBlock → Option BatchValidity)
    (batches : List BatchWithL1InclusionBlock) :
    match batches.find? fun b => !skipped (check b) with
    | none => (scanBatches check batches).2 = .exhausted
    | some b =>
      if check b = some .accept then (scanBatches check batches).2 = .found b
      else (scanBatches check batches).2 = .undecided ∨
        (scanBatches check batches).2 = .unknownValidity ∨
        (scanBatches check batches).2 = .panic := by
  induction batches with
  | nil => rfl
  | cons b bs ih =>
    cases hb : check b with
    | none =>
      rw [find?_cons_of_pos (by simp [skipped,hb])]
      simp [scanBatches,hb]
    | some validity =>
      cases validity with
      | drop =>
        rw [find?_cons_of_neg (by simp [skipped,hb])]
        simpa [scanBatches,hb] using ih
      | future =>
        rw [find?_cons_of_neg (by simp [skipped,hb])]
        simpa [scanBatches,hb] using ih
      | accept =>
        rw [find?_cons_of_pos (by simp [skipped,hb])]
        simp [scanBatches,hb]
      | undecided =>
        rw [find?_cons_of_pos (by simp [skipped,hb])]
        simp [scanBatches,hb]
      | past =>
        rw [find?_cons_of_pos (by simp [skipped,hb])]
        simp [scanBatches,hb]

variable (cfg : Config) (l2 : SafeBlockFetcher) (bq : BatchQueue) (outOfData : Bool)
  (parent : L2BlockRef)

def Progress : Prop :=
  (∃ batch,(bq.deriveNextBatch cfg l2 outOfData parent).2 = .ok batch) ∨
    (bq.deriveNextBatch cfg l2 outOfData parent).1.base.l1Blocks = bq.base.l1Blocks.tail

/-- The first buffered batch on which the verdict is neither to drop it nor to wait for its turn
is one to accept. -/
def NotHeldBack : Prop :=
  ∀ b ∈ bq.batches.find? fun b => !skipped (checkBatch cfg bq.base.l1Blocks parent b l2),
    checkBatch cfg bq.base.l1Blocks parent b l2 = some .accept

/-- The sequencing window of the first buffered L1 block has expired, with the next L1 block at
hand and a parent on the first one or on its predecessor. -/
structure Expired : Prop where
  buffered : 2 ≤ bq.base.l1Blocks.length
  parent : ∀ epoch ∈ bq.base.l1Blocks.head?,
    parent.l1Origin = epoch.id ∨ parent.l1Origin.number.toNat + 1 = epoch.number.toNat
  window : ∀ epoch ∈ bq.base.l1Blocks.head?,epoch.number + cfg.seqWindowSize < bq.base.origin.number

variable {cfg : Config} {l2 : SafeBlockFetcher} {bq : BatchQueue} {outOfData : Bool}
  {parent : L2BlockRef} {epoch : L1BlockRef} {rest : List L1BlockRef}

/-- With an expired window an empty batch is forced, or its epoch is done with. -/
theorem deriveNextEmptyBatch_expired {bs : BatchStage} (outOfData : Bool) {next : L1BlockRef}
    (hl : bs.l1Blocks = epoch::next::rest)
    (hw : epoch.number + cfg.seqWindowSize < bs.origin.number) :
    (∃ b,bs.deriveNextEmptyBatch cfg outOfData parent = (bs,.batch b)) ∨
      ∃ bs',bs.deriveNextEmptyBatch cfg outOfData parent = (bs',.eof) ∧
        bs'.l1Blocks = bs.l1Blocks.tail := by
  unfold BatchStage.deriveNextEmptyBatch
  rw [hl]
  dsimp only
  rw [if_neg (not_not.mpr (.inr hw))]
  split
  · exact .inl ⟨_,rfl⟩
  · exact .inr ⟨_,rfl,rfl⟩

theorem ne_tail : epoch::rest ≠ rest := by
  intro h
  have := congrArg length h
  simp at this

theorem exists_two {l : List L1BlockRef} (h : 2 ≤ l.length) :
    ∃ epoch next rest,l = epoch::next::rest := by
  match l with
  | [] => simp at h
  | [x] => simp at h
  | epoch::next::rest => exact ⟨epoch,next,rest,rfl⟩

theorem progress_iff (h : Expired cfg bq parent) :
    Progress cfg l2 bq outOfData parent ↔ NotHeldBack cfg l2 bq parent := by
  obtain ⟨epoch,next,rest,hl⟩ := exists_two h.buffered
  have hhd : epoch ∈ bq.base.l1Blocks.head? := by rw [hl]; rfl
  have hrst : ¬ (parent.l1Origin ≠ epoch.id ∧ parent.l1Origin.number ≠ epoch.number - 1) := by
    rintro ⟨hid,hnum⟩
    rcases h.parent epoch hhd with hid' | hpred
    · exact hid hid'
    apply hnum
    have : (1 : UInt64) ≤ epoch.number := by
      change 1 ≤ epoch.number.toNat
      omega
    apply UInt64.toNat_inj.mp
    rw [UInt64.toNat_sub_of_le _ _ this]
    change parent.l1Origin.number.toNat = epoch.number.toNat - 1
    omega
  have hscan := scanBatches_result (fun b => checkBatch cfg bq.base.l1Blocks parent b l2) bq.batches
  unfold Progress NotHeldBack BatchQueue.deriveNextBatch
  rw [hl] at hscan ⊢
  dsimp only
  rw [if_neg hrst]
  cases hs : scanBatches (fun b => checkBatch cfg (epoch::next::rest) parent b l2) bq.batches with
  | mk remaining result =>
    rw [hs] at hscan
    cases hf : bq.batches.find?
        fun b => !skipped (checkBatch cfg (epoch::next::rest) parent b l2) with
    | none =>
      rw [hf] at hscan
      subst hscan
      refine iff_of_true ?_ nofun
      rcases deriveNextEmptyBatch_expired outOfData hl (h.window epoch hhd) with
        ⟨b,hb⟩ | ⟨bs,hb,htl⟩
      · rw [hb]
        exact .inl ⟨_,rfl⟩
      rw [hb]
      rw [hl] at htl
      exact .inr htl
    | some b =>
      rw [hf] at hscan
      dsimp only at hscan
      split at hscan
      · rename_i haccept
        subst hscan
        refine iff_of_true (.inl ⟨_,rfl⟩) ?_
        intro b' hb'
        cases hb'
        exact haccept
      rename_i hnot
      refine iff_of_false ?_ fun hall => hnot (hall b rfl)
      rcases hscan with rfl | rfl | rfl
      all_goals
        rintro (⟨batch,hb⟩ | htl)
        · cases hb
        · exact ne_tail (hl ▸ htl)

variable {inclusion : L1BlockRef} {next : L1BlockRef}

theorem Decided.drop : Decided .drop := .inl rfl

theorem Decided.future : Decided .future := .inr (.inl rfl)

theorem Decided.accept : Decided .accept := .inr (.inr rfl)

theorem checkOnOrigin_decided (epoch' origin : L1BlockRef) (b : SingularBatch) :
    Decided (checkOnOrigin cfg (epoch::next::rest) epoch' origin b) := by
  unfold checkOnOrigin
  split
  · exact .drop
  split
  · exact .drop
  split
  · exact .drop
  dsimp only
  split
  · rename_i validity hdr
    split at hdr
    · unfold checkDrift at hdr
      split at hdr
      · split at hdr
        · rw [getElem?_cons_succ,getElem?_cons_zero] at hdr
          dsimp only at hdr
          split at hdr
          · cases hdr
            exact .drop
          · cases hdr
        · cases hdr
      · cases hdr
        exact .drop
    · cases hdr
  · split
    · exact .drop
    · exact .accept

theorem checkSingularBatch_decided (hh : cfg.isHolocene inclusion.time = false)
    (b : SingularBatch) :
    Decided (checkSingularBatch cfg (epoch::next::rest) parent b inclusion) := by
  unfold checkSingularBatch
  rw [getElem?_cons_zero]
  dsimp only
  rw [hh]
  split
  · exact .future
  split
  · exact .drop
  split
  · exact .drop
  split
  · exact .drop
  split
  · rename_i validity ho
    unfold batchOriginOf at ho
    split at ho
    · cases ho
      exact .drop
    split at ho
    · cases ho
    split at ho
    · cases ho
    · cases ho
      exact .drop
  · exact checkOnOrigin_decided _ _ _

variable {validity : BatchValidity} {l1Blocks : List L1BlockRef} {b : NonemptySpan}

theorem spanStart_decided (hh : cfg.isHolocene inclusion.time = false)
    (h : spanStart cfg (epoch::next::rest) parent b inclusion = .verdict validity) :
    Decided validity := by
  unfold spanStart at h
  rw [getElem?_cons_succ,getElem?_cons_zero] at h
  dsimp only at h
  rw [hh] at h
  split at h
  · rename_i hno
    split at hno <;> cases hno
  split at h
  · cases h
    exact .drop
  split at h
  · cases h
    exact .future
  split at h
  · cases h
    exact .drop
  split at h
  · split at h
    · cases h
      exact .drop
    split at h
    · cases h
      exact .drop
    · cases h
  · cases h

theorem checkOnParent_decided (hb : ∃ l1 ∈ l1Blocks,l1.number = b.last.epochNum)
    (parentBlock : L2BlockRef) : Decided (checkOnParent cfg l1Blocks parentBlock b inclusion) := by
  obtain ⟨l1,hmem,hnum⟩ := hb
  unfold checkOnParent
  dsimp only
  split
  · exact .drop
  split
  · exact .drop
  split
  · exact .drop
  split
  · rename_i hno
    rw [find?_eq_none] at hno
    exact absurd (decide_eq_true hnum) (hno l1 hmem)
  split
  · exact .drop
  split
  · exact .drop
  · exact .accept

theorem checkSpanBlock_decided {o : L1BlockRef} {os : List L1BlockRef} (hos : os ≠ [])
    {advanced : Bool} {e : SpanBatchElement}
    (h : checkSpanBlock cfg o os advanced e = some validity) : Decided validity := by
  unfold checkSpanBlock at h
  split at h
  · cases h
    exact .drop
  dsimp only at h
  split at h
  · rename_i validity' hdr
    cases h
    split at hdr
    · split at hdr
      · split at hdr
        · cases hdr
        cases os with
        | nil => exact absurd rfl hos
        | cons next rest =>
          dsimp only at hdr
          split at hdr
          · cases hdr
            exact .drop
          · cases hdr
      · cases hdr
        exact .drop
    · cases hdr
  · split at h
    · cases h
      exact .drop
    · cases h

/-- The block loop is undecided only on a block whose origin is the last L1 block at hand. -/
theorem checkSpanBlocks_decided {safeHead : L2BlockRef} {startAdvanced : Bool}
    {origins : List L1BlockRef} {prevEpoch : Option UInt64} {es : List SpanBatchElement}
    (hlast : ∀ e ∈ es,∀ l1 ∈ origins.getLast?,l1.number ≠ e.epochNum) :
    Decided (checkSpanBlocks cfg safeHead startAdvanced origins prevEpoch es) := by
  induction es generalizing origins prevEpoch with
  | nil => exact .accept
  | cons e es ih =>
    have hrs : ∀ x ∈ es,∀ l1 ∈ origins.getLast?,l1.number ≠ x.epochNum :=
      fun x hx => hlast x (mem_cons_of_mem _ hx)
    unfold checkSpanBlocks
    split
    · exact ih hrs
    split
    · exact .drop
    split
    · exact .drop
    rename_i o os ho
    obtain ⟨hnum,hsuf⟩ := dropWhile_eq_cons ho
    replace hnum : o.number = e.epochNum := by simpa using hnum
    have hgetLast : (o::os).getLast? = origins.getLast? := by
      obtain ⟨pre,rfl⟩ := hsuf
      rw [getLast?_append_of_ne_nil _ (cons_ne_nil o os)]
    split
    · rename_i validity hbk
      refine checkSpanBlock_decided ?_ hbk
      rintro rfl
      exact hlast e mem_cons_self o (by rw [← hgetLast]; rfl) hnum
    · apply ih
      rw [hgetLast]
      exact hrs

structure Serves (l2 : SafeBlockFetcher) : Prop where
  blocks : ∀ n,∃ b,l2.l2BlockRefByNumber n = some b ∧ b.number = n
  payloads : ∀ n,∃ p,l2.payloadByNumber n = some p ∧ p.transactions.any List.isEmpty = false

theorem checkOverlappedBlock_decided {payload : SafePayload}
    (hp : payload.transactions.any isEmpty = false) (block : SpanBatchElement) :
    ∃ validity,checkOverlappedBlock payload block = some validity ∧ Decided validity := by
  unfold checkOverlappedBlock
  rw [if_neg (by simp [hp])]
  dsimp only
  split
  · exact ⟨_,rfl,.drop⟩
  split
  · exact ⟨_,rfl,.drop⟩
  split
  · exact ⟨_,rfl,.drop⟩
  · exact ⟨_,rfl,.accept⟩

theorem checkOverlap_decided (hl2 : Serves l2) {n : Nat} {number : UInt64}
    {blocks : List SpanBatchElement} (hn : n ≤ blocks.length) :
    ∃ validity,checkOverlap l2.payloadByNumber n number blocks = some validity ∧
      Decided validity := by
  induction n generalizing number blocks with
  | zero => exact ⟨.accept,rfl,.accept⟩
  | succ n ih =>
    obtain ⟨payload,hpay,htxs⟩ := hl2.payloads number
    cases blocks with
    | nil => cases hn
    | cons block blocks =>
      obtain ⟨validity,hv,hdec⟩ := checkOverlappedBlock_decided htxs block
      unfold checkOverlap
      rw [hpay]
      dsimp only
      rw [hv]
      rcases hdec with rfl | rfl | rfl
      · exact ⟨_,rfl,.drop⟩
      · exact ⟨_,rfl,.future⟩
      · exact ih (Nat.le_of_succ_le_succ hn)

theorem overlap_length {num : UInt64} (hbt : cfg.blockTime ≠ 0)
    (hb : Convertible cfg parent (.span b))
    (hs : spanStart cfg l1Blocks parent b inclusion = .onNumber num) :
    (parent.number - num).toNat ≤ b.span.batches.length := by
  have hru := spanStart_rules cfg l1Blocks parent b inclusion
  rw [hs] at hru
  obtain ⟨-,hle,hmod,-,hnum⟩ := hru
  obtain ⟨k,hlen,hk⟩ := start_index hbt hb.1 hb.2
    (by simp [hs] : ∀ v,spanStart cfg l1Blocks parent b inclusion ≠ .verdict v)
  have hct : parent.number - num = (parent.time - b.first.timestamp) / cfg.blockTime + 1 := by grind
  have hpos := Nat.pos_of_ne_zero fun h0 => hbt (UInt64.toNat_inj.mp h0)
  have hdiv : ((parent.time - b.first.timestamp) / cfg.blockTime).toNat + 1 ≤ k := by
    rw [UInt64.toNat_div,UInt64.toNat_sub_of_le _ _ hle]
    rw [le_iff_toNat_le] at hle
    have : (parent.time.toNat - b.first.timestamp.toNat) / cfg.blockTime.toNat < k := by
      rw [Nat.div_lt_iff_lt_mul hpos]
      omega
    omega
  rw [hct]
  exact le_trans (Nat.mod_le _ _) (le_trans hdiv (le_of_lt hlen))

/-- The L1 origins that a span batch needs are at hand: its last one is among the buffered L1
blocks, and none of its blocks is on the last of these. -/
def Covered (cfg : Config) (l1Blocks : List L1BlockRef) (parent : L2BlockRef) : Batch → Prop
  | .singular _ => True
  | .span b => Convertible cfg parent (.span b) ∧
      (∃ l1 ∈ l1Blocks,l1.number = b.last.epochNum) ∧
      ∀ e ∈ b.span.batches,∀ l1 ∈ l1Blocks.getLast?,l1.number ≠ e.epochNum

theorem checkSpanBatch_of_prefix (hl2 : Serves l2) {parentBlock : L2BlockRef}
    (hp : checkSpanBatchPrefix cfg l1Blocks parent b inclusion l2.l2BlockRefByNumber =
      (validity,some parentBlock)) (hv : Decided validity)
    (hlast : ∀ e ∈ b.span.batches,∀ l1 ∈ l1Blocks.getLast?,l1.number ≠ e.epochNum)
    (hlen : b.first.timestamp < parent.time + cfg.blockTime →
      (parent.number - parentBlock.number).toNat ≤ b.span.batches.length) :
    ∃ validity,checkSpanBatch cfg l1Blocks parent b inclusion l2 = some validity ∧
      Decided validity := by
  unfold checkSpanBatch
  rw [hp]
  rcases hv with rfl | rfl | rfl
  · exact ⟨_,rfl,.drop⟩
  · exact ⟨_,rfl,.future⟩
  dsimp only
  have hbs : Decided (checkSpanBlocks cfg parent
      (decide (b.first.epochNum = parentBlock.l1Origin.number + 1)) l1Blocks none
      b.span.batches) := checkSpanBlocks_decided hlast
  split
  · split
    · rename_i hoverlap
      exact checkOverlap_decided hl2 (hlen hoverlap)
    · exact ⟨_,rfl,.accept⟩
  · exact ⟨_,rfl,hbs⟩

theorem checkSpanBatch_decided (hbt : cfg.blockTime ≠ 0) (hl2 : Serves l2)
    (hh : cfg.isHolocene inclusion.time = false)
    (hb : Covered cfg (epoch::next::rest) parent (.span b)) :
    ∃ validity,checkSpanBatch cfg (epoch::next::rest) parent b inclusion l2 = some validity ∧
      Decided validity := by
  obtain ⟨hcv,hend,hls⟩ := hb
  cases hs : spanStart cfg (epoch::next::rest) parent b inclusion with
  | verdict validity =>
    have hdec := spanStart_decided hh hs
    refine ⟨validity,?_,hdec⟩
    unfold checkSpanBatch checkSpanBatchPrefix
    rw [hs]
    cases validity <;> rfl
  | onSafeHead =>
    have hru := spanStart_rules cfg (epoch::next::rest) parent b inclusion
    rw [hs] at hru
    have hp : checkSpanBatchPrefix cfg (epoch::next::rest) parent b inclusion
        l2.l2BlockRefByNumber =
          (checkOnParent cfg (epoch::next::rest) parent b inclusion,some parent) := by
      rw [checkSpanBatchPrefix,hs]
    refine checkSpanBatch_of_prefix hl2 hp (checkOnParent_decided hend parent) hls ?_
    intro hlt
    rw [hru.1] at hlt
    exact absurd hlt (UInt64.lt_irrefl _)
  | onNumber num =>
    obtain ⟨parentBlock,hft,hnum⟩ := hl2.blocks num
    have hp : checkSpanBatchPrefix cfg (epoch::next::rest) parent b inclusion
        l2.l2BlockRefByNumber =
          (checkOnParent cfg (epoch::next::rest) parentBlock b inclusion,some parentBlock) := by
      rw [checkSpanBatchPrefix,hs]
      dsimp only
      rw [hft]
    refine checkSpanBatch_of_prefix hl2 hp (checkOnParent_decided hend parentBlock) hls ?_
    intro _
    rw [hnum]
    exact overlap_length hbt hcv hs

theorem checkBatch_decided (hbt : cfg.blockTime ≠ 0) (hl2 : Serves l2)
    {b : BatchWithL1InclusionBlock} (hh : cfg.isHolocene b.l1InclusionBlock.time = false)
    (hb : Covered cfg (epoch::next::rest) parent b.batch) :
    ∃ validity,checkBatch cfg (epoch::next::rest) parent b l2 = some validity ∧
      Decided validity := by
  unfold checkBatch
  cases hbatch : b.batch with
  | singular batch => exact ⟨_,rfl,checkSingularBatch_decided hh batch⟩
  | span batch => exact checkSpanBatch_decided hbt hl2 hh (hbatch ▸ hb)

/-- Once the window of the first buffered L1 block has expired, the queue moves on exactly where no
batch that is neither dropped nor left for later holds it back. None does where the L1 origins of
the buffered span batches are at hand. -/
theorem expired_window_progress (cfg : Config) (l2 : SafeBlockFetcher) (bq : BatchQueue)
    (outOfData : Bool) (parent : L2BlockRef) (h : Expired cfg bq parent) :
    (Progress cfg l2 bq outOfData parent ↔ NotHeldBack cfg l2 bq parent) ∧
    (cfg.blockTime ≠ 0 → Serves l2 →
      (∀ b ∈ bq.batches,cfg.isHolocene b.l1InclusionBlock.time = false) →
      (∀ b ∈ bq.batches,Covered cfg bq.base.l1Blocks parent b.batch) →
      Progress cfg l2 bq outOfData parent) := by
  refine ⟨progress_iff h,?_⟩
  intro hbt hl2 hpre hcov
  rw [progress_iff h]
  intro b hb
  have hmem := mem_of_find?_eq_some hb
  have hnot := find?_some hb
  obtain ⟨epoch,next,rest,hl⟩ := exists_two h.buffered
  have hc := hcov b hmem
  rw [hl] at hc hnot ⊢
  obtain ⟨validity,hv,hdec⟩ := checkBatch_decided hbt hl2 (hpre b hmem) hc
  rw [hv] at hnot ⊢
  rcases hdec with rfl | rfl | rfl
  · exact absurd hnot (by simp [skipped])
  · exact absurd hnot (by simp [skipped])
  · rfl

def queueConfig : Config := { sampleConfig with holoceneTime := none }

def servingFetcher : SafeBlockFetcher where
  l2BlockRefByNumber n := some { overlapHead with number := n }
  payloadByNumber _ := some ⟨[],none⟩

theorem servingFetcher_serves : Serves servingFetcher :=
  ⟨fun _ => ⟨_,rfl,rfl⟩,fun _ => ⟨_,rfl,rfl⟩⟩

def l1At (n : Nat) : L1BlockRef :=
  ⟨hashOf (100 + n),ofNat n,hashOf (99 + n),ofNat (2 * n - 17)⟩

/-- A queue with the overlapping batch, at the end of the sequencing window of L1 block 10. -/
def coveredQueue : BatchQueue :=
  ⟨⟨l1At 13,[l1At 10,l1At 11,l1At 12,l1At 13],[]⟩,[⟨l1At 12,.span overlapping⟩]⟩

theorem coveredQueue_progress :
    Progress queueConfig servingFetcher coveredQueue false overlapHead := by
  refine (expired_window_progress queueConfig servingFetcher coveredQueue false overlapHead
    ⟨by decide,?_,?_⟩).2 (by decide) servingFetcher_serves ?_ ?_
  · intro epoch he
    cases he
    exact .inl rfl
  · intro epoch he
    cases he
    decide
  · intro b hb
    rw [mem_singleton.mp hb]
    decide
  intro b hb
  rw [mem_singleton.mp hb]
  exact ⟨⟨overlapping_derived,by decide⟩,⟨l1At 11,by decide,rfl⟩,by decide⟩

inductive Op where
  | reset (base : L1BlockRef)
  | nextBatch (l2 : SafeBlockFetcher) (origin : L1BlockRef) (answer : Except StageError Batch)
      (parent : L2BlockRef)

def exec (cfg : Config) (bq : BatchQueue) : Op → BatchQueue
  | .reset base => BatchQueue.reset base
  | .nextBatch l2 origin answer parent =>
    (BatchQueue.nextBatch cfg l2 ⟨fun _ => origin,fun _ => ((),answer),id⟩ (bq,()) parent).1.1

def queueAfter (b : NonemptySpan) : BatchQueue :=
  [.nextBatch servingFetcher (l1At 11) (.ok (.span b)) overlapHead,
    .nextBatch servingFetcher (l1At 12) (.error .eof) overlapHead,
    .nextBatch servingFetcher (l1At 13) (.error .eof) overlapHead].foldl (exec queueConfig)
      (BatchQueue.reset (l1At 10))

def staleSpan : NonemptySpan where
  span :=
    { parentCheck := Hash.check (hashOf 5), l1OriginCheck := Hash.check (hashOf 109)
      batches := [⟨9,6,[]⟩] }
  nonempty := by simp

def eagerSpan : NonemptySpan where
  span :=
    { parentCheck := Hash.check (hashOf 5), l1OriginCheck := Hash.check (hashOf 114)
      batches := [⟨11,6,[]⟩,⟨12,8,[]⟩,⟨13,10,[]⟩,⟨14,12,[]⟩] }
  nonempty := by simp

/-- The stale batch stays undecided for good: the check for a too old epoch comes after the one for
unknown L1 blocks. -/
theorem undecided_span_holds_back :
    (Derived queueConfig.blockTime staleSpan.span ∧ Serves servingFetcher ∧
      Expired queueConfig (queueAfter staleSpan) overlapHead ∧
      ¬ Progress queueConfig servingFetcher (queueAfter staleSpan) true overlapHead) ∧
    (Derived queueConfig.blockTime eagerSpan.span ∧ Serves servingFetcher ∧
      Expired queueConfig (queueAfter eagerSpan) overlapHead ∧
      ¬ Progress queueConfig servingFetcher (queueAfter eagerSpan) true overlapHead) := by
  refine ⟨⟨?_,servingFetcher_serves,?_,?_⟩,⟨?_,servingFetcher_serves,?_,?_⟩⟩
  · exact ⟨RlpCodecs.txCodec,emptyBlocks (hashOf 5) (hashOf 109) 6 9 1 0,0,10,by rfl⟩
  · exact ⟨by decide,by decide,by decide⟩
  · rintro (⟨batch,hb⟩ | htl)
    · cases hb
    · exact absurd htl (by decide)
  · exact ⟨RlpCodecs.txCodec,emptyBlocks (hashOf 5) (hashOf 114) 6 14 4 15,0,10,by rfl⟩
  · exact ⟨by decide,by decide,by decide⟩
  rintro (⟨batch,hb⟩ | htl)
  · cases hb
  · exact absurd htl (by decide)

end OpStack.Proofs.SequencingWindow
