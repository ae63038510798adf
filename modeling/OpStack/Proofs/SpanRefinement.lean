import OpStack.Proofs.SpanConversion

namespace OpStack.Proofs.SpanRefinement
open Lib Eth Rollup Derive SpanChecks SpanConversion Proofs.Config List UInt64

/-- The block built from a batch; its hash is whatever execution makes it. -/
def builtFrom (blockHash : L2BlockRef → SingularBatch → Hash) (parent : L2BlockRef)
    (b : SingularBatch) : L2BlockRef where
  hash := blockHash parent b
  number := parent.number + 1
  parentHash := parent.hash
  time := b.timestamp
  l1Origin := b.epoch
  sequenceNumber := if b.epochNum = parent.l1Origin.number then parent.sequenceNumber + 1 else 0

/-- The verdicts on batches that are presented one at a time, each on top of the block built from
the one before it, with the L1 blocks trimmed to the parent's origin. -/
def presentAll (cfg : Config) (inclusion : L1BlockRef)
    (blockHash : L2BlockRef → SingularBatch → Hash) :
    L2BlockRef → List L1BlockRef → List SingularBatch → List BatchValidity
  | _,_,[] => []
  | parent,l1Blocks,b::bs =>
    let l1Blocks := BatchStage.pruneOrigins parent.l1Origin.number l1Blocks
    let b := { b with parentHash := parent.hash }
    checkSingularBatch cfg l1Blocks parent b inclusion ::
      presentAll cfg inclusion blockHash (builtFrom blockHash parent b) l1Blocks bs

def activationBlock (cfg : Config) (timestamp : UInt64) : Bool :=
  cfg.isActivationBlockForFork .jovian timestamp || cfg.isActivationBlockForFork .karst timestamp ||
    cfg.isActivationBlockForFork .interop timestamp

section
variable {cfg : Config} {parent : L2BlockRef} {inclusion epoch o : L1BlockRef}
  {rest os : List L1BlockRef} {e : SpanBatchElement}

/-- The origin of a block that stays on the parent's epoch or advances by one, found by the scan of
the span check and by the two-block rule of the singular check. -/
theorem origin_agrees (hc : Consecutive (fun l1 => l1.number.toNat) (epoch::rest))
    (hstep : EpochStep epoch.number e.epochNum)
    (ho : (epoch::rest).dropWhile (fun l1 => l1.number ≠ e.epochNum) = o::os) :
    batchOriginOf (epoch::rest) epoch e.epochNum = .found o ∧
      ((o = epoch ∧ os = rest) ∨ epoch.number < o.number) := by
  rcases hstep with hsm | hnx
  · rw [dropWhile_cons_of_neg (by simp [hsm])] at ho
    cases ho
    refine ⟨?_,.inl ⟨rfl,rfl⟩⟩
    unfold batchOriginOf
    rw [if_neg (by simp [hsm]),if_pos hsm]
  have hne : epoch.number ≠ e.epochNum := by grind
  rw [dropWhile_cons_of_pos (by simpa using hne)] at ho
  cases rest with
  | nil => cases ho
  | cons r rs =>
    have hr : r.number.toNat = epoch.number.toNat + 1 := (isChain_cons_cons.mp hc).1
    have hrnum : r.number = e.epochNum := by
      apply UInt64.toNat_inj.mp
      rw [hnx,hr]
      have := r.number.toNat_lt
      exact (Nat.mod_eq_of_lt (by rw [← hr]; exact this)).symm
    rw [dropWhile_cons_of_neg (by simp [hrnum])] at ho
    obtain ⟨rfl,rfl⟩ := cons.inj ho
    have hlt : epoch.number < r.number := by
      rw [lt_iff_toNat_lt]
      omega
    refine ⟨?_,.inr hlt⟩
    unfold batchOriginOf
    rw [← hrnum] at hne hnx ⊢
    rw [if_neg (UInt64.not_lt.mpr (UInt64.le_of_lt hlt)),if_neg (Ne.symm hne),if_pos hnx]
    rfl

theorem checkOnOrigin_of_pass {advanced : Bool} {parentHash : Hash}
    (h : checkSpanBlock cfg o os advanced e = none) (hact : activationBlock cfg e.timestamp = false)
    (hpos : (o = epoch ∧ os = rest) ∨ epoch.number < o.number)
    (hadv : advanced = true → epoch.number < o.number) : checkOnOrigin cfg (epoch::rest) epoch o
      ⟨parentHash,e.epochNum,o.hash,e.timestamp,e.transactions⟩ = .accept := by
  obtain ⟨htm,hdr,htxs⟩ := checkSpanBlock_pass h
  unfold checkOnOrigin
  unfold activationBlock at hact
  rw [if_neg (by simp),if_neg (UInt64.not_lt.mpr htm),if_neg (by simp [hact])]
  have hno : (if o.time + cfg.maxSequencerDriftAt o.time < e.timestamp then
      checkDrift (epoch::rest) epoch o
        ⟨parentHash,e.epochNum,o.hash,e.timestamp,e.transactions⟩ else none) = none := by
    split
    · rename_i hpast
      obtain ⟨hemp,hnx⟩ := hdr hpast
      unfold checkDrift
      rw [if_pos hemp]
      rcases hpos with ⟨rfl,rfl⟩ | hlt
      · rcases hnx with hadv' | ⟨next,hnx,hlt⟩
        · exact absurd (hadv hadv') (UInt64.lt_irrefl _)
        · rw [if_pos rfl,getElem?_cons_succ,← head?_eq_getElem?,hnx]
          exact if_neg (UInt64.not_le.mpr hlt)
      · rw [if_neg (UInt64.ne_of_lt hlt)]
    · rfl
  rw [hno,if_neg (by simp [htxs])]

theorem pruneOrigins_of_found (hnum : o.number = e.epochNum)
    (ho : (epoch::rest).dropWhile (fun l1 => l1.number ≠ e.epochNum) = o::os)
    (hpos : (o = epoch ∧ os = rest) ∨ epoch.number < o.number) :
    BatchStage.pruneOrigins e.epochNum (epoch::rest) = o::os := by
  unfold BatchStage.pruneOrigins
  dsimp only
  rcases hpos with ⟨rfl,rfl⟩ | hlt
  · rw [hnum,if_neg (UInt64.lt_irrefl _)]
  · rw [← hnum] at ho ⊢
    rw [if_pos hlt,ho]

/-- One batch: what the span check found of the block makes the singular check accept it. -/
theorem checkSingularBatch_of_block {advanced : Bool}
    (hc : Consecutive (fun l1 => l1.number.toNat) (epoch::rest))
    (hepoch : epoch.number = parent.l1Origin.number)
    (hfollows : Follows cfg.blockTime ⟨parent.l1Origin.number,parent.time,[]⟩ e)
    (ho : (epoch::rest).dropWhile (fun l1 => l1.number ≠ e.epochNum) = o::os)
    (hblock : checkSpanBlock cfg o os advanced e = none)
    (hadv : advanced = true → parent.l1Origin.number < e.epochNum)
    (hact : activationBlock cfg e.timestamp = false)
    (hwindow : inclusion.number ≤ e.epochNum + cfg.seqWindowSize) :
    checkSingularBatch cfg (epoch::rest) parent
      ⟨parent.hash,e.epochNum,o.hash,e.timestamp,e.transactions⟩ inclusion = .accept := by
  have hnum : o.number = e.epochNum := by simpa using (dropWhile_eq_cons ho).1
  have hst := hepoch ▸ hfollows.epoch
  obtain ⟨hfd,hpos⟩ := origin_agrees hc hst ho
  have hts := hfollows.timestamp
  unfold checkSingularBatch
  rw [getElem?_cons_zero]
  dsimp only
  rw [hts,if_neg (UInt64.lt_irrefl _),if_neg (UInt64.lt_irrefl _),if_neg (by simp),
    if_neg (UInt64.not_lt.mpr hwindow),hfd,← hts]
  apply checkOnOrigin_of_pass hblock hact hpos
  intro h
  rw [hepoch,hnum]
  exact hadv h

structure Presentable (cfg : Config) (safeHead parent : L2BlockRef) (inclusion : L1BlockRef)
    (es : List SpanBatchElement) : Prop where
  follows : (⟨parent.l1Origin.number,parent.time,[]⟩::es).IsChain (Follows cfg.blockTime)
  blocks : ∀ e ∈ es,safeHead.time < e.timestamp ∧ activationBlock cfg e.timestamp = false ∧
    inclusion.number ≤ e.epochNum + cfg.seqWindowSize

theorem presentAll_accepts {safeHead : L2BlockRef} {startAdvanced : Bool}
    {prevEpoch : Option UInt64} {l1Blocks : List L1BlockRef} {es : List SpanBatchElement}
    {out : List SingularBatch} {blockHash : L2BlockRef → SingularBatch → Hash}
    (h : checkSpanBlocks cfg safeHead startAdvanced (epoch::rest) prevEpoch es = .accept)
    (hc : Consecutive (fun l1 => l1.number.toNat) (epoch::rest))
    (hprune : BatchStage.pruneOrigins parent.l1Origin.number l1Blocks = epoch::rest)
    (hepoch : epoch.number = parent.l1Origin.number)
    (hes : Presentable cfg safeHead parent inclusion es)
    (hadv : ∀ e ∈ es.head?,originAdvanced startAdvanced prevEpoch e.epochNum = true →
      parent.l1Origin.number < e.epochNum)
    (hout : SpanBatch.getSingularBatchesLoop safeHead (epoch::rest) es = some out) :
    ∀ v ∈ presentAll cfg inclusion blockHash parent l1Blocks out,v = .accept := by
  -- the parent, its origin and the trimmed L1 blocks move along with the list
  induction es generalizing parent epoch rest prevEpoch l1Blocks out with
  | nil =>
    cases hout
    exact nofun
  | cons e es ih =>
    obtain ⟨haf,hact,hwin⟩ := hes.blocks e mem_cons_self
    rcases checkSpanBlocks_cons h with ⟨hsk,-⟩ | ⟨-,hold,o,os,ho,hbk,hrs⟩
    · exact absurd hsk (UInt64.not_le.mpr haf)
    rw [SpanBatch.getSingularBatchesLoop,if_neg (UInt64.not_le.mpr haf),
      if_neg (UInt64.not_lt.mpr hold),ho] at hout
    obtain ⟨out',hout',hcs⟩ := Option.bind_eq_some_iff.mp hout
    cases hcs
    obtain ⟨hfol,hch⟩ := isChain_cons_cons.mp hes.follows
    obtain ⟨hnum,hsuf⟩ := dropWhile_eq_cons ho
    replace hnum : o.number = e.epochNum := by simpa using hnum
    have hpos := (origin_agrees hc (hepoch ▸ hfol.epoch) ho).2
    intro v hv
    rw [presentAll,hprune] at hv
    rcases mem_cons.mp hv with rfl | hv
    · exact checkSingularBatch_of_block hc hepoch hfol ho hbk (hadv e rfl) hact hwin
    refine ih hrs (hc.suffix hsuf) (pruneOrigins_of_found hnum ho hpos) hnum
      ⟨?_,fun x hx => hes.blocks x (mem_cons_of_mem _ hx)⟩ ?_ hout' v hv
    · cases es with
      | nil => exact isChain_singleton _
      | cons e' es =>
        obtain ⟨hnx,hch⟩ := isChain_cons_cons.mp hch
        exact isChain_cons_cons.mpr ⟨⟨hnx.timestamp,hnx.epoch⟩,hch⟩
    · intro x _ hx
      exact of_decide_eq_true hx

end

theorem start_epochStep {p n : UInt64} (hle : p ≤ n) (hn : n ≤ p + 1) : EpochStep p n := by
  rw [le_iff_toNat_le] at hle hn
  change n.toNat ≤ (p.toNat + 1) % 2 ^ 64 at hn
  by_cases heq : n.toNat = p.toNat
  · exact .inl (UInt64.toNat_inj.mp heq)
  right
  apply UInt64.toNat_inj.mp
  change n.toNat = (p.toNat + 1) % 2 ^ 64
  omega

theorem timestamps_after {blockTime t : UInt64} {e : SpanBatchElement}
    {es : List SpanBatchElement} (h : (e::es).IsChain (Follows blockTime))
    (he : e.timestamp = t + blockTime)
    (hmax : t.toNat + blockTime.toNat * (e::es).length < 2 ^ 64) :
    ∀ x ∈ e::es,∃ i,x.timestamp.toNat = t.toNat + blockTime.toNat + i * blockTime.toNat := by
  rw [length_cons,Nat.mul_succ,Nat.mul_comm] at hmax
  have hfst : e.timestamp.toNat = t.toNat + blockTime.toNat := by
    rw [he,UInt64.toNat_add,Nat.mod_eq_of_lt (by omega)]
  have hprg := timestamps_progress h (by omega)
  intro x hx
  obtain ⟨i,hi⟩ := mem_iff_getElem?.mp hx
  refine ⟨i,?_⟩
  rw [← hfst]
  exact progression_getElem? (fun e : SpanBatchElement => e.timestamp.toNat) hprg rfl hi

theorem window_mono {cfg : Config} {inclusion : L1BlockRef} {a b : UInt64}
    (h : inclusion.number ≤ a + cfg.seqWindowSize) (hab : a ≤ b)
    (hb : b.toNat + cfg.seqWindowSize.toNat < 2 ^ 64) :
    inclusion.number ≤ b + cfg.seqWindowSize := by
  rw [le_iff_toNat_le] at h hab ⊢
  rw [UInt64.toNat_add] at h
  rw [UInt64.toNat_add]
  omega

/-- A span batch that starts right after the safe head, where neither its timestamps nor its epoch
numbers plus the window reach the end of the 64-bit range: once it is accepted, each of its blocks is
a singular batch, and all of these are accepted. -/
theorem span_accept_refines_singular (cfg : Config) (l1Blocks : List L1BlockRef)
    (safeHead : L2BlockRef) (b : NonemptySpan) (inclusion : L1BlockRef) (l2 : SafeBlockFetcher)
    (blockHash : L2BlockRef → SingularBatch → Hash) (hd : Derived cfg.blockTime b.span)
    (hstart : b.first.timestamp = safeHead.time + cfg.blockTime)
    (hact : ∀ e ∈ b.span.batches,activationBlock cfg e.timestamp = false)
    (hc : Consecutive (fun l1 => l1.number.toNat) l1Blocks)
    (hhead : l1Blocks.head?.map L1BlockRef.id = some safeHead.l1Origin)
    (htime : safeHead.time.toNat + cfg.blockTime.toNat * b.span.batches.length < 2 ^ 64)
    (hwindow : ∀ e ∈ b.span.batches,e.epochNum.toNat + cfg.seqWindowSize.toNat < 2 ^ 64)
    (h : checkSpanBatch cfg l1Blocks safeHead b inclusion l2 = some .accept) :
    ∃ out,b.span.getSingularBatches l1Blocks safeHead = some out ∧
      (cfg.blockTime ≠ 0 → out.map singularBatchToElement = b.span.batches) ∧
      ∀ v ∈ presentAll cfg inclusion blockHash safeHead l1Blocks out,v = .accept := by
  obtain ⟨parent,hp,hbs⟩ := checkSpanBatch_accept h
  obtain ⟨parent',heq,hp',hpar⟩ := checkSpanBatchPrefix_accept hp
  cases heq
  have hsf : safeHead = parent := by
    rcases hp' with ⟨-,hsf⟩ | ⟨num,hs,-⟩
    · exact hsf.symm
    have hru := spanStart_rules cfg l1Blocks safeHead b inclusion
    rw [hs] at hru
    exact absurd hru.1 (by rw [hstart]; exact UInt64.lt_irrefl _)
  subst hsf
  obtain ⟨hincl,hold,hfar⟩ := checkOnParent_accept hpar
  obtain ⟨out,hout,hcv⟩ := getSingularBatchesLoop_of_accept hbs hc
  refine ⟨out,hout,?_⟩
  obtain ⟨epoch,rest,rfl⟩ : ∃ epoch rest,l1Blocks = epoch::rest := by
    cases l1Blocks with
    | nil => cases hhead
    | cons epoch rest => exact ⟨epoch,rest,rfl⟩
  have hepoch : epoch.number = safeHead.l1Origin.number := by
    exact congrArg BlockID.number (Option.some.inj hhead)
  obtain ⟨e,es,hes⟩ := exists_cons_of_ne_nil b.nonempty
  have hfst : b.first = e := by simp [NonemptySpan.first,hes]
  rw [hfst] at hstart hincl hold hfar hbs
  rw [hes] at hact htime hwindow hbs
  have hfol := hes ▸ hd.follows
  have hout' := hes ▸ hout
  have hat := timestamps_after hfol hstart htime
  rcases Nat.eq_zero_or_pos cfg.blockTime.toNat with hz | hpos
  · -- with block time zero no block is after the safe head
    have hno : out.map singularBatchToElement = [] := by
      rw [hcv.elements,hes,filter_eq_nil_iff]
      intro x hx
      obtain ⟨i,hi⟩ := hat x hx
      rw [hz] at hi
      simp only [decide_eq_true_eq,lt_iff_toNat_lt]
      omega
    rw [map_eq_nil_iff.mp hno]
    refine ⟨fun hne => absurd (UInt64.toNat_inj.mp hz) hne,?_⟩
    intro v hv
    cases hv
  have haf : ∀ x ∈ e::es,safeHead.time < x.timestamp := by
    intro x hx
    obtain ⟨i,hi⟩ := hat x hx
    rw [lt_iff_toNat_lt]
    omega
  have hall : out.map singularBatchToElement = e::es := by
    rw [hcv.elements,hes,filter_eq_self]
    exact fun x hx => decide_eq_true (haf x hx)
  have hord : (e::es).Pairwise fun a b => a.epochNum ≤ b.epochNum := by
    rw [← hall,pairwise_map]
    exact hcv.ordered
  have hle : ∀ x ∈ e::es,e.epochNum ≤ x.epochNum := by
    intro x hx
    rcases mem_cons.mp hx with rfl | hx
    · exact UInt64.le_refl _
    · exact (pairwise_cons.mp hord).1 x hx
  refine ⟨fun _ => hall.trans hes.symm,presentAll_accepts hbs hc ?_ hepoch ⟨?_,?_⟩ ?_ hout'⟩
  · rw [← hepoch]
    exact if_neg (UInt64.lt_irrefl _)
  · exact isChain_cons_cons.mpr ⟨⟨hstart,start_epochStep hold hfar⟩,hfol⟩
  · exact fun x hx => ⟨haf x hx,hact x hx,window_mono hincl (hle x hx) (hwindow x hx)⟩
  intro x hx hadv
  cases hx
  have hnx := of_decide_eq_true hadv
  grind

def noFetcher : SafeBlockFetcher := ⟨fun _ => none,fun _ => none⟩

def nextTwo : NonemptySpan where
  span :=
    { parentCheck := Hash.check (hashOf 5), l1OriginCheck := Hash.check (hashOf 111)
      batches := [⟨10,6,[]⟩,⟨11,8,[]⟩] }
  nonempty := by simp

theorem nextTwo_refines : ∃ out,nextTwo.span.getSingularBatches overlapL1 overlapHead = some out ∧
    out.map singularBatchToElement = nextTwo.span.batches ∧
    ∀ v ∈ presentAll sampleConfig ⟨hashOf 112,12,hashOf 111,9⟩ (fun _ _ => hashOf 6) overlapHead
      overlapL1 out, v = .accept := by
  obtain ⟨out,hout,hall,hacc⟩ := span_accept_refines_singular sampleConfig overlapL1 overlapHead
    nextTwo ⟨hashOf 112,12,hashOf 111,9⟩ noFetcher (fun _ _ => hashOf 6)
    ⟨RlpCodecs.txCodec,emptyBlocks (hashOf 5) (hashOf 111) 6 11 2 2,0,10,by rfl⟩
    rfl (by decide) (.cons_cons rfl (.singleton _)) rfl (by decide) (by decide) (by decide)
  exact ⟨out,hout,hall (by decide),hacc⟩

def longBlockConfig : Config := { sampleConfig with blockTime := 9223372036854775808 }

/-- The second block's timestamp wraps to the safe head's, and the third one's to the first's. -/
def wrappedTimestamps : NonemptySpan where
  span :=
    { parentCheck := Hash.check (hashOf 5), l1OriginCheck := Hash.check (hashOf 110)
      batches := [⟨10,9223372036854775808,[]⟩,⟨10,0,[]⟩,⟨10,9223372036854775808,[]⟩] }
  nonempty := by simp

def longBlockL1 : List L1BlockRef := [⟨hashOf 110,10,hashOf 109,9223372036854775798⟩]

def longBlockHead : L2BlockRef := ⟨hashOf 5,5,hashOf 4,0,⟨hashOf 110,10⟩,0⟩

def longBlockInclusion : L1BlockRef := ⟨hashOf 111,11,hashOf 110,9223372036854775808⟩

def longWindowConfig : Config := { sampleConfig with seqWindowSize := 18446744073709551604 }

def longWindowSpan : NonemptySpan where
  span :=
    { parentCheck := Hash.check (hashOf 5), l1OriginCheck := Hash.check (hashOf 112)
      batches := [⟨11,6,[]⟩,⟨12,8,[]⟩] }
  nonempty := by simp

def longWindowL1 : List L1BlockRef :=
  [⟨hashOf 111,11,hashOf 110,3⟩,⟨hashOf 112,12,hashOf 111,5⟩]

def longWindowHead : L2BlockRef := ⟨hashOf 5,5,hashOf 4,4,⟨hashOf 111,11⟩,0⟩

/-- Without the bounds the two checks part: in the first case over a timestamp, in the second over
the end of an epoch's sequencing window, each of which wraps around. -/
theorem wrapped_span_accepted : (longBlockConfig.check = .ok () ∧
      Derived longBlockConfig.blockTime wrappedTimestamps.span ∧
      wrappedTimestamps.first.timestamp = longBlockHead.time + longBlockConfig.blockTime ∧
      (∀ e ∈ wrappedTimestamps.span.batches,activationBlock longBlockConfig e.timestamp = false) ∧
      Consecutive (fun l1 => l1.number.toNat) longBlockL1 ∧
      longBlockL1.head?.map L1BlockRef.id = some longBlockHead.l1Origin ∧
      checkSpanBatch longBlockConfig longBlockL1 longBlockHead wrappedTimestamps
        longBlockInclusion noFetcher = some .accept ∧
      (wrappedTimestamps.span.getSingularBatches longBlockL1 longBlockHead).map
        (presentAll longBlockConfig longBlockInclusion (fun _ _ => hashOf 6) longBlockHead
          longBlockL1) = some [.accept,.drop]) ∧
    (longWindowConfig.check = .ok () ∧ Derived longWindowConfig.blockTime longWindowSpan.span ∧
      longWindowSpan.first.timestamp = longWindowHead.time + longWindowConfig.blockTime ∧
      (∀ e ∈ longWindowSpan.span.batches,activationBlock longWindowConfig e.timestamp = false) ∧
      Consecutive (fun l1 => l1.number.toNat) longWindowL1 ∧
      longWindowL1.head?.map L1BlockRef.id = some longWindowHead.l1Origin ∧
      checkSpanBatch longWindowConfig longWindowL1 longWindowHead longWindowSpan
        ⟨hashOf 113,13,hashOf 112,9⟩ noFetcher = some .accept ∧
      (longWindowSpan.span.getSingularBatches longWindowL1 longWindowHead).map
        (presentAll longWindowConfig ⟨hashOf 113,13,hashOf 112,9⟩ (fun _ _ => hashOf 6)
          longWindowHead longWindowL1) = some [.accept,.drop]) := by
  refine ⟨⟨by decide,?_,by decide,by decide,.singleton _,rfl,by decide,by decide⟩,
    ⟨by decide,?_,by decide,by decide,.cons_cons rfl (.singleton _),rfl,by decide,by decide⟩⟩
  · exact ⟨RlpCodecs.txCodec,
      emptyBlocks (hashOf 5) (hashOf 110) 9223372036854775808 10 3 0,0,10,by rfl⟩
  · exact ⟨RlpCodecs.txCodec,emptyBlocks (hashOf 5) (hashOf 112) 6 12 2 2,0,10,by rfl⟩

end OpStack.Proofs.SpanRefinement
