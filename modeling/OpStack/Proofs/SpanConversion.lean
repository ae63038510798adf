import OpStack.Derive.BatchQueue
import OpStack.Derive.RlpCodec
import OpStack.Proofs.Config
import OpStack.Proofs.SpanChecks

namespace OpStack.Proofs.SpanConversion
open Lib Eth Rollup Derive SpanChecks Proofs.Config BatchQueue Ends List UInt64 Nat

structure Converted (safeHead : L2BlockRef) (origins : List L1BlockRef)
    (es : List SpanBatchElement) (out : List SingularBatch) : Prop where
  elements : out.map singularBatchToElement = es.filter fun e => safeHead.time < e.timestamp
  hashes : ∀ b ∈ out,∃ l1 ∈ origins,l1.number = b.epochNum ∧ b.epochHash = l1.hash
  ordered : out.Pairwise fun a b => a.epochNum ≤ b.epochNum

variable {cfg : Config} {safeHead : L2BlockRef} {startAdvanced : Bool} {origins : List L1BlockRef}
  {prevEpoch : Option UInt64} {es : List SpanBatchElement}

theorem getSingularBatchesLoop_of_accept
    (h : checkSpanBlocks cfg safeHead startAdvanced origins prevEpoch es = .accept)
    (hc : Consecutive (fun l1 => l1.number.toNat) origins) :
    ∃ out,SpanBatch.getSingularBatchesLoop safeHead origins es = some out ∧
      Converted safeHead origins es out := by
  induction es generalizing origins prevEpoch with
  | nil => exact ⟨[],rfl,rfl,by simp,.nil⟩
  | cons e es ih =>
    rcases checkSpanBlocks_cons h with ⟨hsk,hrs⟩ | ⟨haf,hepoch,o,os,ho,-,hrs⟩
    · obtain ⟨out,hout,hcv⟩ := ih hrs hc
      refine ⟨out,?_,?_,hcv.hashes,hcv.ordered⟩
      · rw [SpanBatch.getSingularBatchesLoop,if_pos hsk,hout]
      · rw [hcv.elements,filter_cons_of_neg]
        simpa using hsk
    obtain ⟨hnum,hsuf⟩ := dropWhile_eq_cons ho
    replace hnum : o.number = e.epochNum := by simpa using hnum
    have hc' : Consecutive (fun l1 : L1BlockRef => l1.number.toNat) (o::os) := hc.suffix hsuf
    obtain ⟨out,hout,hcv⟩ := ih hrs hc'
    refine ⟨⟨.fill 32 0,e.epochNum,o.hash,e.timestamp,e.transactions⟩::out,?_,?_,?_,?_⟩
    · rw [SpanBatch.getSingularBatchesLoop,if_neg (UInt64.not_le.mpr haf),
        if_neg (UInt64.not_lt.mpr hepoch),ho]
      simp [hout]
    · rw [map_cons,hcv.elements,filter_cons_of_pos (by simpa using haf)]
      rfl
    · intro b hb
      rcases mem_cons.mp hb with rfl | hb
      · exact ⟨o,hsuf.mem mem_cons_self,hnum,rfl⟩
      · obtain ⟨l1,hl1,hb⟩ := hcv.hashes b hb
        exact ⟨l1,hsuf.mem hl1,hb⟩
    refine pairwise_cons.mpr ⟨?_,hcv.ordered⟩
    intro b hb
    obtain ⟨l1,hl1,hl1num,-⟩ := hcv.hashes b hb
    rw [← hnum,← hl1num,le_iff_toNat_le]
    rcases mem_cons.mp hl1 with rfl | hl1
    · exact le_refl _
    · exact le_of_lt ((pairwise_cons.mp hc'.pairwise).1 l1 hl1)

variable {e : SpanBatchElement}

theorem timestamps_progress {blockTime : UInt64} (h : (e::es).IsChain (Follows blockTime))
    (hmax : e.timestamp.toNat + es.length * blockTime.toNat < 2 ^ 64) :
    (e::es).IsChain fun a b => b.timestamp.toNat = a.timestamp.toNat + blockTime.toNat := by
  induction es generalizing e with
  | nil => exact isChain_singleton e
  | cons e' es ih =>
    obtain ⟨hst,hrs⟩ := isChain_cons_cons.mp h
    rw [length_cons,succ_mul] at hmax
    have ht : e'.timestamp.toNat = e.timestamp.toNat + blockTime.toNat := by
      rw [hst.timestamp,UInt64.toNat_add,mod_eq_of_lt (by omega)]
    exact isChain_cons_cons.mpr ⟨ht,ih hrs (by omega)⟩

/-- Of a progression that meets `t + d` at index `k`, the elements above `t` are those from `k`
on. -/
theorem filter_after_eq_drop {d t k : Nat}
    (h : (e::es).IsChain fun a b => b.timestamp.toNat = a.timestamp.toNat + d) (hd : 0 < d)
    (hk : e.timestamp.toNat + k * d = t + d) :
    (e::es).filter (fun e => t < e.timestamp.toNat) = (e::es).drop k := by
  have hat : ∀ i x,(e::es)[i]? = some x → x.timestamp.toNat = e.timestamp.toNat + i * d :=
    fun i x hx => progression_getElem? (fun e : SpanBatchElement => e.timestamp.toNat) h rfl hx
  conv_lhs => rw [← take_append_drop k (e::es)]
  rw [filter_append,filter_eq_nil_iff.mpr,filter_eq_self.mpr,nil_append]
  · intro x hx
    obtain ⟨i,hi⟩ := mem_iff_getElem?.mp hx
    rw [getElem?_drop] at hi
    have hi := hat _ x hi
    rw [add_mul] at hi
    simp only [decide_eq_true_eq]
    omega
  intro x hx
  obtain ⟨i,hi⟩ := mem_iff_getElem?.mp hx
  have hlt : i < k := by
    by_contra hge
    rw [getElem?_take_eq_none (by omega)] at hi
    cases hi
  rw [getElem?_take_of_lt hlt] at hi
  have hi := hat i x hi
  have hle : i * d + d ≤ k * d := by
    rw [← succ_mul]
    exact mul_le_mul_right d hlt
  simp only [decide_eq_true_eq]
  omega

structure Continues (cfg : Config) (l1Blocks : List L1BlockRef) (safeHead : L2BlockRef)
    (out : List SingularBatch) : Prop where
  nonempty : out ≠ []
  first : ∀ b ∈ out.head?,b.timestamp.toNat = safeHead.time.toNat + cfg.blockTime.toNat
  timestamps : out.IsChain fun a b => b.timestamp.toNat = a.timestamp.toNat + cfg.blockTime.toNat
  epochs : out.IsChain fun a b =>
    b.epochNum.toNat = a.epochNum.toNat ∨ b.epochNum.toNat = a.epochNum.toNat + 1
  hashes : ∀ b ∈ out,∃ l1 ∈ l1Blocks,l1.number = b.epochNum ∧ b.epochHash = l1.hash

variable {l1Blocks : List L1BlockRef} {b : NonemptySpan} {inclusion : L1BlockRef}
  {l2 : SafeBlockFetcher}

theorem start_aligned (hs : StartRules cfg safeHead b (spanStart cfg l1Blocks safeHead b inclusion))
    (hv : ∀ v,spanStart cfg l1Blocks safeHead b inclusion ≠ .verdict v)
    (hmax : safeHead.time.toNat + cfg.blockTime.toNat < 2 ^ 64) :
    safeHead.time.toNat + cfg.blockTime.toNat ≤ b.last.timestamp.toNat ∧
      ∃ k,b.first.timestamp.toNat + k * cfg.blockTime.toNat =
        safeHead.time.toNat + cfg.blockTime.toNat := by
  have hnx : (safeHead.time + cfg.blockTime).toNat =
      safeHead.time.toNat + cfg.blockTime.toNat := by
    rw [UInt64.toNat_add,mod_eq_of_lt hmax]
  cases h : spanStart cfg l1Blocks safeHead b inclusion with
  | verdict v => exact absurd h (hv v)
  | onSafeHead =>
    rw [h] at hs
    obtain ⟨hfst,hls⟩ := hs
    rw [le_iff_toNat_le,hnx] at hls
    refine ⟨hls,0,?_⟩
    rw [hfst]
    omega
  | onNumber num =>
    rw [h] at hs
    obtain ⟨-,hle,hmod,hls,-⟩ := hs
    rw [le_iff_toNat_le,hnx] at hls
    refine ⟨hls,?_⟩
    have hle' := le_iff_toNat_le.mp hle
    have hmod' : (safeHead.time.toNat - b.first.timestamp.toNat) % cfg.blockTime.toNat = 0 := by
      rw [← UInt64.toNat_sub_of_le _ _ hle,← UInt64.toNat_mod,hmod]
      rfl
    obtain ⟨k,hk⟩ := dvd_of_mod_eq_zero hmod'
    refine ⟨k + 1,?_⟩
    rw [succ_mul,mul_comm k]
    omega

theorem start_index (hbt : cfg.blockTime ≠ 0) (hd : Derived cfg.blockTime b.span)
    (hmax : safeHead.time.toNat + cfg.blockTime.toNat * (b.span.batches.length + 1) < 2 ^ 64)
    (hv : ∀ v,spanStart cfg l1Blocks safeHead b inclusion ≠ .verdict v) :
    ∃ k,k < b.span.batches.length ∧ b.first.timestamp.toNat + k * cfg.blockTime.toNat =
        safeHead.time.toNat + cfg.blockTime.toNat := by
  obtain ⟨hls,k,hk⟩ := start_aligned (spanStart_rules cfg l1Blocks safeHead b inclusion) hv
    (by rw [mul_succ] at hmax; omega)
  refine ⟨k,?_,hk⟩
  obtain ⟨e,es,hes⟩ := exists_cons_of_ne_nil b.nonempty
  have hfst : b.first = e := by simp [NonemptySpan.first,hes]
  have hend : (e::es)[es.length]? = some b.last := by
    simp [NonemptySpan.last,hes,getLast_eq_getElem]
  rw [hfst] at hk
  rw [hes,length_cons] at hmax ⊢
  have hprg := timestamps_progress (hes ▸ hd.follows : (e::es).IsChain _) (by
    rw [mul_succ,mul_succ,mul_comm] at hmax
    omega)
  have hl := progression_getElem? (fun e : SpanBatchElement => e.timestamp.toNat) hprg rfl hend
  have hpos := pos_of_ne_zero fun h0 => hbt (UInt64.toNat_inj.mp h0)
  exact lt_succ_of_le (le_of_mul_le_mul_right (by omega) hpos)

theorem filter_toNat (es : List SpanBatchElement) (t : UInt64) :
    es.filter (fun e => t < e.timestamp) = es.filter (fun e => t.toNat < e.timestamp.toNat) := by
  simp [lt_iff_toNat_lt]

theorem epochStep_toNat {a b : UInt64} (h : EpochStep a b) (hle : a ≤ b) :
    b.toNat = a.toNat ∨ b.toNat = a.toNat + 1 := by
  rcases h with rfl | rfl
  · exact .inl rfl
  change a.toNat ≤ (a.toNat + 1) % 2 ^ 64 at hle
  change (a.toNat + 1) % 2 ^ 64 = a.toNat ∨ (a.toNat + 1) % 2 ^ 64 = a.toNat + 1
  omega

theorem accepted_continues (hbt : cfg.blockTime ≠ 0) (hd : Derived cfg.blockTime b.span)
    (hc : Consecutive (fun l1 => l1.number.toNat) l1Blocks)
    (hmax : safeHead.time.toNat + cfg.blockTime.toNat * (b.span.batches.length + 1) < 2 ^ 64)
    (h : checkSpanBatch cfg l1Blocks safeHead b inclusion l2 = some .accept) :
    ∃ out,b.span.getSingularBatches l1Blocks safeHead = some out ∧
      Continues cfg l1Blocks safeHead out := by
  obtain ⟨parent,hp,hbs⟩ := checkSpanBatch_accept h
  obtain ⟨p,-,hsta,-⟩ := checkSpanBatchPrefix_accept hp
  obtain ⟨out,hout,hcv⟩ := getSingularBatchesLoop_of_accept hbs hc
  refine ⟨out,hout,?_⟩
  have hpos := pos_of_ne_zero fun h0 => hbt (UInt64.toNat_inj.mp h0)
  have hv : ∀ v,spanStart cfg l1Blocks safeHead b inclusion ≠ .verdict v := by
    rcases hsta with ⟨hs,-⟩ | ⟨num,hs,-⟩ <;> simp [hs]
  obtain ⟨k,hlen,hk⟩ := start_index hbt hd hmax hv
  obtain ⟨e,es,hes⟩ := exists_cons_of_ne_nil b.nonempty
  have hfst : b.first = e := by simp [NonemptySpan.first,hes]
  rw [hfst] at hk
  rw [hes,length_cons] at hlen
  have hfol := hes ▸ hd.follows
  have hprg := timestamps_progress hfol (by
    rw [hes,length_cons,mul_succ,mul_succ,mul_comm] at hmax
    omega)
  have hat := fun i x => progression_getElem? (fun e : SpanBatchElement => e.timestamp.toNat)
    hprg (rfl : (e::es).head? = some e) (i := i) (x := x)
  have hout : out.map singularBatchToElement = (e::es).drop k := by
    rw [hcv.elements,hes,filter_toNat,filter_after_eq_drop hprg hpos hk]
  constructor
  case nonempty =>
    rintro rfl
    have hlen := congrArg length hout
    rw [map_nil,length_drop,length_nil,length_cons] at hlen
    omega
  case first =>
    intro a ha
    have hhd : ((e::es).drop k).head? = some (singularBatchToElement a) := by
      rw [← hout,head?_map,ha]
      rfl
    rw [head?_drop] at hhd
    have ht := hat _ _ hhd
    exact ht.trans hk
  case timestamps =>
    have hch := hprg.drop k
    rw [← hout,isChain_map] at hch
    exact hch
  case epochs =>
    have hch := hfol.drop k
    rw [← hout,isChain_map] at hch
    exact (isChain_and hch hcv.ordered.isChain).imp
      fun x y hxy => epochStep_toNat hxy.1.epoch hxy.2
  case hashes => exact hcv.hashes

/-- The batch comes from the wire, and the timestamps of a span do not reach the end of the
64-bit range. -/
def Convertible (cfg : Config) (parent : L2BlockRef) : Batch → Prop
  | .singular _ => True
  | .span b => Derived cfg.blockTime b.span ∧
      parent.time.toNat + cfg.blockTime.toNat * (b.span.batches.length + 1) < 2 ^ 64

theorem scanBatches_found {check : BatchWithL1InclusionBlock → Option BatchValidity}
    {batches remaining : List BatchWithL1InclusionBlock} {b : BatchWithL1InclusionBlock}
    (h : scanBatches check batches = (remaining,.found b)) :
    b ∈ batches ∧ check b = some .accept := by
  induction batches generalizing remaining with
  | nil => cases h
  | cons x xs ih =>
    unfold scanBatches at h
    split at h
    · obtain ⟨-,hres⟩ := Prod.mk.inj h
      obtain ⟨hm,hb⟩ := ih (Prod.ext rfl hres)
      exact ⟨mem_cons_of_mem _ hm,hb⟩
    · obtain ⟨hm,hb⟩ := ih h
      exact ⟨mem_cons_of_mem _ hm,hb⟩
    · rename_i hx
      cases h
      exact ⟨mem_cons_self,hx⟩
    · cases h
    · cases h
    · cases h

variable {bq bq' : BatchQueue} {outOfData : Bool} {parent : L2BlockRef}

/-- A span batch leaves the queue only after it was accepted on the L1 blocks it is converted
with. -/
theorem deriveNextBatch_span {b : NonemptySpan}
    (h : bq.deriveNextBatch cfg l2 outOfData parent = (bq',.ok (.span b))) :
    bq'.base = bq.base ∧ ∃ q ∈ bq.batches,q.batch = .span b ∧
      checkSpanBatch cfg bq.base.l1Blocks parent b q.l1InclusionBlock l2 = some .accept := by
  unfold deriveNextBatch at h
  cases hl : bq.base.l1Blocks with
  | nil => simp [hl] at h
  | cons epoch rest =>
    rw [hl] at h
    dsimp only at h
    split at h
    · cases h
    rw [← hl] at h ⊢
    cases hs : scanBatches (fun b => checkBatch cfg bq.base.l1Blocks parent b l2) bq.batches with
    | mk remaining result =>
      rw [hs] at h
      cases result with
      | found q =>
        obtain ⟨hq,hck⟩ := scanBatches_found hs
        obtain ⟨rfl,hbt⟩ := Prod.mk.inj h
        have hspn := Except.ok.inj hbt
        refine ⟨rfl,q,hq,hspn,?_⟩
        unfold checkBatch at hck
        rw [hspn] at hck
        exact hck
      | undecided => cases h
      | unknownValidity => cases h
      | panic => cases h
      | exhausted =>
        dsimp only at h
        split at h <;> cases h

/-- Ways for `NextBatch` to end that show a broken conversion. -/
def Broken (e : QueueError) : Prop := e = .critical .conversion ∨ e = .panic .popNextBatch

theorem deriveNextBatch_not_broken (cfg : Config) (l2 : SafeBlockFetcher) (bq : BatchQueue)
    (outOfData : Bool) (parent : L2BlockRef) :
    Ends (fun _ => True) (fun e => ¬ Broken e) (bq.deriveNextBatch cfg l2 outOfData parent).2 := by
  unfold deriveNextBatch
  split
  · exact error (by simp [Broken])
  split
  · exact error (by simp [Broken])
  split
  · exact ok trivial
  · exact error (by simp [Broken])
  · exact error (by simp [Broken])
  · exact error (by simp [Broken])
  split
  · exact ok trivial
  · exact error (by simp [Broken])

theorem takeNextBatch_not_broken (hbt : cfg.blockTime ≠ 0)
    (hc : Consecutive (fun l1 => l1.number.toNat) bq.base.l1Blocks)
    (hq : ∀ q ∈ bq.batches,Convertible cfg parent q.batch) :
    Ends (fun _ => True) (fun e => ¬ Broken e) (bq.takeNextBatch cfg l2 outOfData parent).2 := by
  have hderive := deriveNextBatch_not_broken cfg l2 bq outOfData parent
  unfold takeNextBatch
  cases hd : bq.deriveNextBatch cfg l2 outOfData parent with
  | mk bq' result =>
    rw [hd] at hderive
    cases result with
    | error e =>
      split
      · exact error (by simp [Broken])
      · rename_i heq
        cases heq
        exact error hderive
      · rename_i heq
        cases heq
      · rename_i heq
        cases heq
    | ok batch =>
      cases batch with
      | singular b => exact ok trivial
      | span b =>
        obtain ⟨hbase,q,hm,hspn,hck⟩ := deriveNextBatch_span hd
        have hcv := hq q hm
        rw [hspn] at hcv
        obtain ⟨out,hout,hcont⟩ := accepted_continues hbt hcv.1 hc hcv.2 hck
        obtain ⟨x,xs,rfl⟩ := exists_cons_of_ne_nil hcont.nonempty
        dsimp only
        rw [hbase,hout]
        exact ok trivial

theorem addBatch_ends (cfg : Config) (l2 : SafeBlockFetcher) (bq : BatchQueue) (batch : Batch)
    (parent : L2BlockRef) :
    Ends (fun bq' => bq'.base = bq.base ∧ ∀ q ∈ bq'.batches,q ∈ bq.batches ∨ q.batch = batch)
      (fun cause => cause ≠ .popNextBatch) (bq.addBatch cfg l2 batch parent) := by
  unfold addBatch
  split
  · exact error nofun
  dsimp only
  split
  · exact error nofun
  · exact ok ⟨rfl,fun q hq => .inl hq⟩
  refine ok ⟨rfl,?_⟩
  intro q hq
  rcases mem_append.mp hq with hq | hq
  · exact .inl hq
  · rw [mem_singleton.mp hq]
    exact .inr rfl

theorem nextFromSpanBatch_origins (cfg : Config) (bs : BatchStage) (parent : L2BlockRef) :
    (bs.nextFromSpanBatch cfg parent).1.origin = bs.origin ∧
      (bs.nextFromSpanBatch cfg parent).1.l1Blocks = bs.l1Blocks := by
  unfold BatchStage.nextFromSpanBatch
  split
  · exact ⟨rfl,rfl⟩
  split
  · exact ⟨rfl,rfl⟩
  · exact ⟨rfl,rfl⟩

theorem updateOrigins_congr {bs bs' : BatchStage} (ho : bs.origin = bs'.origin)
    (hl : bs.l1Blocks = bs'.l1Blocks) (prevOrigin : L1BlockRef) (parent : L2BlockRef) :
    (bs.updateOrigins prevOrigin parent).l1Blocks =
      (bs'.updateOrigins prevOrigin parent).l1Blocks := by
  unfold BatchStage.updateOrigins
  rw [ho,hl]
  split
  · split <;> rfl
  · dsimp only
    rw [hl]

theorem nextBatch_not_broken {π : Type} {cfg : Config} (hbt : cfg.blockTime ≠ 0)
    (l2 : SafeBlockFetcher) (prev : NextBatchProvider π) (s : BatchQueue × π) (parent : L2BlockRef)
    (hc : Consecutive (fun l1 => l1.number.toNat)
      (s.1.base.updateOrigins (prev.origin s.2) parent).l1Blocks)
    (hq : ∀ q ∈ s.1.batches,Convertible cfg parent q.batch)
    (hnext : ∀ batch,(prev.nextBatch s.2).2 = .ok batch → Convertible cfg parent batch) :
    Ends (fun _ => True) (fun e => ¬ Broken e) (nextBatch cfg l2 prev s parent).2 := by
  have hspn := nextFromSpanBatch_origins cfg s.1.base parent
  unfold nextBatch
  cases hn : s.1.base.nextFromSpanBatch cfg parent with
  | mk base popped =>
    rw [hn] at hspn
    rw [← updateOrigins_congr hspn.1 hspn.2] at hc
    cases popped with
    | some b => exact ok trivial
    | none =>
      cases hp : prev.nextBatch s.2 with
      | mk p answer =>
        rw [hp] at hnext
        cases answer with
        | error e =>
          cases e with
          | eof =>
            dsimp only
            split
            · exact error (by simp [Broken])
            · exact takeNextBatch_not_broken hbt hc hq
          | notEnoughData => exact error (by simp [Broken])
          | temporary => exact error (by simp [Broken])
          | reset => exact error (by simp [Broken])
          | critical => exact error (by simp [Broken])
        | ok batch =>
          dsimp only
          split
          · exact error (by simp [Broken])
          have hadd := addBatch_ends cfg l2
            { s.1 with base := base.updateOrigins (prev.origin s.2) parent } batch parent
          split
          · rename_i cause hcause
            rw [hcause] at hadd
            refine error fun hb => ?_
            rcases hb with hb | hb
            · cases hb
            · exact hadd (QueueError.panic.inj hb)
          rename_i bq hbq
          rw [hbq] at hadd
          obtain ⟨hbase,hmem⟩ := hadd
          apply takeNextBatch_not_broken hbt (by rw [hbase]; exact hc)
          intro q hmq
          rcases hmem q hmq with hold | hnew
          · exact hq q hold
          · exact hnew ▸ hnext batch rfl

/-- An accepted span batch converts, so that the queue neither reports a broken conversion nor
pops from an empty span. A configuration with block time zero does not pass `Check`. -/
theorem accepted_span_batch_converts (cfg : Config) (hbt : cfg.blockTime ≠ 0) :
    (∀ (l1Blocks : List L1BlockRef) (safeHead : L2BlockRef) (b : NonemptySpan)
      (inclusion : L1BlockRef) (l2 : SafeBlockFetcher), Derived cfg.blockTime b.span →
      Consecutive (fun l1 => l1.number.toNat) l1Blocks →
      safeHead.time.toNat + cfg.blockTime.toNat * (b.span.batches.length + 1) < 2 ^ 64 →
      checkSpanBatch cfg l1Blocks safeHead b inclusion l2 = some .accept →
      ∃ out,b.span.getSingularBatches l1Blocks safeHead = some out ∧
        Continues cfg l1Blocks safeHead out) ∧
    (∀ (π : Type) (l2 : SafeBlockFetcher) (prev : NextBatchProvider π) (s : BatchQueue × π)
      (parent : L2BlockRef),
      Consecutive (fun l1 => l1.number.toNat)
        (s.1.base.updateOrigins (prev.origin s.2) parent).l1Blocks →
      (∀ q ∈ s.1.batches,Convertible cfg parent q.batch) →
      (∀ batch,(prev.nextBatch s.2).2 = .ok batch → Convertible cfg parent batch) →
      (BatchQueue.nextBatch cfg l2 prev s parent).2 ≠ .error (.critical .conversion) ∧
      (BatchQueue.nextBatch cfg l2 prev s parent).2 ≠ .error (.panic .popNextBatch)) := by
  constructor
  · intro l1Blocks safeHead b inclusion l2 hd hc hmax h
    exact accepted_continues hbt hd hc hmax h
  intro π l2 prev s parent hc hq hnx
  have hend := nextBatch_not_broken hbt l2 prev s parent hc hq hnx
  exact ⟨hend.not_error (not_not.mpr (.inl rfl)),hend.not_error (not_not.mpr (.inr rfl))⟩

def overlapping : NonemptySpan where
  span :=
    { parentCheck := Hash.check (hashOf 4), l1OriginCheck := Hash.check (hashOf 111)
      batches := [⟨10,4,[]⟩,⟨11,6,[]⟩] }
  nonempty := by simp

def overlapL1 : List L1BlockRef :=
  [⟨hashOf 110,10,hashOf 109,3⟩,⟨hashOf 111,11,hashOf 110,5⟩]

def overlapHead : L2BlockRef := ⟨hashOf 5,5,hashOf 4,4,⟨hashOf 110,10⟩,0⟩

def overlapFetcher : SafeBlockFetcher where
  l2BlockRefByNumber n := if n = 4 then some ⟨hashOf 4,4,hashOf 3,2,⟨hashOf 109,9⟩,0⟩ else none
  payloadByNumber n := if n = 5 then some ⟨[[depositTxType]],some 10⟩ else none

theorem overlapping_derived : Derived 2 overlapping.span :=
  ⟨RlpCodecs.txCodec,emptyBlocks (hashOf 4) (hashOf 111) 4 11 2 2,0,10,by rfl⟩

def overlapProvider : NextBatchProvider Unit where
  origin _ := ⟨hashOf 111,11,hashOf 110,5⟩
  nextBatch _ := ((),.ok (.span overlapping))
  flushChannel _ := ()

theorem overlapping_converts :
    (∃ out,overlapping.span.getSingularBatches overlapL1 overlapHead = some out ∧
      Continues sampleConfig overlapL1 overlapHead out) ∧
    (BatchQueue.nextBatch sampleConfig overlapFetcher overlapProvider
      (⟨⟨⟨hashOf 111,11,hashOf 110,5⟩,overlapL1,[]⟩,[]⟩,()) overlapHead).2 ≠
      .error (.panic .popNextBatch) := by
  have hcv : Convertible sampleConfig overlapHead (.span overlapping) :=
    ⟨overlapping_derived,by decide⟩
  refine ⟨(accepted_span_batch_converts sampleConfig (by decide)).1 overlapL1 overlapHead
    overlapping ⟨hashOf 112,12,hashOf 111,7⟩ overlapFetcher hcv.1 ?_ hcv.2 (by decide),
    ((accepted_span_batch_converts sampleConfig (by decide)).2 Unit overlapFetcher overlapProvider
      (⟨⟨⟨hashOf 111,11,hashOf 110,5⟩,overlapL1,[]⟩,[]⟩,()) overlapHead ?_ ?_ ?_).2⟩
  · exact .cons_cons rfl (.singleton _)
  · exact .cons_cons rfl (.singleton _)
  · exact nofun
  intro batch hb
  cases hb
  exact hcv

end OpStack.Proofs.SpanConversion
