import OpStack.Lib.Outcome
import OpStack.Derive.BatchStage

namespace OpStack.Proofs.BatchStage
open Eth Rollup Derive Derive.BatchStage

variable {cfg : Config} {l1Blocks : List L1BlockRef} {parent : L2BlockRef} {b : SingularBatch}
  {inclusion : L1BlockRef}

theorem batchOriginOf_found {epoch origin : L1BlockRef} {n : UInt64}
    (h : batchOriginOf l1Blocks epoch n = .found origin) : (n = epoch.number ∧ origin = epoch) ∨
    (n = epoch.number + 1 ∧ epoch.number < n ∧ l1Blocks[1]? = some origin) := by
  unfold batchOriginOf at h
  split at h
  · cases h
  split at h
  · rename_i he
    cases h
    exact .inl ⟨he,rfl⟩
  split at h
  · rename_i hnx
    cases hx : l1Blocks[1]? with
    | none => simp [hx] at h
    | some next =>
      simp only [hx,OriginCheck.found.injEq] at h
      grind
  · cases h

theorem checkOnOrigin_accept {epoch origin : L1BlockRef}
    (h : checkOnOrigin cfg l1Blocks epoch origin b = .accept) :
    b.epochHash = origin.hash ∧ origin.time ≤ b.timestamp := by
  unfold checkOnOrigin at h
  split at h
  · cases h
  rename_i hhs
  split at h
  · cases h
  · rename_i htm
    exact ⟨by simpa using hhs,by simpa using htm⟩

theorem checkSingularBatch_accept
    (h : checkSingularBatch cfg l1Blocks parent b inclusion = .accept) :
    ∃ epoch origin,l1Blocks[0]? = some epoch ∧ b.timestamp = parent.time + cfg.blockTime ∧
      b.parentHash = parent.hash ∧
      ((b.epochNum = epoch.number ∧ origin = epoch) ∨
        (b.epochNum = epoch.number + 1 ∧ epoch.number < b.epochNum ∧ l1Blocks[1]? = some origin)) ∧
      b.epochHash = origin.hash ∧ origin.time ≤ b.timestamp := by
  unfold checkSingularBatch at h
  cases he : l1Blocks[0]? with
  | none => simp [he] at h
  | some epoch =>
    simp only [he] at h
    split at h
    · split at h <;> cases h
    split at h
    · split at h <;> cases h
    split at h
    · cases h
    rename_i hpar
    split at h
    · cases h
    cases ho : batchOriginOf l1Blocks epoch b.epochNum with
    | verdict validity =>
      simp only [ho] at h
      subst h
      unfold batchOriginOf at ho
      repeat' first | split at ho | cases ho
    | found origin =>
      simp only [ho] at h
      obtain ⟨hhs,htm⟩ := checkOnOrigin_accept h
      have hts : b.timestamp = parent.time + cfg.blockTime := by grind
      exact ⟨epoch,origin,rfl,hts,by simpa using hpar,batchOriginOf_found ho,hhs,htm⟩

inductive Offers (nextSpan : List SingularBatch) (answer : Except StageError Batch)
    (timestamp epochNum : UInt64) : Prop where
  | buffered (b : SingularBatch) (h : nextSpan.head? = some b) (ht : b.timestamp = timestamp)
      (he : b.epochNum = epochNum)
  | singular (b : SingularBatch) (h : answer = .ok (.singular b)) (ht : b.timestamp = timestamp)
      (he : b.epochNum = epochNum)
  | span (b : NonemptySpan) (e : SpanBatchElement) (h : answer = .ok (.span b))
      (hm : e ∈ b.span.batches) (ht : e.timestamp = timestamp) (he : e.epochNum = epochNum)

theorem getSingularBatchesLoop_mem {safeHead : L2BlockRef} {origins : List L1BlockRef}
    {es : List SpanBatchElement} {bs : List SingularBatch}
    (h : SpanBatch.getSingularBatchesLoop safeHead origins es = some bs) {b : SingularBatch}
    (hb : b ∈ bs) : ∃ e ∈ es,e.timestamp = b.timestamp ∧ e.epochNum = b.epochNum := by
  induction es generalizing origins bs with
  | nil =>
    cases h
    cases hb
  | cons e es ih =>
    unfold SpanBatch.getSingularBatchesLoop at h
    split at h
    · obtain ⟨e',hm,he⟩ := ih h hb
      exact ⟨e',List.mem_cons_of_mem _ hm,he⟩
    split at h
    · cases h
    cases ho : origins.dropWhile (fun o => o.number ≠ e.epochNum) with
    | nil =>
      rw [ho] at h
      cases h
    | cons o os =>
      rw [ho] at h
      cases hr : SpanBatch.getSingularBatchesLoop safeHead (o::os) es with
      | none => simp [hr] at h
      | some rest =>
        simp only [hr,Option.bind_eq_bind,Option.bind_some,Option.pure_def,Option.some.injEq] at h
        subst h
        rcases List.mem_cons.mp hb with rfl | hb
        · exact ⟨e,List.mem_cons_self,rfl,rfl⟩
        · obtain ⟨e',hm,he⟩ := ih hr hb
          exact ⟨e',List.mem_cons_of_mem _ hm,he⟩

variable {π : Type} {prev : NextBatchProvider π} {fetch : UInt64 → Option L2BlockRef}
  {c : Candidate} {r : NextBatchResult}

def SameOrigins (a b : Derive.BatchStage) : Prop := a.origin = b.origin ∧ a.l1Blocks = b.l1Blocks

theorem fromSpanBatch_spec {s s' : Derive.BatchStage × π} {span : NonemptySpan}
    (h : fromSpanBatch cfg prev fetch s parent span = (s',c)) :
    SameOrigins s'.1 s.1 ∧ ∀ b,c = .batch b →
      ∃ e ∈ span.span.batches,e.timestamp = b.timestamp ∧ e.epochNum = b.epochNum := by
  unfold fromSpanBatch at h
  split at h
  · cases h
    exact ⟨⟨rfl,rfl⟩,nofun⟩
  · cases h
    exact ⟨⟨rfl,rfl⟩,nofun⟩
  · cases h
    exact ⟨⟨rfl,rfl⟩,nofun⟩
  · cases h
    exact ⟨⟨rfl,rfl⟩,nofun⟩
  split at h
  · cases h
    exact ⟨⟨rfl,rfl⟩,nofun⟩
  · cases h
    exact ⟨⟨rfl,rfl⟩,nofun⟩
  rename_i first rest hg
  cases h
  refine ⟨⟨rfl,rfl⟩,?_⟩
  intro b hb
  cases hb
  obtain ⟨e,hm,he⟩ := getSingularBatchesLoop_mem hg List.mem_cons_self
  exact ⟨e,hm,he⟩

theorem nextFromSpanBatch_spec {bs bs' : Derive.BatchStage} {r : Option SingularBatch}
    (h : nextFromSpanBatch cfg bs parent = (bs',r)) :
    SameOrigins bs' bs ∧ ∀ b,r = some b → ∃ x,bs.nextSpan.head? = some x ∧
      x.timestamp = b.timestamp ∧ x.epochNum = b.epochNum := by
  unfold nextFromSpanBatch at h
  split at h
  · cases h
    exact ⟨⟨rfl,rfl⟩,nofun⟩
  rename_i x rest hx
  split at h
  · cases h
    refine ⟨⟨rfl,rfl⟩,?_⟩
    intro b hb
    cases hb
    exact ⟨x,by rw [hx]; rfl,rfl,rfl⟩
  · cases h
    exact ⟨⟨rfl,rfl⟩,nofun⟩

theorem nextSingularBatchCandidate_spec {s s' : Derive.BatchStage × π}
    (h : nextSingularBatchCandidate cfg prev fetch s parent = (s',c)) :
    SameOrigins s'.1 s.1 ∧ ∀ b,c = .batch b →
      Offers s.1.nextSpan (prev.nextBatch s.2).2 b.timestamp b.epochNum := by
  unfold nextSingularBatchCandidate at h
  split at h
  · rename_i bs x hx
    cases h
    obtain ⟨hs,hb⟩ := nextFromSpanBatch_spec hx
    refine ⟨hs,?_⟩
    intro b he
    cases he
    obtain ⟨x,hh,ht,hn⟩ := hb _ rfl
    exact .buffered x hh ht hn
  rename_i bs hx
  obtain ⟨hs,-⟩ := nextFromSpanBatch_spec hx
  split at h
  · cases h
    exact ⟨hs,nofun⟩
  · rename_i p x hp
    cases h
    refine ⟨hs,?_⟩
    intro b hb
    cases hb
    exact .singular x (by rw [hp]) rfl rfl
  rename_i p span hp
  obtain ⟨hs',hb⟩ := fromSpanBatch_spec h
  refine ⟨⟨hs'.1.trans hs.1,hs'.2.trans hs.2⟩,?_⟩
  intro b hc
  obtain ⟨e,hm,ht,hn⟩ := hb b hc
  exact .span span e (by rw [hp]) hm ht hn

/-- How a batch can leave the stage: as an accepted candidate, or as an empty batch for the front
of the L1 blocks. -/
inductive Emits (cfg : Config) (bs : Derive.BatchStage) (answer : Except StageError Batch)
    (parent : L2BlockRef) (b : SingularBatch) : Prop where
  | accepted (hv : checkSingularBatch cfg bs.l1Blocks parent b bs.origin = .accept)
      (ho : Offers bs.nextSpan answer b.timestamp b.epochNum)
  | empty (epoch : L1BlockRef) (he : bs.l1Blocks[0]? = some epoch)
      (hb : b = ⟨parent.hash,epoch.number,epoch.hash,parent.time + cfg.blockTime,[]⟩)

def MovesOn (cfg : Config) (bs bs' : Derive.BatchStage) (parent : L2BlockRef) : Prop :=
  ∃ epoch next rest,bs.l1Blocks = epoch::next::rest ∧ bs'.l1Blocks = next::rest ∧
    next.time ≤ parent.time + cfg.blockTime ∧ epoch.number ≠ parent.l1Origin.number + 1

theorem deriveNextEmptyBatch_spec {bs bs' : Derive.BatchStage} {out : Bool} {r : EmptyBatch}
    (h : deriveNextEmptyBatch cfg bs out parent = (bs',r)) : bs'.origin = bs.origin ∧
    ((bs'.l1Blocks = bs.l1Blocks ∧ ∀ b,r = .batch b → ∃ epoch,bs.l1Blocks[0]? = some epoch ∧
        b = ⟨parent.hash,epoch.number,epoch.hash,parent.time + cfg.blockTime,[]⟩) ∨
      (MovesOn cfg bs bs' parent ∧ r = .eof)) := by
  unfold deriveNextEmptyBatch at h
  split at h
  · rename_i epoch next rest hl
    simp only at h
    split at h
    · cases h
      exact ⟨rfl,.inl ⟨rfl,nofun⟩⟩
    split at h
    · cases h
      refine ⟨rfl,.inl ⟨rfl,?_⟩⟩
      intro b hb
      cases hb
      exact ⟨epoch,by rw [hl]; rfl,rfl⟩
    rename_i hmv
    cases h
    obtain ⟨htm,hfst⟩ := not_or.mp hmv
    refine ⟨rfl,.inr ⟨⟨epoch,next,rest,hl,?_,?_,hfst⟩,rfl⟩⟩
    · simp [hl]
    · simpa using htm
  · cases h
    exact ⟨rfl,.inl ⟨rfl,nofun⟩⟩

theorem checkCandidate_spec {s s' : Derive.BatchStage × π} {b : SingularBatch}
    (h : checkCandidate cfg prev s parent b = (s',r)) :
    SameOrigins s'.1 s.1 ∧ ∀ b' c,r = .batch b' c →
      b' = b ∧ checkSingularBatch cfg s.1.l1Blocks parent b s.1.origin = .accept := by
  unfold checkCandidate at h
  split at h
  · rename_i hv
    cases h
    refine ⟨⟨rfl,rfl⟩,?_⟩
    intro b' c hb
    cases hb
    exact ⟨rfl,hv⟩
  all_goals
    cases h
    exact ⟨⟨rfl,rfl⟩,nofun⟩

/-- What one call can do to the L1 blocks, and how it can return a batch. -/
def Called (cfg : Config) (answer : Except StageError Batch) (parent : L2BlockRef)
    (a b : Derive.BatchStage) (r : NextBatchResult) : Prop :=
  b.origin = a.origin ∧
    ((b.l1Blocks = a.l1Blocks ∧ ∀ x c,r = .batch x c → Emits cfg a answer parent x) ∨
      (MovesOn cfg a b parent ∧ ∀ x c,r ≠ .batch x c))

theorem SameOrigins.called {answer : Except StageError Batch} {a b : Derive.BatchStage}
    (hs : SameOrigins b a) (hr : ∀ x c,r ≠ .batch x c) : Called cfg answer parent a b r :=
  ⟨hs.1,.inl ⟨hs.2,fun x c hx => absurd hx (hr x c)⟩⟩

theorem nextBatchOnOrigins_spec {s s' : Derive.BatchStage × π}
    (h : nextBatchOnOrigins cfg prev fetch s parent = (s',r)) :
    Called cfg (prev.nextBatch s.2).2 parent s.1 s'.1 r := by
  unfold nextBatchOnOrigins at h
  split at h
  · split at h <;> cases h <;> exact SameOrigins.called ⟨rfl,rfl⟩ nofun
  split at h
  · split at h
    · cases h
      exact SameOrigins.called ⟨rfl,rfl⟩ nofun
    split at h
    · rename_i s1 hc
      obtain ⟨hs1,-⟩ := nextSingularBatchCandidate_spec hc
      split at h
      · rename_i bs b hd
        cases h
        obtain ⟨ho,hcs⟩ := deriveNextEmptyBatch_spec hd
        rcases hcs with ⟨hl,hb⟩ | ⟨-,hr⟩
        · refine ⟨ho.trans hs1.1,.inl ⟨hl.trans hs1.2,?_⟩⟩
          intro b' c hb'
          cases hb'
          obtain ⟨epoch,he,rfl⟩ := hb b rfl
          exact .empty epoch (hs1.2 ▸ he) rfl
        · cases hr
      · rename_i bs hd
        cases h
        obtain ⟨ho,hcs⟩ := deriveNextEmptyBatch_spec hd
        rcases hcs with ⟨hl,-⟩ | ⟨⟨epoch,next,rest,hl,hrs⟩,-⟩
        · exact SameOrigins.called ⟨ho.trans hs1.1,hl.trans hs1.2⟩ nofun
        · exact ⟨ho.trans hs1.1,.inr ⟨⟨epoch,next,rest,hs1.2 ▸ hl,hrs⟩,nofun⟩⟩
    · rename_i s1 e hne hc
      cases h
      exact (nextSingularBatchCandidate_spec hc).1.called nofun
    · rename_i s1 hc
      cases h
      exact (nextSingularBatchCandidate_spec hc).1.called nofun
    · rename_i s1 b hc
      obtain ⟨hs1,hoffer⟩ := nextSingularBatchCandidate_spec hc
      obtain ⟨hs2,hv⟩ := checkCandidate_spec h
      refine ⟨hs2.1.trans hs1.1,.inl ⟨hs2.2.trans hs1.2,?_⟩⟩
      intro b' c hb
      obtain ⟨rfl,hacc⟩ := hv b' c hb
      rw [hs1.1,hs1.2] at hacc
      exact .accepted hacc (hoffer _ rfl)
  · cases h
    exact SameOrigins.called ⟨rfl,rfl⟩ nofun

theorem nextBatch_spec (cfg : Config) (prev : NextBatchProvider π)
    (fetch : UInt64 → Option L2BlockRef) (bs : Derive.BatchStage) (p : π) (parent : L2BlockRef) :
    let result := nextBatch cfg prev fetch (bs,p) parent
    Called cfg (prev.nextBatch p).2 parent (bs.updateOrigins (prev.origin p) parent) result.1.1
      result.2 :=
  nextBatchOnOrigins_spec rfl

end OpStack.Proofs.BatchStage
