import OpStack.Proofs.BatchStageExtension

namespace OpStack.Proofs.BatchStageFetch
open Eth Rollup Derive Derive.BatchStage BatchStage

/-- The surroundings of the batch stage: the stages before it, how they move to the next L1 block
(not at the head of the chain), and the block made from a batch. -/
structure Driver (π : Type) where
  cfg : Config
  prev : NextBatchProvider π
  advanceL1Block : π → π
  build : L2BlockRef → SingularBatch → L2BlockRef

structure DriverState (π : Type) where
  stage : Derive.BatchStage
  inner : π
  parent : L2BlockRef
  /-- The L2 chain that `L2BlockRefByNumber` looks into. -/
  l2 : List L2BlockRef
  outputs : List SingularBatch := []
  halted : Bool := false

variable {π : Type} (d : Driver π)

def lookup (st : DriverState π) (number : UInt64) : Option L2BlockRef :=
  st.l2.find? fun b => b.number = number

def fetcher (works : Bool) (st : DriverState π) : UInt64 → Option L2BlockRef :=
  if works then lookup st else fun _ => none

/-- One call of `NextBatch`: a returned batch becomes the next parent, `io.EOF` advances L1,
`NotEnoughData` and a temporary error lead to another call. -/
def drive (works : Bool) (st : DriverState π) : DriverState π :=
  if st.halted then st
  else
    match nextBatch d.cfg d.prev (fetcher works st) (st.stage,st.inner) st.parent with
    | ((stage,inner),.batch b _) =>
      { stage, inner, parent := d.build st.parent b, l2 := d.build st.parent b::st.l2,
        outputs := st.outputs ++ [b] }
    | ((stage,inner),.error .eof) => { st with stage, inner := d.advanceL1Block inner }
    | ((stage,inner),.error .notEnoughData) => { st with stage, inner }
    | ((stage,inner),.error .temporary) => { st with stage, inner }
    | ((stage,inner),.error .reset) => { st with stage, inner, halted := true }
    | ((stage,inner),.error .critical) => { st with stage, inner, halted := true }
    | ((stage,inner),.panic) => { st with stage, inner, halted := true }

/-- The state after `n` calls; `schedule k` says whether L2 fetches work during call `k`. -/
def run (schedule : Nat → Bool) (start : DriverState π) : Nat → DriverState π
  | 0 => start
  | n+1 => drive d (schedule n) (run schedule start n)

def Transient (schedule : Nat → Bool) : Prop := ∀ n,∃ m,n ≤ m ∧ schedule m = true

/-- The derived batches do not depend on the schedule: what one run has put out, the other puts
out in the end. -/
def ScheduleIndependent (start : DriverState π) : Prop :=
  ∀ s1 s2,Transient s1 → Transient s2 →
    ∀ n,∃ m,(run d s1 start n).outputs <+: (run d s2 start m).outputs

/-- Losing the span batch makes no difference: it would have been undecided with its parent block
known, or dropped with nothing left to flush. -/
def Harmless (st : DriverState π) (bs : Derive.BatchStage) (inner : π) (b : NonemptySpan)
    (parentBlock : L2BlockRef) : Prop :=
  checkOnParent d.cfg bs.l1Blocks parentBlock b bs.origin = .undecided ∨
  (d.prev.flushChannel inner = inner ∧
    (checkOnParent d.cfg bs.l1Blocks parentBlock b bs.origin = .drop ∨
      (checkOnParent d.cfg bs.l1Blocks parentBlock b bs.origin = .accept ∧
        b.span.getSingularBatches bs.l1Blocks st.parent = none)))

/-- A failing L2 fetch does no harm: the stage drains the previous one, or goes on with a buffered
batch, or pulls a span batch whose loss is harmless. -/
def FetchFailureHarmless (st : DriverState π) : Prop :=
  let bs := st.stage.updateOrigins (d.prev.origin st.inner) st.parent
  ¬ ((d.prev.origin st.inner).number < st.parent.l1Origin.number ∨
    st.parent.l1Origin.number = bs.origin.number) →
  (nextFromSpanBatch d.cfg bs st.parent).2 = none →
  ∀ inner b num parentBlock,d.prev.nextBatch st.inner = (inner,.ok (.span b)) →
    spanStart d.cfg bs.l1Blocks st.parent b bs.origin = .onNumber num →
    lookup st num = some parentBlock → Harmless d st bs inner b parentBlock

variable {d : Driver π} {st : DriverState π} {bs : Derive.BatchStage} {schedule : Nat → Bool}
  {start : DriverState π}

theorem fromSpanBatch_harmless {inner : π} {b : NonemptySpan} (hn : bs.nextSpan = [])
    (h : ∀ num parentBlock,spanStart d.cfg bs.l1Blocks st.parent b bs.origin = .onNumber num →
      lookup st num = some parentBlock → Harmless d st bs inner b parentBlock) :
    fromSpanBatch d.cfg d.prev (fun _ => none) (bs,inner) st.parent b =
      fromSpanBatch d.cfg d.prev (lookup st) (bs,inner) st.parent b := by
  have hflush : d.prev.flushChannel inner = inner →
      flushChannel d.prev (bs,inner) = (bs,inner) := by
    intro hf
    simp [flushChannel,hf,← hn]
  unfold fromSpanBatch checkSpanBatchPrefix
  cases hs : spanStart d.cfg bs.l1Blocks st.parent b bs.origin with
  | verdict v => rfl
  | onSafeHead => rfl
  | onNumber num =>
    cases hl : lookup st num with
    | none => simp only [hl]
    | some parentBlock =>
      simp only [hl]
      rcases h num parentBlock hs hl with hu | ⟨hf,hd | ⟨ha,hg⟩⟩
      · simp [hu]
      · simp [hd,hflush hf]
      · simp [ha,hg,hflush hf]

theorem nextFromSpanBatch_none {cfg : Config} {bs' : Derive.BatchStage} {parent : L2BlockRef}
    (h : nextFromSpanBatch cfg bs parent = (bs',none)) : bs'.nextSpan = [] := by
  unfold nextFromSpanBatch at h
  split at h
  · rename_i hn
    cases h
    exact hn
  split at h
  · cases h
  · cases h
    rfl

theorem nextBatch_harmless (h : FetchFailureHarmless d st) :
    nextBatch d.cfg d.prev (fun _ => none) (st.stage,st.inner) st.parent =
      nextBatch d.cfg d.prev (lookup st) (st.stage,st.inner) st.parent := by
  unfold FetchFailureHarmless at h
  unfold nextBatch nextBatchOnOrigins
  generalize st.stage.updateOrigins (d.prev.origin st.inner) st.parent = bs at h ⊢
  split
  · rfl
  rename_i hdrain
  have hcandidate : nextSingularBatchCandidate d.cfg d.prev (fun _ => none) (bs,st.inner)
        st.parent =
      nextSingularBatchCandidate d.cfg d.prev (lookup st) (bs,st.inner) st.parent := by
    unfold nextSingularBatchCandidate
    cases hb : nextFromSpanBatch d.cfg bs st.parent with
    | mk bs' buffered =>
      cases buffered with
      | some b => rfl
      | none =>
        obtain ⟨⟨ho,hl⟩,-⟩ := nextFromSpanBatch_spec hb
        cases hp : d.prev.nextBatch st.inner with
        | mk inner answer =>
          rcases answer with e | (b | b)
          · rfl
          · rfl
          refine fromSpanBatch_harmless (nextFromSpanBatch_none hb) ?_
          rw [ho,hl]
          intro num parentBlock hs hk
          have := h hdrain (by rw [hb]) inner b num parentBlock hp hs hk
          simpa only [Harmless,ho,hl] using this
  rw [hcandidate]

/-- In a state where a failing fetch does no harm, the step does not depend on it. -/
theorem drive_harmless (h : FetchFailureHarmless d st) : drive d false st = drive d true st := by
  unfold drive fetcher
  simp only [Bool.false_eq_true,if_false,if_true]
  rw [nextBatch_harmless h]

/-- A run whose fetches fail only where that does no harm is the run in which they all work. -/
theorem run_harmless
    (h : ∀ n,schedule n = false → FetchFailureHarmless d (run d schedule start n)) (n : Nat) :
    run d schedule start n = run d (fun _ => true) start n := by
  induction n with
  | zero => rfl
  | succ n ih =>
    have hst : drive d (schedule n) (run d schedule start n) =
        drive d true (run d schedule start n) := by
      cases hs : schedule n with
      | true => rfl
      | false => exact drive_harmless (h n hs)
    rw [run,hst,ih,run]

theorem run_outputs_le {n m : Nat} (h : n ≤ m) :
    (run d schedule start n).outputs <+: (run d schedule start m).outputs := by
  induction h with
  | refl => exact List.prefix_refl _
  | @step m _ ih =>
    refine ih.trans ?_
    rw [run]
    unfold drive
    split
    · exact List.prefix_refl _
    split
    · exact List.prefix_append _ _
    all_goals exact List.prefix_refl _

/-- Fetch failures do not change what is derived as long as no span batch gets lost in them. -/
theorem next_batch_ignores_fetch_failures {π : Type} (d : Driver π) (start : DriverState π)
    (s1 s2 : Nat → Bool) (h1 : ∀ n,s1 n = false → FetchFailureHarmless d (run d s1 start n))
    (h2 : ∀ n,s2 n = false → FetchFailureHarmless d (run d s2 start n)) (n : Nat) :
    (run d s1 start n).outputs = (run d s2 start n).outputs := by
  rw [run_harmless h1,run_harmless h2]

open Config BatchStageExtension

structure Feed where
  origin : L1BlockRef
  channel : List Batch
  later : List (L1BlockRef × List Batch)

def feed : NextBatchProvider Feed where
  origin f := f.origin
  nextBatch f :=
    match f.channel with
    | [] => (f,.error .eof)
    | b::rest => ({ f with channel := rest },.ok b)
  flushChannel f := { f with channel := [] }

def feedDriver : Driver Feed where
  cfg := sampleConfig
  prev := feed
  advanceL1Block f :=
    match f.later with
    | [] => f
    | (origin,channel)::later => ⟨origin,channel,later⟩
  build parent b := ⟨parent.hash,parent.number + 1,parent.hash,b.timestamp,b.epoch,0⟩

def overlappingSpan : NonemptySpan where
  span :=
    { parentCheck := (hashOf 99).check
      l1OriginCheck := (hashOf 0).check
      batches := [⟨0,20,[]⟩,⟨0,22,[[2]]⟩] }
  nonempty := by simp

def safeHead : L2BlockRef := ⟨hashOf 100,5,hashOf 99,20,(sampleChain.block 0).id,1⟩

/-- The safe head and the block before it, and four L1 blocks with the span batch in the second. -/
def overlappingStart : DriverState Feed where
  stage := (resetAt sampleChain safeHead).stage
  inner := ⟨sampleChain.block 0,[],
    [(sampleChain.block 1,[.span overlappingSpan]),(sampleChain.block 2,[]),
      (sampleChain.block 3,[])]⟩
  parent := safeHead
  l2 := [safeHead,⟨hashOf 99,4,hashOf 98,18,(sampleChain.block 0).id,0⟩]

def refusedSpan : NonemptySpan where
  span := { overlappingSpan.span with parentCheck := (hashOf 98).check }
  nonempty := by simp [overlappingSpan]

def refusedStart : DriverState Feed :=
  { overlappingStart with
    inner := ⟨sampleChain.block 0,[],[(sampleChain.block 1,[.span refusedSpan])]⟩ }

/-- The span batch of the second call is dropped for its parent hash, whether the block with that
number is found or not. -/
theorem next_batch_ignores_fetch_failures_sample :
    (run feedDriver (fun n => n ≠ 1) refusedStart 4).outputs =
      (run feedDriver (fun _ => true) refusedStart 4).outputs := by
  refine next_batch_ignores_fetch_failures feedDriver refusedStart (fun n => n ≠ 1)
    (fun _ => true) ?_ (by simp) 4
  intro n hn
  obtain rfl : n = 1 := by simpa using hn
  intro _ _ inner b num parentBlock hp hs hl
  have hp : ((⟨sampleChain.block 1,[],[]⟩ : Feed),Except.ok (Batch.span refusedSpan)) =
      (inner,.ok (.span b)) := hp
  obtain ⟨rfl,hb⟩ := Prod.mk.inj hp
  cases hb
  have hnum : spanStart sampleConfig [sampleChain.block 0,sampleChain.block 1] safeHead refusedSpan
      (sampleChain.block 1) = .onNumber 4 := rfl
  cases hnum.symm.trans hs
  cases (show some (⟨hashOf 99,4,hashOf 98,18,(sampleChain.block 0).id,0⟩ : L2BlockRef) =
    some parentBlock from hl)
  exact .inr ⟨rfl,.inl (by decide +kernel)⟩

def lostBatch : SingularBatch := ⟨hashOf 100,0,hashOf 0,22,[[2]]⟩
def forcedBatch : SingularBatch := ⟨hashOf 100,1,hashOf 1,22,[]⟩

/-- A single failing fetch, in the call that pulls the span batch, and its user transaction is gone:
once the window has expired an empty batch takes its place. -/
theorem next_batch_loses_undecided_span : ¬ ScheduleIndependent feedDriver overlappingStart := by
  intro h
  have hbad : (run feedDriver (fun n => n ≠ 1) overlappingStart 5).outputs = [forcedBatch] := by
    decide +kernel
  obtain ⟨m,hm⟩ := h (fun _ => true) (fun n => n ≠ 1) (fun n => ⟨n,le_rfl,rfl⟩)
    (fun n => ⟨n + 2,by omega,by simp⟩) 2
  -- both first batches would start the longer of the two outputs
  have hlost : [lostBatch] <+:
      (run feedDriver (fun n => n ≠ 1) overlappingStart (max m 5)).outputs := by
    exact hm.trans (run_outputs_le (le_max_left m 5))
  have hforced : [forcedBatch] <+:
      (run feedDriver (fun n => n ≠ 1) overlappingStart (max m 5)).outputs := by
    rw [← hbad]
    exact run_outputs_le (le_max_right m 5)
  have heq := (List.prefix_of_prefix_length_le hlost hforced le_rfl).eq_of_length rfl
  revert heq
  decide

end OpStack.Proofs.BatchStageFetch
