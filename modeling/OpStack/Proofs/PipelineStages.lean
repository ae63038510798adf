import OpStack.Derive.Pipeline
import OpStack.Proofs.BatchStageExtension

namespace OpStack.Proofs.PipelineStages
open Lib Eth Rollup Derive Derive.DerivationPipeline Config List Option UInt64

/-- The blocks an L1 node may serve. Timestamps do not decrease from parent to child. -/
structure L1Source where
  block : L1BlockRef → Prop
  time_mono : ∀ {a b},block a → block b → b.parentHash = a.hash → a.time ≤ b.time

inductive Call where
  | step (fuel : Nat) (env : StepEnv) (pendingSafeHead : L2BlockRef)
  | reset
  | confirmEngineReset

def call (cfg : Config) (dp : DerivationPipeline) : Call → Option (DerivationPipeline × StepResult)
  | .step fuel env pendingSafeHead => step cfg fuel env pendingSafeHead dp
  | .reset => some (dp.reset,.again)
  | .confirmEngineReset => some (dp.confirmEngineReset,.again)

structure Serves (src : L1Source) (l1 : L1Fetcher) : Prop where
  by_number : ∀ {n b},l1.blockByNumber n = .found b → src.block b
  by_hash : ∀ {h b},l1.blockByHash h = some b → src.block b

def Answers (src : L1Source) : Call → Prop
  | .step _ env _ => Serves src env.l1
  | _ => True

def Moves (cfg : Config) (src : L1Source) (ok : DerivationPipeline → Call → Prop)
    (dp dp' : DerivationPipeline) : Prop :=
  ∃ c r,Answers src c ∧ ok dp c ∧ call cfg dp c = some (dp',r)

def StagesMatch (cfg : Config) (dp : DerivationPipeline) : Prop :=
  if cfg.isHolocene dp.origin.time then
    dp.channelMux = some .channelAssembler ∧ ∃ base,dp.batchMux = some (.batchStage base)
  else
    dp.channelMux = some .channelBank ∧ ∃ base,dp.batchMux = some (.batchQueue base)

/-- No origin change from before Granite to Holocene, and one safe head for each reset. -/
def KeepsStages (cfg : Config) (dp : DerivationPipeline) : Call → Prop
  | .step _ _ pendingSafeHead =>
    (0 < dp.resetting → dp.resetting < stages.length → pendingSafeHead = dp.resetL2Safe) ∧
      (stages.length ≤ dp.resetting → cfg.isHolocene dp.traversal.block.time = true →
        cfg.isGranite dp.origin.time = true)
  | _ => True

instance (cfg : Config) (dp : DerivationPipeline) (c : Call) : Decidable (KeepsStages cfg dp c) := by
  cases c <;> unfold KeepsStages <;> infer_instance

def runCalls (cfg : Config) (ok : DerivationPipeline → Call → Prop)
    [∀ dp c,Decidable (ok dp c)] : DerivationPipeline → List Call → Option DerivationPipeline
  | dp,[] => some dp
  | dp,c::cs =>
    if ok dp c then
      match call cfg dp c with
      | none => none
      | some (dp',_) => runCalls cfg ok dp' cs
    else none

theorem runCalls_reaches {cfg : Config} {src : L1Source} {ok : DerivationPipeline → Call → Prop}
    [∀ dp c,Decidable (ok dp c)] {dp dp' : DerivationPipeline} {cs : List Call}
    (ha : ∀ c ∈ cs,Answers src c) (h : runCalls cfg ok dp cs = some dp') :
    Reaches (Moves cfg src ok) dp dp' := by
  induction cs generalizing dp with
  | nil =>
    cases h
    exact .refl
  | cons c cs ih =>
    rw [runCalls] at h
    split at h
    · rename_i hok
      split at h
      · cases h
      rename_i next r hca
      exact .head ⟨c,r,ha c (by simp),hok,hca⟩ (ih (fun c' hc' => ha c' (by simp [hc'])) h)
    · cases h

variable {cfg : Config} {old new : UInt64}

theorem isActivationBlock_of_granite (ho : Ordered cfg) (hg : cfg.isGranite old = true)
    (hn : cfg.isHolocene new = true) (hold : cfg.isHolocene old = false) :
    cfg.isActivationBlock old new = some .holocene := by
  obtain ⟨h1,h2,h3,h4,h5,-⟩ := ho
  have hfjord := h5 old hg
  have heco := h4 old hfjord
  have hdelta := h3 old heco
  have hcanyon := h2 old hdelta
  have hregolith := h1 old hcanyon
  unfold Config.isGranite at hg
  unfold Config.isHolocene at hn hold
  simp [Config.isActivationBlock,scheduleableForks,hregolith,hcanyon,hdelta,heco,hfjord,hg,hn,hold]

theorem isActivationBlock_holocene (h : cfg.isActivationBlock old new = some .holocene) :
    cfg.isHolocene new = true ∧ cfg.isHolocene old = false := by
  have hp := find?_some h
  simpa [Config.isHolocene] using hp

def StageReset (cfg : Config) (dp : DerivationPipeline) : Stage → Prop
  | .l1Traversal => dp.traversal.block = dp.origin
  | .channelMux => dp.channelMux = some (.reset cfg dp.origin)
  | .batchMux =>
    if cfg.isHolocene dp.origin.time then ∃ base,dp.batchMux = some (.batchStage base)
    else ∃ base,dp.batchMux = some (.batchQueue base)
  | _ => True

def Known (src : L1Source) (b : L1BlockRef) : Prop := src.block b ∨ b = .zero

/-- A pipeline past its reset: the muxes fit the origin, and the traversal is at the origin or at a
later block. -/
structure Running (src : L1Source) (cfg : Config) (dp : DerivationPipeline) : Prop where
  channel : StageReset cfg dp .channelMux
  batch : StageReset cfg dp .batchMux
  block_known : Known src dp.traversal.block
  ahead : dp.origin.time ≤ dp.traversal.block.time

structure Tracks (src : L1Source) (cfg : Config) (dp : DerivationPipeline) : Prop where
  known : Known src dp.origin
  resetting : dp.resetting < stages.length → ∀ i stage,i < dp.resetting →
    stages[i]? = some stage → StageReset cfg dp stage
  running : stages.length ≤ dp.resetting → Running src cfg dp

section reset
variable {src : L1Source} {env : StepEnv} {dp dp' : DerivationPipeline}

variable {fuel : Nat} {safe : L2BlockRef} {stage : Stage}

theorem walkBack_known (hs : Serves src env.l1) {l1Origin : BlockID} {l2 l2' : L2BlockRef}
    {o o' : L1BlockRef} (ho : src.block o)
    (h : walkBack cfg env l1Origin fuel l2 o = some (.ok (l2',o'))) : src.block o' := by
  induction fuel generalizing l2 o with
  | zero => cases h
  | succ fuel ih =>
    simp only [walkBack] at h
    split at h
    · split at h
      · cases h
      split at h
      · cases h
      · rename_i parent _ origin hor
        exact ih (hs.by_hash hor) h
    · cases h
      exact ho

theorem initialReset_error {e : PipelineError}
    (h : initialReset cfg env fuel safe dp = some (dp',some e)) : dp' = dp := by
  unfold initialReset at h
  split at h
  · cases h
    rfl
  split at h
  · cases h
  · cases h
    rfl
  split at h
  · cases h
    rfl
  · cases h

theorem initialReset_ok (hs : Serves src env.l1)
    (h : initialReset cfg env fuel safe dp = some (dp',none)) :
    src.block dp'.origin ∧ dp'.resetting = dp.resetting := by
  unfold initialReset at h
  split at h
  · cases h
  rename_i origin hor
  split at h
  · cases h
  · cases h
  rename_i hw
  split at h
  · cases h
  · cases h
    exact ⟨walkBack_known hs (hs.by_hash hor) hw,rfl⟩

theorem resetStage_frame (cfg : Config) (env : StepEnv) (dp : DerivationPipeline) (stage : Stage) :
    (resetStage cfg env stage dp).1.origin = dp.origin ∧
      (resetStage cfg env stage dp).1.resetting = dp.resetting := by
  cases stage <;> exact ⟨rfl,rfl⟩

theorem resetStage_keeps (stage : Stage) {other : Stage} (h : StageReset cfg dp other) :
    StageReset cfg (resetStage cfg env stage dp).1 other := by
  cases stage <;> cases other <;>
    first | exact h | exact trivial | rfl | skip
  -- a batch mux reset once more
  simp only [StageReset,resetStage,SingularBatchProvider.reset]
  split
  · exact ⟨_,rfl⟩
  · exact ⟨_,rfl⟩

theorem resetStage_done (stage : Stage) (h : (resetStage cfg env stage dp).2 = some .eof) :
    StageReset cfg (resetStage cfg env stage dp).1 stage := by
  cases stage with
  | batchMux =>
    simp only [StageReset,resetStage,SingularBatchProvider.reset]
    split
    · exact ⟨_,rfl⟩
    · exact ⟨_,rfl⟩
  | l1Traversal => rfl
  | channelMux => rfl
  | _ => trivial

variable (env) (ht : Tracks src cfg dp) (hstage : stages[dp.resetting]? = some stage)
include ht hstage

theorem resetStage_tracks : Tracks src cfg (resetStage cfg env stage dp).1 := by
  obtain ⟨ho,hr⟩ := resetStage_frame cfg env dp stage
  have hlt := (List.getElem?_eq_some_iff.mp hstage).1
  refine ⟨by rw [ho]; exact ht.known,?_,?_⟩
  · intro _ i other hi hot
    exact resetStage_keeps stage (ht.resetting hlt i other (by omega) hot)
  · omega

theorem resetStage_eof_tracks (he : (resetStage cfg env stage dp).2 = some .eof) :
    Tracks src cfg { (resetStage cfg env stage dp).1 with resetting := dp.resetting + 1 } := by
  have hlt := (List.getElem?_eq_some_iff.mp hstage).1
  obtain ⟨ho,-⟩ := resetStage_frame cfg env dp stage
  have hdo : ∀ i other,i < dp.resetting + 1 → stages[i]? = some other →
      StageReset cfg (resetStage cfg env stage dp).1 other := by
    intro i other hi hot
    rcases Nat.lt_succ_iff_lt_or_eq.mp hi with hlt' | rfl
    · exact resetStage_keeps stage (ht.resetting hlt i other hlt' hot)
    rw [hstage,some.injEq] at hot
    subst hot
    exact resetStage_done stage he
  refine ⟨by simp only [ho]; exact ht.known,?_,?_⟩
  · intro _ i other hi hot
    have hd := hdo i other hi hot
    cases other <;> exact hd
  -- the last stage is done
  intro hle
  have hls : dp.resetting = 7 := by
    simp only [stages,length_cons,length_nil] at hle hlt
    omega
  have htraversal : (resetStage cfg env stage dp).1.traversal.block =
      (resetStage cfg env stage dp).1.origin := hdo 0 .l1Traversal (by omega) rfl
  refine ⟨hdo 4 .channelMux (by omega) rfl,hdo 6 .batchMux (by omega) rfl,?_,?_⟩
  · simp only [htraversal,ho]
    exact ht.known
  · simp only [htraversal]
    exact UInt64.le_refl _

theorem resetNext_tracks :
    Tracks src cfg (resetNext cfg env stage dp).1 ∧ (resetNext cfg env stage dp).2 ≠ .panic := by
  have hsm := resetStage_tracks env ht hstage
  obtain ⟨-,hr⟩ := resetStage_frame cfg env dp stage
  have heof := resetStage_eof_tracks env ht hstage
  unfold resetNext
  cases hs : resetStage cfg env stage dp with
  | mk d e =>
    rw [hs] at hsm hr heof
    split
    · rename_i d' heq
      cases heq
      refine ⟨?_,by simp⟩
      rw [show d.resetting = dp.resetting from hr]
      exact heof rfl
    · rename_i heq
      cases heq
      exact ⟨hsm,by simp⟩
    · rename_i heq
      cases heq
      exact ⟨hsm,by simp⟩

theorem stepReset_tracks (hs : Serves src env.l1) {r : StepResult}
    (hsafe : 0 < dp.resetting → safe = dp.resetL2Safe)
    (h : stepReset cfg fuel env safe stage dp = some (dp',r)) :
    Tracks src cfg dp' ∧ r ≠ .panic := by
  unfold stepReset at h
  split at h
  · cases h
    exact ⟨ht,by simp⟩
  by_cases hne : safe ≠ dp.resetL2Safe
  · -- a new origin, before any stage was reset
    rw [if_pos hne] at h
    have hz : dp.resetting = 0 := by
      rcases Nat.eq_zero_or_pos dp.resetting with hz | hpos
      · exact hz
      · exact absurd (hsafe hpos) hne
    cases hi : initialReset cfg env fuel safe dp with
    | none => simp [hi] at h
    | some p =>
      obtain ⟨d,e⟩ := p
      rw [hi] at h
      cases e with
      | some e =>
        cases h
        rw [initialReset_error hi]
        exact ⟨ht,by simp⟩
      | none =>
        obtain ⟨hkn,hr⟩ := initialReset_ok hs hi
        have htd : Tracks src cfg d := by
          refine ⟨.inl hkn,?_,?_⟩
          · omega
          intro hle
          rw [hr,hz] at hle
          exact absurd hle (by decide)
        have hnx := resetNext_tracks env htd (by rw [hr]; exact hstage)
        rw [some.inj h] at hnx
        exact hnx
  · rw [if_neg hne] at h
    have hnx := resetNext_tracks env ht hstage
    rw [some.inj h] at hnx
    exact hnx

end reset

variable {src : L1Source} {env : StepEnv} {dp dp' : DerivationPipeline}

theorem advanceL1Block_ahead (hs : Serves src env.l1) {t t' : L1Traversal}
    {e : Option PipelineError} (hk : Known src t.block)
    (h : t.advanceL1Block env.l1 = (t',e)) : Known src t'.block ∧ t.block.time ≤ t'.block.time := by
  rcases L1Traversal.advanceL1Block_cases h with ⟨rfl,-⟩ | ⟨-,next,_,hnx,hpar,rfl⟩
  · exact ⟨hk,UInt64.le_refl _⟩
  have hbk := hs.by_number hnx
  refine ⟨.inl hbk,?_⟩
  rcases hk with hk | hz
  · exact src.time_mono hk hbk hpar.symm
  · rw [hz]
    exact UInt64.zero_le

theorem nextL1Block_block (t : L1Traversal) : t.nextL1Block.1.block = t.block := by
  unfold L1Traversal.nextL1Block
  split
  · rfl
  · rfl

theorem stageReset_mapBase {f : Derive.BatchStage → Derive.BatchStage}
    {t : L1Traversal} (h : StageReset cfg dp .batchMux) :
    StageReset cfg { dp with traversal := t, batchMux := dp.batchMux.map (.mapBase f) }
      .batchMux := by
  simp only [StageReset] at h ⊢
  split at h
  · rename_i hh
    obtain ⟨base,hb⟩ := h
    rw [if_pos hh,hb]
    exact ⟨f base,rfl⟩
  rename_i hh
  obtain ⟨base,hb⟩ := h
  rw [if_neg hh,hb]
  exact ⟨f base,rfl⟩

theorem pullAttributes_running (hs : Serves src env.l1) (hr : Running src cfg dp)
    (hb : dp.traversal.block = dp.origin) :
    Running src cfg (pullAttributes env dp).1 ∧ (pullAttributes env dp).2 ≠ .panic ∧
      (pullAttributes env dp).1.origin = dp.origin ∧
      (pullAttributes env dp).1.resetting = dp.resetting := by
  have hrd : (if env.readL1Block then dp.traversal.nextL1Block.1 else dp.traversal).block =
      dp.origin := by
    split
    · rw [nextL1Block_block,hb]
    · exact hb
  unfold pullAttributes
  simp only
  generalize (if env.readL1Block then dp.traversal.nextL1Block.1 else dp.traversal) = t at hrd
  have hstay : Known src t.block ∧ dp.origin.time ≤ t.block.time := by
    rw [hrd,← hb]
    exact ⟨hr.block_known,UInt64.le_refl _⟩
  have hrun : ∀ t' : L1Traversal,Known src t'.block → dp.origin.time ≤ t'.block.time →
      Running src cfg
        { dp with traversal := t', batchMux := dp.batchMux.map (.mapBase env.workOnBatches) } :=
    fun t' hk hle => ⟨hr.channel,stageReset_mapBase hr.batch,hk,hle⟩
  split
  · exact ⟨hrun t hstay.1 hstay.2,by simp,rfl,rfl⟩
  · cases hadv : t.advanceL1Block env.l1 with
    | mk t' e =>
      obtain ⟨hk,hle⟩ := advanceL1Block_ahead hs hstay.1 hadv
      rw [hrd] at hle
      cases e with
      | none => exact ⟨hrun t' hk hle,by simp,rfl,rfl⟩
      | some e => exact ⟨hrun t' hk hle,by simp,rfl,rfl⟩
  · exact ⟨hrun t hstay.1 hstay.2,by simp,rfl,rfl⟩

theorem transformStages_other {old new : L1BlockRef}
    (h : cfg.isActivationBlock old.time new.time ≠ some .holocene) :
    transformStages cfg old new dp = some dp := by
  unfold transformStages
  split
  · rfl
  rename_i fork hfork
  rw [hfork] at h
  have hc : RawChannelProvider.transform fork dp.channelMux = some dp.channelMux := by
    cases fork <;> first | rfl | exact absurd rfl h
  have hb : SingularBatchProvider.transform fork dp.batchMux = some dp.batchMux := by
    cases fork <;> first | rfl | exact absurd rfl h
  simp [hc,hb]

theorem stageReset_origin {o : L1BlockRef} (hr : Running src cfg dp)
    (h : cfg.isHolocene o.time = cfg.isHolocene dp.origin.time) :
    StageReset cfg { dp with origin := o } .channelMux ∧
      StageReset cfg { dp with origin := o } .batchMux := by
  obtain ⟨hc,hb,-,-⟩ := hr
  simp only [StageReset,RawChannelProvider.reset,h] at hc hb ⊢
  exact ⟨hc,hb⟩

/-- The stages follow the origin from a block to a later one, unless forks up to Granite activate
together with Holocene. -/
theorem transformStages_running (ho : Ordered cfg) (hr : Running src cfg dp)
    (hg : cfg.isHolocene dp.traversal.block.time = true → cfg.isGranite dp.origin.time = true) :
    ∃ dp',transformStages cfg dp.origin dp.traversal.block dp = some dp' ∧
      Running src cfg { dp' with origin := dp.traversal.block } ∧
      dp'.traversal = dp.traversal ∧ dp'.resetting = dp.resetting := by
  have hsm : ∀ h : cfg.isHolocene dp.traversal.block.time = cfg.isHolocene dp.origin.time,
      cfg.isActivationBlock dp.origin.time dp.traversal.block.time ≠ some .holocene := by
    intro h ha
    obtain ⟨hn,hold⟩ := isActivationBlock_holocene ha
    simp [hn,hold] at h
  by_cases heq : cfg.isHolocene dp.traversal.block.time = cfg.isHolocene dp.origin.time
  · obtain ⟨hc,hb⟩ := stageReset_origin hr heq
    exact ⟨dp,transformStages_other (hsm heq),⟨hc,hb,hr.block_known,UInt64.le_refl _⟩,rfl,rfl⟩
  -- times do not decrease, so this is the activation
  have hold : cfg.isHolocene dp.origin.time = false := by
    cases hold : cfg.isHolocene dp.origin.time with
    | false => rfl
    | true => exact absurd ((active_mono hr.ahead hold).trans hold.symm) heq
  have hnew : cfg.isHolocene dp.traversal.block.time = true := by
    rw [hold] at heq
    simpa using heq
  have hc := hr.channel
  have hb := hr.batch
  simp only [StageReset,RawChannelProvider.reset,hold] at hc hb
  obtain ⟨base,hb⟩ := hb
  refine ⟨{ dp with
    channelMux := some .channelAssembler,
    batchMux := some (.batchStage { base with nextSpan := [] }) },?_,?_,rfl,rfl⟩
  · unfold transformStages
    rw [isActivationBlock_of_granite ho (hg hnew) hnew hold]
    simp only [hc,hb]
    rfl
  refine ⟨?_,?_,hr.block_known,UInt64.le_refl _⟩
  · simp [StageReset,RawChannelProvider.reset,hnew]
  · simp [StageReset,hnew]

theorem attribOrigin_running (hr : Running src cfg dp) :
    dp.attribOrigin = some dp.traversal.block := by
  have hc := hr.channel
  have hb := hr.batch
  simp only [StageReset] at hc hb
  unfold attribOrigin
  split at hb
  · obtain ⟨base,hb⟩ := hb
    rw [hb,hc]
  · obtain ⟨base,hb⟩ := hb
    rw [hb,hc]

theorem running_tracks (hk : Known src dp.origin) (hle : stages.length ≤ dp.resetting)
    (hr : Running src cfg dp) : Tracks src cfg dp :=
  ⟨hk,fun hlt => absurd hle (Nat.not_le.mpr hlt),fun _ => hr⟩

theorem step_tracks (ho : Ordered cfg) (ht : Tracks src cfg dp) {fuel : Nat} {safe : L2BlockRef}
    {r : StepResult} (hs : Serves src env.l1) (hok : KeepsStages cfg dp (.step fuel env safe))
    (h : step cfg fuel env safe dp = some (dp',r)) : Tracks src cfg dp' ∧ r ≠ .panic := by
  obtain ⟨hsf,hgranite⟩ := hok
  unfold step at h
  cases hstage : stages[dp.resetting]? with
  | some stage =>
    rw [hstage] at h
    have hlt := (List.getElem?_eq_some_iff.mp hstage).1
    exact stepReset_tracks env ht hstage hs (fun hpos => hsf hpos hlt) h
  | none =>
    have hle := getElem?_eq_none_iff.mp hstage
    have hr := ht.running hle
    simp only [hstage,attribOrigin_running hr] at h
    split at h
    · split at h
      · cases h
        exact ⟨ht,by simp⟩
      obtain ⟨d,hd,hrd,htr,hrs⟩ := transformStages_running ho hr (hgranite hle)
      rw [hd] at h
      obtain ⟨hp,hnp,hor,hrst⟩ := pullAttributes_running hs hrd (by simp only [htr])
      rw [some.inj h] at hp hnp hor hrst
      refine ⟨running_tracks ?_ ?_ hp,hnp⟩
      · rw [hor]
        exact hr.block_known
      · rw [hrst,hrs]
        exact hle
    · rename_i heq
      have heq' := (not_not.mp heq).symm
      obtain ⟨hp,hnp,hor,hrst⟩ := pullAttributes_running hs hr heq'
      rw [some.inj h] at hp hnp hor hrst
      refine ⟨running_tracks ?_ ?_ hp,hnp⟩
      · rw [hor]
        exact ht.known
      · rw [hrst]
        exact hle

theorem call_tracks (ho : Ordered cfg) (ht : Tracks src cfg dp) {c : Call} {r : StepResult}
    (hs : Answers src c) (hok : KeepsStages cfg dp c) (h : call cfg dp c = some (dp',r)) :
    Tracks src cfg dp' ∧ r ≠ .panic := by
  cases c with
  | step fuel env safe => exact step_tracks ho ht hs hok h
  | reset =>
    cases h
    refine ⟨⟨ht.known,?_,?_⟩,by simp⟩
    · intro _ i stage hi
      exact absurd hi (Nat.not_lt_zero i)
    · intro hle
      exact absurd hle (by simp [DerivationPipeline.reset,stages])
  | confirmEngineReset =>
    cases h
    refine ⟨⟨ht.known,?_,?_⟩,by simp⟩
    · intro hlt i stage hi hstage
      have hd := ht.resetting hlt i stage hi hstage
      cases stage <;> exact hd
    intro hle
    obtain ⟨hc,hb,hk,ha⟩ := ht.running hle
    exact ⟨hc,hb,hk,ha⟩

theorem new_tracks : Tracks src cfg newDerivationPipeline := by
  refine ⟨.inr rfl,?_,?_⟩
  · intro _ i stage hi
    exact absurd hi (Nat.not_lt_zero i)
  · intro hle
    exact absurd hle (by decide)

theorem reachable_tracks (hc : cfg.check = .ok ())
    (h : Reaches (Moves cfg src (KeepsStages cfg)) newDerivationPipeline dp) :
    Tracks src cfg dp := by
  refine h.invariant new_tracks ?_
  rintro x y hx ⟨c,r,hs,hok,hca⟩
  exact (call_tracks (check_ordered hc) hx hs hok hca).1

/-- In every run without an origin change from before Granite to Holocene and with one safe head
for each reset, the active stages fit the origin and no call panics. -/
theorem stages_match_forks (hc : cfg.check = .ok ())
    (h : Reaches (Moves cfg src (KeepsStages cfg)) newDerivationPipeline dp) :
    (stages.length ≤ dp.resetting → StagesMatch cfg dp) ∧
      ∀ c dp',Answers src c → KeepsStages cfg dp c → call cfg dp c ≠ some (dp',.panic) := by
  have ht := reachable_tracks hc h
  constructor
  · intro hle
    obtain ⟨hchn,hbt,-,-⟩ := ht.running hle
    simp only [StageReset,RawChannelProvider.reset] at hchn hbt
    unfold StagesMatch
    split
    · rename_i hh
      rw [if_pos hh] at hchn hbt
      exact ⟨hchn,hbt⟩
    rename_i hh
    rw [if_neg hh] at hchn hbt
    exact ⟨hchn,hbt⟩
  · intro c dp' hs hok hca
    exact (call_tracks (check_ordered hc) ht hs hok hca).2 rfl

open BatchStageExtension

def numberOf (h : Hash) : Nat := (h.bytes.headD 0).toNat

theorem numberOf_hashOf {n : Nat} (h : n < 256) : numberOf (hashOf n) = n := by
  simp only [numberOf,hashOf,headD_cons,UInt8.toNat_ofNat']
  omega

theorem sampleChain_time_mono {a b : L1BlockRef} (ha : ∃ n < 100,a = sampleChain.block n)
    (hb : ∃ n < 100,b = sampleChain.block n) (h : b.parentHash = a.hash) : a.time ≤ b.time := by
  obtain ⟨m,hm,rfl⟩ := ha
  obtain ⟨n,hn,rfl⟩ := hb
  have hmn := congrArg numberOf (show hashOf (n - 1) = hashOf m from h)
  rw [numberOf_hashOf (by omega),numberOf_hashOf (by omega)] at hmn
  simp only [sampleChain,le_iff_toNat_le,toNat_ofNat']
  omega

def sampleSource : L1Source where
  block b := ∃ n < 100,b = sampleChain.block n
  time_mono := sampleChain_time_mono

def sampleL2 (n : Nat) : L2BlockRef :=
  ⟨hashOf (100 + n),ofNat n,hashOf (99 + n),ofNat (10 + 2 * n),(sampleChain.block n).id,0⟩

def sampleEnv (head : Nat) : StepEnv where
  l1 :=
    { blockByNumber n := if n.toNat ≤ head then .found (sampleChain.block n.toNat) else .notFound
      blockByHash h :=
        if numberOf h ≤ head then some (sampleChain.block (numberOf h)) else none
      fetchReceipts _ := some id }
  l2BlockRefByHash h := some (sampleL2 (numberOf h - 100))
  systemConfigByL2Hash _ := some SystemConfig.zero
  resetL1Retrieval := .eof
  resetAltDA := some .eof
  readL1Block := true
  workOnBatches := id
  nextAttributes := .error .eof

variable {head : Nat}

theorem sampleEnv_serves (h : head < 100) : Serves sampleSource (sampleEnv head).l1 := by
  constructor
  · intro n b hb
    simp only [sampleEnv] at hb
    split at hb
    · injection hb with hb
      exact ⟨n.toNat,by omega,hb.symm⟩
    · cases hb
  intro x b hb
  simp only [sampleEnv] at hb
  split at hb
  · injection hb with hb
    exact ⟨numberOf x,by omega,hb.symm⟩
  · cases hb

def resetTo (head : Nat) (safe : L2BlockRef) (more : Nat) : List Call :=
  .confirmEngineReset::replicate (8 + more) (.step 100 (sampleEnv head) safe)

theorem resetTo_answers (h : head < 100) {safe : L2BlockRef} {more : Nat} :
    ∀ c ∈ resetTo head safe more,Answers sampleSource c := by
  intro c hc
  rcases mem_cons.mp hc with rfl | hc
  · trivial
  · rw [eq_of_mem_replicate hc]
    exact sampleEnv_serves h

def forksAt (granite holocene : UInt64) : Config :=
  { sampleConfig with graniteTime := some granite, holoceneTime := some holocene }

/-- Holocene activates with L1 block 1, which the pipeline processes after a reset to block 0. -/
theorem stages_match_forks_sample : ∃ dp,
    Reaches (Moves (forksAt 0 11) sampleSource (KeepsStages (forksAt 0 11)))
      newDerivationPipeline dp ∧
    dp.origin = sampleChain.block 1 ∧ StagesMatch (forksAt 0 11) dp := by
  have hrun : (runCalls (forksAt 0 11) (KeepsStages (forksAt 0 11)) newDerivationPipeline
      (resetTo 1 (sampleL2 0) 2)).map (fun dp => (dp.resetting,dp.origin)) =
        some (8,sampleChain.block 1) := by
    decide +kernel
  obtain ⟨dp,hdp,hobs⟩ := map_eq_some_iff.mp hrun
  rw [Prod.mk.injEq] at hobs
  have hrch := runCalls_reaches (resetTo_answers (by decide)) hdp
  refine ⟨dp,hrch,hobs.2,(stages_match_forks (by decide) hrch).1 ?_⟩
  rw [hobs.1]
  decide

def movedReset (head : Nat) (safe moved : L2BlockRef) : List Call :=
  .confirmEngineReset::replicate 7 (.step 100 (sampleEnv head) safe) ++
    [.step 100 (sampleEnv head) moved]

theorem movedReset_answers (h : head < 100) {safe moved : L2BlockRef} :
    ∀ c ∈ movedReset head safe moved,Answers sampleSource c := by
  intro c hc
  rcases mem_append.mp hc with hc | hc
  · rcases mem_cons.mp hc with rfl | hc
    · trivial
    · rw [eq_of_mem_replicate hc]
      exact sampleEnv_serves h
  · rw [mem_singleton.mp hc]
    exact sampleEnv_serves h

/-- With Granite and Holocene both at L1 block 1 the activation names Granite only, and the old
stages stay. With Holocene alone, at L1 block 11, a safe head that moves from L2 block 61 to 60
before the last stage is reset takes the origin back to block 10, so that Holocene stages are
transformed again. -/
theorem stages_miss_forks : ((forksAt 11 11).check = .ok () ∧ ∃ dp,
      Reaches (Moves (forksAt 11 11) sampleSource fun _ _ => True) newDerivationPipeline dp ∧
      dp.derivationReady = true ∧ dp.attribOrigin = some dp.origin ∧
      ¬ StagesMatch (forksAt 11 11) dp) ∧
    (forksAt 0 21).check = .ok () ∧ ∃ dp dp' c,
      Reaches (Moves (forksAt 0 21) sampleSource fun _ _ => True) newDerivationPipeline dp ∧
      Answers sampleSource c ∧ call (forksAt 0 21) dp c = some (dp',.panic) := by
  refine ⟨⟨by decide,?_⟩,by decide,?_⟩
  · have hrun : (runCalls (forksAt 11 11) (fun _ _ => True) newDerivationPipeline
        (resetTo 1 (sampleL2 0) 2)).map
          (fun dp => (dp.derivationReady,dp.attribOrigin,dp.origin,dp.channelMux)) =
        some (true,some (sampleChain.block 1),sampleChain.block 1,some .channelBank) := by
      decide +kernel
    obtain ⟨dp,hdp,hobs⟩ := map_eq_some_iff.mp hrun
    simp only [Prod.mk.injEq] at hobs
    obtain ⟨hrdy,hattrib,hor,hchn⟩ := hobs
    refine ⟨dp,runCalls_reaches (resetTo_answers (by decide)) hdp,hrdy,?_,?_⟩
    · rw [hattrib,hor]
    rw [StagesMatch,hor,if_pos (by decide),hchn]
    rintro ⟨h,-⟩
    cases h
  · have hrun : ((runCalls (forksAt 0 21) (fun _ _ => True) newDerivationPipeline
        (movedReset 61 (sampleL2 61) (sampleL2 60))).bind
          (fun dp => call (forksAt 0 21) dp (.step 100 (sampleEnv 61) (sampleL2 60)))).map
            Prod.snd = some .panic := by
      decide +kernel
    obtain ⟨⟨dp',r⟩,hca,rfl⟩ := map_eq_some_iff.mp hrun
    obtain ⟨dp,hdp,hca⟩ := bind_eq_some_iff.mp hca
    have hsrv : Serves sampleSource (sampleEnv 61).l1 := sampleEnv_serves (by decide)
    exact ⟨dp,dp',.step 100 (sampleEnv 61) (sampleL2 60),
      runCalls_reaches (movedReset_answers (by decide)) hdp,hsrv,hca⟩

end OpStack.Proofs.PipelineStages
