import OpStack.Proofs.EngineHeads

namespace OpStack.Proofs.PayloadInsertion
open Eth Rollup Engine Lib Config EngineHeads EngineController

variable {engine : ExecEngine} {e e' : EngineController} {payload : ExecutionPayload}
  {ref : L2BlockRef} {err : Option EngineError} {st : SyncStatus} {em : List Event}

/-- There is a finalized block already, so the sync of the execution layer is not started. -/
def Skipped (engine : ExecEngine) (e : EngineController) : Prop :=
  e.syncStatus = .willStartEL ∧ e.startsELSync engine = false

def Finishes (engine : ExecEngine) (e : EngineController) (payload : ExecutionPayload) : Prop :=
  ∃ status,engine.newPayload payload = some status ∧ (e.checkNewPayloadStatus status).2 = true ∧
    (e.syncStatus = .finishedELButNotFinalized ∨ e.syncCfg.syncMode = .elSync ∧ status = .valid ∧
        (e.syncStatus = .startedEL ∨ e.syncStatus = .willStartEL ∧ e.startsELSync engine = true))

def Refuses (engine : ExecEngine) (e : EngineController) (fc : ForkchoiceState) : Prop :=
  ∀ status,engine.forkchoiceUpdate fc = .status status →
    (e.checkForkchoiceUpdatedStatus status).2 = false

variable {fc : ForkchoiceState} {s : EngineController} {status : ExecutePayloadStatus}

theorem refuses_congr {s' : EngineController}
    (h : s'.syncCfg = s.syncCfg) : Refuses engine s' fc ↔ Refuses engine s fc := by
  have hck : ∀ status,(s'.checkForkchoiceUpdatedStatus status).2 =
      (s.checkForkchoiceUpdatedStatus status).2 := by
    intro status
    unfold checkForkchoiceUpdatedStatus
    rw [h]
    cases s.syncCfg.syncMode <;> rfl
  unfold Refuses
  simp [hck]

/-- The forkchoice state that the engine took last is the one of the heads that the controller
reports. -/
structure Settled (engine : ExecEngine) (e : EngineController) : Prop where
  taken : ¬ Refuses engine e e.lastForkchoice
  heads : ∃ safe finalized,e.safeL2Head engine = .ok safe ∧
    e.finalizedHead engine = .ok finalized ∧
    e.lastForkchoice = ⟨e.unsafeHead.hash,safe.hash,finalized.hash⟩

def between (e : EngineController) (st : SyncStatus) (em : List Event) : EngineController :=
  { e with syncStatus := st, emitter := em }

theorem tryStartELSync_cases :
    (∃ st,e.tryStartELSync engine = .inl (between e st e.emitter) ∧ ¬ Skipped engine e ∧
      (st = .finishedELButNotFinalized ↔ e.syncStatus = .finishedELButNotFinalized) ∧
      (st = .startedEL ↔ e.syncStatus = .startedEL ∨
        e.syncStatus = .willStartEL ∧ e.startsELSync engine = true)) ∨
    (∃ st err,e.tryStartELSync engine = .inr (between e st e.emitter,err) ∧ Skipped engine e) := by
  unfold tryStartELSync Skipped
  by_cases hw : e.syncStatus = .willStartEL
  · rw [if_pos hw]
    by_cases hs : e.startsELSync engine = true
    · exact .inl ⟨.startedEL,by rw [if_pos hs]; rfl,by simp [hs],by simp [hw],by simp [hw,hs]⟩
    refine .inr ?_
    rw [if_neg hs]
    split
    · exact ⟨_,_,rfl,hw,by simpa using hs⟩
    · exact ⟨_,_,rfl,hw,by simpa using hs⟩
  · rw [if_neg hw]
    exact .inl ⟨e.syncStatus,rfl,fun h => hw h.1,Iff.rfl,by simp [hw]⟩

def phaseAfter (st : SyncStatus) (status : ExecutePayloadStatus) : SyncStatus :=
  if status = .valid ∧ st = .startedEL then .finishedELButNotFinalized else st

theorem phaseAfter_finished_iff : phaseAfter st status = .finishedELButNotFinalized ↔
    st = .finishedELButNotFinalized ∨ status = .valid ∧ st = .startedEL := by
  unfold phaseAfter
  split
  · simp_all
  · simp_all

theorem finishSync_between (status : ExecutePayloadStatus) :
    (between e st em).finishSync status = between e (phaseAfter st status) em := by
  unfold finishSync phaseAfter
  split <;> rename_i h <;> simp_all [between]

theorem checkNewPayloadStatus_between (status : ExecutePayloadStatus) :
    (between e st em).checkNewPayloadStatus status =
      (between e (if e.syncCfg.syncMode = .elSync then phaseAfter st status else st) em,
        (e.checkNewPayloadStatus status).2) := by
  unfold checkNewPayloadStatus
  rw [show (between e st em).syncCfg = e.syncCfg from rfl]
  cases e.syncCfg.syncMode with
  | elSync => simp [finishSync_between]
  | clSync => cases e.syncCfg.syncModeReqResp <;> simp

theorem checkForkchoiceUpdatedStatus_between (status : ExecutePayloadStatus) :
    (between e st em).checkForkchoiceUpdatedStatus status =
      (between e (if e.syncCfg.syncMode = .elSync then phaseAfter st status else st) em,
        (e.checkForkchoiceUpdatedStatus status).2) := by
  unfold checkForkchoiceUpdatedStatus
  rw [show (between e st em).syncCfg = e.syncCfg from rfl]
  cases e.syncCfg.syncMode with
  | elSync => simp [finishSync_between]
  | clSync => simp

theorem sendPayload_cases :
    (∃ st' em' err,(between e st em).sendPayload engine payload = (between e st' em',some err) ∧
      ∀ status,engine.newPayload payload = some status →
        (e.checkNewPayloadStatus status).2 = false) ∨
    (∃ st' em' status,(between e st em).sendPayload engine payload = (between e st' em',none) ∧
      engine.newPayload payload = some status ∧ (e.checkNewPayloadStatus status).2 = true ∧
      (st' = .finishedELButNotFinalized ↔ st = .finishedELButNotFinalized ∨
        e.syncCfg.syncMode = .elSync ∧ status = .valid ∧ st = .startedEL)) := by
  unfold sendPayload
  cases hp : engine.newPayload payload with
  | none => exact .inl ⟨_,_,_,rfl,by simp⟩
  | some status =>
    have hemit : ∃ em',(if status = .invalid then
        (between e st em).emit (.payloadInvalid payload status) else between e st em) =
        between e st em' := by
      split
      · exact ⟨_,rfl⟩
      · exact ⟨_,rfl⟩
    obtain ⟨em',hem⟩ := hemit
    simp only [hem]
    rw [checkNewPayloadStatus_between]
    cases hacc : (e.checkNewPayloadStatus status).2 with
    | false =>
      refine .inl ⟨_,_,_,rfl,?_⟩
      intro status' hs
      cases hs
      exact hacc
    | true =>
      refine .inr ⟨_,_,status,rfl,rfl,hacc,?_⟩
      split <;> rename_i hmode
      · rw [phaseAfter_finished_iff]
        simp [hmode]
      · simp [hmode]

/-- A call stops before the second round trip, with the heads as they were, or comes to it. -/
theorem insertUnsafePayload_cases (h : e.insertUnsafePayload engine payload ref = .ok (e',err)) :
    (headsOf e' = headsOf e ∧ ¬ Finishes engine e payload ∧ (err = none → Skipped engine e)) ∨
    (∃ st em,(between e st em).updateForkchoice engine payload ref = .ok (e',err) ∧
      ¬ Skipped engine e ∧ (st = .finishedELButNotFinalized ↔ Finishes engine e payload)) := by
  unfold insertUnsafePayload at h
  obtain ⟨st,hsta,hsk,hfin,hstarted⟩ | ⟨st,err',hsta,hsk⟩ := @tryStartELSync_cases engine e
  · rw [hsta] at h
    dsimp only at h
    obtain ⟨st',em',err',hsend,hno⟩ | ⟨st',em',status,hsend,hp,hacc,hst⟩ :=
      @sendPayload_cases engine e payload st e.emitter
    · rw [hsend] at h
      cases h
      refine .inl ⟨rfl,?_,by simp⟩
      rintro ⟨status,hp,hacc,-⟩
      simp [hno status hp] at hacc
    rw [hsend] at h
    refine .inr ⟨st',em',h,hsk,?_⟩
    rw [hst,hfin,hstarted]
    constructor
    · intro hcs
      exact ⟨status,hp,hacc,hcs⟩
    rintro ⟨status',hp',-,hcs⟩
    cases hp.symm.trans hp'
    exact hcs
  · rw [hsta] at h
    cases h
    refine .inl ⟨rfl,?_,fun _ => hsk⟩
    rintro ⟨status,-,-,hcs⟩
    obtain ⟨hwill,hno⟩ := hsk
    simp [hwill,hno] at hcs

def syncedHeads (ref safeRef finalizedRef : L2BlockRef) : Heads :=
  ⟨ref,safeRef,safeRef,finalizedRef,finalizedRef⟩

def withHeads (e : EngineController) (h : Heads) : EngineController :=
  { e with
    unsafeHead := h.unsafeHead
    localSafeHead := h.localSafe
    deprecatedSafeHead := h.crossSafe
    localFinalizedHead := h.localFinalized
    deprecatedFinalizedHead := h.crossFinalized }

inductive Sent (engine : ExecEngine) (s : EngineController) (fc : ForkchoiceState)
    (ref : L2BlockRef) : EngineController → Option EngineError → Prop where
  | refused {e' : EngineController} {err : EngineError} (hr : Refuses engine s fc)
      (hh : headsOf e' = headsOf s) : Sent engine s fc ref e' (some err)
  | taken {st : SyncStatus} {em : List Event} {safe finalized : L2BlockRef}
      (hr : ¬ Refuses engine s fc) (hsafe : s.safeL2Head engine = .ok safe)
      (hfinalized : s.finalizedHead engine = .ok finalized) :
      Sent engine s fc ref (between { s with unsafeHead := ref, lastForkchoice := fc } st em) none

theorem concludeInsertion_between
    (h : (between e st em).concludeInsertion engine ref fc status = .ok e') :
    ∃ st' em',e' = between { e with unsafeHead := ref, lastForkchoice := fc } st' em' := by
  have hrequest : ∀ st' em',(between { e with unsafeHead := ref, lastForkchoice := fc } st'
      em').requestForkchoiceUpdate engine = .ok e' →
      ∃ em'',e' = between { e with unsafeHead := ref, lastForkchoice := fc } st' em'' := by
    intro st' em' h'
    obtain ⟨safe,-,h'⟩ := of_bind_ok h'
    obtain ⟨finalized,-,h'⟩ := of_bind_ok h'
    exact ⟨_,(Except.ok.inj h').symm⟩
  unfold concludeInsertion at h
  dsimp only at h
  split at h
  · split at h
    · exact ⟨_,hrequest .finishedEL _ h⟩
    · exact ⟨_,hrequest st _ h⟩
  split at h
  · exact ⟨.finishedEL,_,(Except.ok.inj h).symm⟩
  · exact ⟨st,_,(Except.ok.inj h).symm⟩

theorem commitForkchoice_sent
    (h : (between e st em).commitForkchoice engine payload ref fc = .ok (e',err)) :
    Sent engine e fc ref e' err := by
  obtain ⟨_,hlog,h⟩ := of_bind_ok h
  obtain ⟨finalized,hfin,hlog⟩ := of_bind_ok hlog
  obtain ⟨safe,hsf,-⟩ := of_bind_ok hlog
  have hno : ∀ (answer : ForkchoiceAnswer),engine.forkchoiceUpdate fc = answer →
      (∀ status,answer ≠ .status status) → Refuses engine e fc := by
    intro answer hans hne status hstatus
    exact absurd (hans.symm.trans hstatus) (hne status)
  cases hans : engine.forkchoiceUpdate fc with
  | invalidForkchoiceState =>
    rw [hans] at h
    cases h
    exact .refused (hno _ hans (by simp)) rfl
  | rpcError =>
    rw [hans] at h
    cases h
    exact .refused (hno _ hans (by simp)) rfl
  | failed =>
    rw [hans] at h
    cases h
    exact .refused (hno _ hans (by simp)) rfl
  | status status =>
    rw [hans] at h
    simp only [forkchoiceError,checkForkchoiceUpdatedStatus_between] at h
    cases hacc : (e.checkForkchoiceUpdatedStatus status).2 with
    | false =>
      rw [hacc] at h
      cases h
      refine .refused ?_ rfl
      intro status' hs
      rw [hans] at hs
      cases hs
      exact hacc
    | true =>
      rw [hacc] at h
      obtain ⟨e'',hconc,h⟩ := of_bind_ok h
      cases h
      obtain ⟨st',em',rfl⟩ := concludeInsertion_between hconc
      refine .taken ?_ hsf hfin
      intro hr
      simp [hr status hans] at hacc

def forkchoiceOf (payload : ExecutionPayload) (safe finalized : L2BlockRef) : ForkchoiceState :=
  ⟨payload.blockHash,safe.hash,finalized.hash⟩

/-- The second round trip runs on the heads as they are, or at the end of the sync on the synced
ones, unless the offset block is not there. -/
theorem updateForkchoice_cases
    (h : (between e st em).updateForkchoice engine payload ref = .ok (e',err)) :
    ∃ safe finalized,e.safeL2Head engine = .ok safe ∧ e.finalizedHead engine = .ok finalized ∧
      ((st ≠ .finishedELButNotFinalized ∧
          Sent engine e (forkchoiceOf payload safe finalized) ref e' err) ∨
        (st = .finishedELButNotFinalized ∧ (∃ x,e.offsetBlock engine ref = .error x) ∧
          err ≠ none ∧ headsOf e' = headsOf e) ∨
        (st = .finishedELButNotFinalized ∧ ∃ offsetRef,e.offsetBlock engine ref = .ok offsetRef ∧
          Sent engine (withHeads e (syncedHeads ref (notBehind offsetRef safe)
              (notBehind offsetRef finalized)))
            (forkchoiceOf payload (notBehind offsetRef safe)
              (notBehind offsetRef finalized)) ref e' err)) := by
  obtain ⟨⟨e1,fc⟩,hpr,h⟩ := of_bind_ok h
  obtain ⟨safe,hsf,hpr⟩ := of_bind_ok hpr
  obtain ⟨finalized,hfin,hpr⟩ := of_bind_ok hpr
  refine ⟨safe,finalized,hsf,hfin,?_⟩
  by_cases hst : st = .finishedELButNotFinalized
  · rw [if_pos (show (between e st em).syncStatus = _ from hst),
      show (between e st em).offsetBlock engine ref = e.offsetBlock engine ref from rfl] at hpr
    cases hoff : e.offsetBlock engine ref with
    | error x =>
      rw [hoff] at hpr
      cases hpr
      cases h
      exact .inr (.inl ⟨hst,⟨x,rfl⟩,by simp,rfl⟩)
    | ok offsetRef =>
      rw [hoff] at hpr
      cases hpr
      refine .inr (.inr ⟨hst,offsetRef,rfl,?_⟩)
      exact @commitForkchoice_sent engine (withHeads e _) e' payload ref err st
        (em ++ [Event.unsafeUpdate ref]) _ h
  · rw [if_neg (show ¬ (between e st em).syncStatus = _ from hst)] at hpr
    cases hpr
    exact .inl ⟨hst,commitForkchoice_sent h⟩

/-- The end of the sync does no harm: the heads it sets before the engine has taken them are those
there were, or the engine takes them and the controller then reports them. -/
structure EndsWell (engine : ExecEngine) (e : EngineController) (payload : ExecutionPayload)
    (ref safeRef finalizedRef : L2BlockRef) : Prop where
  refused : Refuses engine e (forkchoiceOf payload safeRef finalizedRef) →
    headsOf e = syncedHeads ref safeRef finalizedRef
  taken : ¬ Refuses engine e (forkchoiceOf payload safeRef finalizedRef) →
    ∀ safe finalized,
      (withHeads e (syncedHeads ref safeRef finalizedRef)).safeL2Head engine = .ok safe →
      (withHeads e (syncedHeads ref safeRef finalizedRef)).finalizedHead engine = .ok finalized →
      safe.hash = safeRef.hash ∧ finalized.hash = finalizedRef.hash

def FinishesWell (engine : ExecEngine) (e : EngineController) (payload : ExecutionPayload)
    (ref : L2BlockRef) : Prop :=
  ∀ offsetRef safe finalized,Finishes engine e payload → e.offsetBlock engine ref = .ok offsetRef →
    e.safeL2Head engine = .ok safe → e.finalizedHead engine = .ok finalized →
    EndsWell engine e payload ref (EngineController.notBehind offsetRef safe)
      (EngineController.notBehind offsetRef finalized)

theorem EndsWell.of_local {safeRef finalizedRef : L2BlockRef} (hlocal : e.superAuthority = none)
    (hrefused : Refuses engine e (forkchoiceOf payload safeRef finalizedRef) →
      headsOf e = syncedHeads ref safeRef finalizedRef) :
    EndsWell engine e payload ref safeRef finalizedRef := by
  refine ⟨hrefused,?_⟩
  intro _ safe finalized hsf hfin
  simp only [safeL2Head,finalizedHead,withHeads,syncedHeads,
    hlocal,ite_self,Except.ok.injEq] at hsf hfin
  exact ⟨hsf ▸ rfl,hfin ▸ rfl⟩

/-- What is wanted of a call: an error leaves the heads alone, and without one the engine has the
heads of the controller. -/
structure Clean (engine : ExecEngine) (e e' : EngineController) (err : Option EngineError) :
    Prop where
  failed : err ≠ none → headsOf e' = headsOf e
  settled : err = none → ¬ Skipped engine e → Settled engine e'

/-- A forkchoice state that was taken leaves a settled controller exactly when it has the hashes
of the heads that are reported from then on. -/
theorem settled_iff {safe finalized : L2BlockRef}
    (hr : ¬ Refuses engine s fc) (hsafe : s.safeL2Head engine = .ok safe)
    (hfinalized : s.finalizedHead engine = .ok finalized) (hhead : fc.headBlockHash = ref.hash) :
    Settled engine (between { s with unsafeHead := ref, lastForkchoice := fc } st em) ↔
      fc.safeBlockHash = safe.hash ∧ fc.finalizedBlockHash = finalized.hash := by
  constructor
  · rintro ⟨-,safe',finalized',hsafe',hfinalized',hfc⟩
    cases hsafe.symm.trans hsafe'
    cases hfinalized.symm.trans hfinalized'
    exact ⟨congrArg ForkchoiceState.safeBlockHash hfc,
      congrArg ForkchoiceState.finalizedBlockHash hfc⟩
  · rintro ⟨h1,h2⟩
    refine ⟨fun hyes => hr ((refuses_congr (by rfl)).mp hyes),safe,finalized,hsafe,hfinalized,?_⟩
    change fc = ⟨ref.hash,safe.hash,finalized.hash⟩
    rw [← h1,← h2,← hhead]

theorem payloadToBlockRef_id {cfg : Config}
    {l1Info : UInt64 → Bytes → Option EngineController.L1BlockInfo}
    (h : payloadToBlockRef cfg l1Info payload = some ref) : ref.id = payload.id := by
  unfold payloadToBlockRef at h
  split at h
  · split at h
    · cases h
    · cases h
      rfl
  split at h
  · cases h
  split at h
  · cases h
  · cases h
    rfl

theorem Sent.clean {safe finalized : L2BlockRef} (hhead : payload.blockHash = ref.hash)
    (hsafe : e.safeL2Head engine = .ok safe) (hfinalized : e.finalizedHead engine = .ok finalized)
    (h : Sent engine e (forkchoiceOf payload safe finalized) ref e' err) :
    Clean engine e e' err := by
  cases h with
  | refused hr hh => exact ⟨fun _ => hh,by simp⟩
  | taken hr _ _ => exact ⟨by simp,fun _ _ => (settled_iff hr hsafe hfinalized hhead).mpr ⟨rfl,rfl⟩⟩

/-- At the end of the sync a call is clean exactly when that does no harm. -/
theorem Sent.clean_iff {safeRef finalizedRef : L2BlockRef} (hhead : payload.blockHash = ref.hash)
    (hskip : ¬ Skipped engine e)
    (h : Sent engine (withHeads e (syncedHeads ref safeRef finalizedRef))
      (forkchoiceOf payload safeRef finalizedRef) ref e' err) :
    Clean engine e e' err ↔ EndsWell engine e payload ref safeRef finalizedRef := by
  cases h with
  | refused hr hh =>
    have hr' : Refuses engine e _ := (refuses_congr (by rfl)).mp hr
    constructor
    · intro hcn
      exact ⟨fun _ => (hcn.failed (by simp)).symm.trans hh,fun hn => absurd hr' hn⟩
    · intro hw
      exact ⟨fun _ => hh.trans (hw.refused hr').symm,by simp⟩
  | taken hr hsf hfin =>
    have hr' : ¬ Refuses engine e _ := fun hyes => hr ((refuses_congr (by rfl)).mpr hyes)
    constructor
    · intro hcn
      refine ⟨fun hyes => absurd hyes hr',?_⟩
      intro _ safe finalized hsf' hfin'
      obtain ⟨h1,h2⟩ := (settled_iff hr hsf' hfin' hhead).mp (hcn.settled rfl hskip)
      exact ⟨h1.symm,h2.symm⟩
    · intro hw
      obtain ⟨h1,h2⟩ := hw.taken hr' _ _ hsf hfin
      exact ⟨by simp,fun _ _ => (settled_iff hr hsf hfin hhead).mpr ⟨h1.symm,h2.symm⟩⟩

/-- An insertion is clean exactly when the end of the sync, if the call reaches it, does no harm. -/
theorem insertUnsafePayload_clean_iff
    {l1Info : UInt64 → Bytes → Option EngineController.L1BlockInfo}
    (href : EngineController.payloadToBlockRef e.rollupCfg l1Info payload = some ref)
    (h : e.insertUnsafePayload engine payload ref = .ok (e',err)) :
    ((err ≠ none → headsOf e' = headsOf e) ∧
      (err = none → ¬ Skipped engine e → Settled engine e')) ↔
    FinishesWell engine e payload ref := by
  have hhd : payload.blockHash = ref.hash :=
    (congrArg BlockID.hash (payloadToBlockRef_id href)).symm
  refine Iff.trans ⟨fun h => Clean.mk h.1 h.2,fun h => ⟨h.failed,h.settled⟩⟩ ?_
  obtain ⟨hhds,hno,hsk⟩ | ⟨st,em,hupd,hsk,hfin⟩ := insertUnsafePayload_cases h
  · refine iff_of_true ⟨fun _ => hhds,fun hn hs => absurd (hsk hn) hs⟩ ?_
    intro offsetRef safe finalized hf
    exact absurd hf hno
  obtain ⟨safe,finalized,hsf,hfinalized,⟨hst,hsent⟩ | ⟨hst,⟨x,hoff⟩,herr,hhds⟩ |
    ⟨hst,offsetRef,hoff,hsent⟩⟩ := updateForkchoice_cases hupd
  · refine iff_of_true (hsent.clean hhd hsf hfinalized) ?_
    intro offsetRef safe finalized hf
    exact absurd (hfin.mpr hf) hst
  · refine iff_of_true ⟨fun _ => hhds,fun hn => absurd hn herr⟩ ?_
    intro offsetRef safe finalized _ hoff'
    simp [hoff] at hoff'
  -- The sync ends here: the heads were set before the forkchoice update.
  have hone : FinishesWell engine e payload ref ↔
      EndsWell engine e payload ref (notBehind offsetRef safe) (notBehind offsetRef finalized) := by
    refine ⟨fun hw => hw offsetRef safe finalized (hfin.mp hst) hoff hsf hfinalized,?_⟩
    intro hw offsetRef' safe' finalized' _ hoff' hsf' hfinalized'
    cases hoff.symm.trans hoff'
    cases hsf.symm.trans hsf'
    cases hfinalized.symm.trans hfinalized'
    exact hw
  rw [hone]
  exact hsent.clean_iff hhd hsk

def samplePayload : ExecutionPayload :=
  ⟨(blockAt 1 3).parentHash,3,(blockAt 1 3).time,(blockAt 1 3).hash,[[1]]⟩

def sampleL1Info (_ : UInt64) (_ : Bytes) : Option EngineController.L1BlockInfo :=
  some ⟨⟨hashOf 1,0⟩,3⟩

def sampleSyncing : EngineController :=
  { newEngineController sampleConfig ⟨.elSync,false,false,false,0⟩ false none with
    syncStatus := .startedEL
    unsafeHead := blockAt 1 0
    localSafeHead := blockAt 1 0
    deprecatedSafeHead := blockAt 1 0
    localFinalizedHead := blockAt 1 0
    deprecatedFinalizedHead := blockAt 1 0 }

theorem insertUnsafePayload_clean_synced : Finishes sampleEngine sampleSyncing samplePayload ∧
    ∃ e',sampleSyncing.insertUnsafePayload sampleEngine samplePayload (blockAt 1 3) =
        .ok (e',none) ∧ headsOf e' = syncedHeads (blockAt 1 3) (blockAt 1 3) (blockAt 1 3) ∧
      Settled sampleEngine e' := by
  have hsk : ¬ Skipped sampleEngine sampleSyncing := fun h => absurd h.1 (by decide)
  refine ⟨⟨.valid,rfl,rfl,.inr ⟨rfl,rfl,.inl rfl⟩⟩,_,rfl,rfl,?_⟩
  refine ((insertUnsafePayload_clean_iff (show payloadToBlockRef _ sampleL1Info _ =
    some (blockAt 1 3) from rfl) rfl).mpr ?_).2 rfl hsk
  intro offsetRef safe finalized _ _ _ _
  refine .of_local rfl ?_
  intro hr
  exact absurd (hr .valid rfl) (by decide)

/-- The forkchoice update fails after the end of the sync has set the heads. -/
theorem insertUnsafePayload_heads_set :
    EngineController.payloadToBlockRef sampleSyncing.rollupCfg sampleL1Info samplePayload =
      some (blockAt 1 3) ∧
    ∃ e',sampleSyncing.insertUnsafePayload
        { sampleEngine with forkchoiceUpdate := fun _ => .failed } samplePayload (blockAt 1 3) =
        .ok (e',some .forkchoiceFailed) ∧
      headsOf e' = syncedHeads (blockAt 1 3) (blockAt 1 3) (blockAt 1 3) ∧
      headsOf e' ≠ headsOf sampleSyncing := by
  refine ⟨rfl,_,rfl,rfl,?_⟩
  intro h
  exact absurd (congrArg (fun h : Heads => h.unsafeHead.number) h) (by decide)

end OpStack.Proofs.PayloadInsertion
