import OpStack.Finality.Finalizer
import OpStack.Proofs.Config

namespace OpStack.Proofs.Finalizer
open Lib Eth Rollup Finality Proofs.Config Finalizer List Except

structure Report where
  safe : L2BlockRef
  source : L1BlockRef

/-- The reports since the last reset, after an event. -/
def record (reports : List Report) : Event → List Report
  | .safeDerived safe source => reports ++ [⟨safe,source⟩]
  | .reset => []
  | _ => reports

structure Ordered (reports : List Report) : Prop where
  source : reports.Pairwise fun a b => a.source.number ≤ b.source.number
  safe : reports.Pairwise fun a b => a.safe.number ≤ b.safe.number
  chain : ∃ chain : UInt64 → L1BlockRef,∀ r ∈ reports,r.source = chain r.source.number

structure Trace where
  fi : Finalizer
  reports : List Report

inductive Step (t : Trace) : Trace → Prop where
  | event {ev : Event} {fi : Finalizer} {effects : List Effect} :
      t.fi.onEvent ev = .ok (fi,effects) → Ordered (record t.reports ev) →
      Step t ⟨fi,record t.reports ev⟩

def CanonicalIn (l1 : UInt64 → Fetched L1BlockRef) (b : L1BlockRef) : Prop :=
  ∃ ref,l1 b.number = .found ref ∧ ref.hash = b.hash

structure Buffered (lookback : Nat) (t : Trace) : Prop where
  positive : 1 ≤ lookback
  configured : t.fi.finalityLookback.toNat = lookback
  length : t.fi.finalityData.length ≤ lookback
  increasing : t.fi.finalityData.Pairwise fun a b => a.l1Block.number < b.l1Block.number
  reported : ∀ fd ∈ t.fi.finalityData,∃ r ∈ t.reports,fd = ⟨r.safe,r.source.id⟩

section buffer
variable {lookback : Nat} {t : Trace} {fi : Finalizer} {fd last : FinalityData}
  {data data' : List FinalityData}

theorem extend_ok {n : UInt64} (h : extend data n fd = .ok data') :
    ∃ kept,data' = kept ++ [fd] ∧ kept.Sublist data ∧
      (data.length ≤ n.toNat → data'.length ≤ n.toNat) := by
  unfold extend at h
  split at h
  · split at h
    · cases h
    rename_i hne
    cases h
    refine ⟨_,rfl,(drop_sublist 1 _).trans (take_sublist _ data),?_⟩
    have hpos : n.toNat ≠ 0 := fun h0 => hne (UInt64.toNat_inj.mp h0)
    simp only [length_append,length_drop,length_take,length_singleton]
    omega
  · cases h
    refine ⟨data,rfl,List.Sublist.refl data,?_⟩
    simp only [length_append,length_singleton]
    omega

variable {safe : L2BlockRef} {source : L1BlockRef}

variable (h : Buffered lookback t)
include h

theorem Buffered.extend (hnew : ∀ fd ∈ t.fi.finalityData,fd.l1Block.number < source.number)
    (hdata : extend t.fi.finalityData t.fi.finalityLookback ⟨safe,source.id⟩ = .ok data) :
    Buffered lookback ⟨{ t.fi with finalityData := data },t.reports ++ [⟨safe,source⟩]⟩ := by
  obtain ⟨kept,rfl,hsub,hlen⟩ := extend_ok hdata
  rw [h.configured] at hlen
  refine ⟨h.positive,h.configured,hlen h.length,?_,?_⟩
  · refine pairwise_append.mpr ⟨h.increasing.sublist hsub,pairwise_singleton _ _,?_⟩
    intro a ha b hb
    rw [mem_singleton.mp hb]
    exact hnew a (hsub.subset ha)
  intro fd hfd
  rcases mem_append.mp hfd with hmem | hmem
  · obtain ⟨r,hr,heq⟩ := h.reported fd (hsub.subset hmem)
    exact ⟨r,mem_append_left _ hr,heq⟩
  · exact ⟨⟨safe,source⟩,mem_append_right _ (mem_singleton.mpr rfl),mem_singleton.mp hmem⟩

theorem Buffered.update (hlast : t.fi.finalityData = data ++ [last])
    (hsource : last.l1Block = source.id) :
    Buffered lookback ⟨{ t.fi with finalityData := data ++ [{ last with l2Block := safe }] },
      t.reports ++ [⟨safe,source⟩]⟩ := by
  have hlen := h.length
  have hinc := h.increasing
  rw [hlast] at hlen hinc
  obtain ⟨hda,-,hbef⟩ := pairwise_append.mp hinc
  refine ⟨h.positive,h.configured,by simpa using hlen,?_,?_⟩
  · refine pairwise_append.mpr ⟨hda,pairwise_singleton _ _,?_⟩
    intro a ha b hb
    rw [mem_singleton.mp hb]
    exact hbef a ha last (mem_singleton.mpr rfl)
  intro fd hfd
  rcases mem_append.mp hfd with hmem | hmem
  · obtain ⟨r,hr,heq⟩ := h.reported fd (hlast ▸ mem_append_left _ hmem)
    exact ⟨r,mem_append_left _ hr,heq⟩
  · refine ⟨⟨safe,source⟩,mem_append_right _ (mem_singleton.mpr rfl),?_⟩
    rw [mem_singleton.mp hmem,hsource]

theorem Buffered.later {reports : List Report}
    (hsub : ∀ r ∈ t.reports,r ∈ reports) : Buffered lookback ⟨t.fi,reports⟩ := by
  refine ⟨h.positive,h.configured,h.length,h.increasing,?_⟩
  intro fd hfd
  obtain ⟨r,hr,heq⟩ := h.reported fd hfd
  exact ⟨r,hsub r hr,heq⟩

theorem last_source (hord : Ordered (t.reports ++ [⟨safe,source⟩]))
    (hmem : last ∈ t.fi.finalityData) (hle : ¬ last.l1Block.number < source.number) :
    last.l1Block = source.id := by
  obtain ⟨r,hr,rfl⟩ := h.reported last hmem
  obtain ⟨-,-,hbef⟩ := pairwise_append.mp hord.source
  have hrs := hbef r hr _ (mem_singleton.mpr rfl)
  have heq := UInt64.le_antisymm hrs (UInt64.not_lt.mp hle)
  obtain ⟨chain,hch⟩ := hord.chain
  have hr' := hch r (mem_append_left _ hr)
  have hs' := hch ⟨safe,source⟩ (mem_append_right _ (mem_singleton.mpr rfl))
  change source = chain source.number at hs'
  rw [hr',hs',heq]

theorem onDerivedSafeBlock_buffered (hord : Ordered (t.reports ++ [⟨safe,source⟩]))
    (hfi : t.fi.onDerivedSafeBlock safe source = .ok fi) :
    Buffered lookback ⟨fi,t.reports ++ [⟨safe,source⟩]⟩ := by
  unfold onDerivedSafeBlock at hfi
  split at hfi
  · cases hfi
    exact h.later fun r hr => mem_append_left _ hr
  split at hfi
  · rename_i hno
    obtain ⟨data,hda,hfi⟩ := of_bind_ok hfi
    cases hfi
    have hnil := getLast?_eq_none_iff.mp hno
    exact h.extend (by simp [hnil]) hda
  rename_i last hso
  obtain ⟨init,hls⟩ := getLast?_eq_some_iff.mp hso
  have hmem := mem_of_getLast? hso
  split at hfi
  · rename_i hlt
    obtain ⟨data,hda,hfi⟩ := of_bind_ok hfi
    cases hfi
    refine h.extend ?_ hda
    -- the entries are in order, so all are at or below the last one
    intro fd hfd
    have hinc := h.increasing
    rw [hls] at hinc hfd
    obtain ⟨-,-,hbef⟩ := pairwise_append.mp hinc
    rcases mem_append.mp hfd with hin | hin
    · exact UInt64.lt_trans (hbef fd hin last (mem_singleton.mpr rfl)) hlt
    · rwa [mem_singleton.mp hin]
  · rename_i hle
    cases hfi
    have hdr : t.fi.finalityData.dropLast = init := by simp [hls]
    rw [hdr]
    exact h.update hls (last_source h hord hmem hle)

theorem step_buffered {t' : Trace} (hstep : Step t t') : Buffered lookback t' := by
  cases hstep with
  | @event ev fi effects hev hord =>
    cases ev with
    | safeDerived safe source =>
      obtain ⟨fi',hfi,heq⟩ := of_bind_ok hev
      cases heq
      exact onDerivedSafeBlock_buffered h hord hfi
    | l1Finalized l1Origin =>
      have hfi : fi = (t.fi.onL1Finalized l1Origin).1 := congrArg Prod.fst (ok.inj hev).symm
      unfold onL1Finalized at hfi
      split at hfi
      · exact hfi ▸ h
      split at hfi
      · subst hfi
        exact ⟨h.positive,h.configured,h.length,h.increasing,h.reported⟩
      · exact hfi ▸ h
    | deriverIdle origin =>
      have hfi : fi = (t.fi.onDerivationIdle origin).1 := congrArg Prod.fst (ok.inj hev).symm
      unfold onDerivationIdle at hfi
      split at hfi
      · exact hfi ▸ h
      split at hfi
      · exact hfi ▸ h
      · subst hfi
        exact ⟨h.positive,h.configured,h.length,h.increasing,h.reported⟩
    | tryFinalize signal derived =>
      cases hev
      exact h
    | forkchoiceUpdate head =>
      cases hev
      exact ⟨h.positive,h.configured,h.length,h.increasing,h.reported⟩
    | reset =>
      cases hev
      exact ⟨h.positive,h.configured,Nat.zero_le _,.nil,by simp [onReset]⟩

end buffer

/-- The search ends at a highest L2 block with a finalized source, if one is above where it
started. -/
theorem foldl_candidate (finalizedL1 : L1BlockRef) (data : List FinalityData)
    (best : L2BlockRef × BlockID) : let r := data.foldl (candidate finalizedL1) best
    (r = best ∨ ∃ fd ∈ data,r = (fd.l2Block,fd.l1Block) ∧
      fd.l1Block.number ≤ finalizedL1.number ∧ best.1.number < fd.l2Block.number) ∧
    best.1.number ≤ r.1.number ∧
    ∀ fd ∈ data,fd.l1Block.number ≤ finalizedL1.number → fd.l2Block.number ≤ r.1.number := by
  induction data generalizing best with
  | nil => exact ⟨.inl rfl,UInt64.le_refl _,by simp⟩
  | cons fd data ih =>
    obtain ⟨hfm,hle,hall⟩ := ih (candidate finalizedL1 best fd)
    have hcand : (candidate finalizedL1 best fd = best ∨
        (candidate finalizedL1 best fd = (fd.l2Block,fd.l1Block) ∧
          fd.l1Block.number ≤ finalizedL1.number ∧ best.1.number < fd.l2Block.number)) ∧
        best.1.number ≤ (candidate finalizedL1 best fd).1.number ∧
        (fd.l1Block.number ≤ finalizedL1.number →
          fd.l2Block.number ≤ (candidate finalizedL1 best fd).1.number) := by
      unfold candidate
      split
      · rename_i h
        exact ⟨.inr ⟨rfl,h.2,h.1⟩,UInt64.le_of_lt h.1,fun _ => UInt64.le_refl _⟩
      rename_i h
      refine ⟨.inl rfl,UInt64.le_refl _,fun hfin => ?_⟩
      exact UInt64.not_lt.mp fun hlt => h ⟨hlt,hfin⟩
    obtain ⟨hcs,hbest,hfd⟩ := hcand
    refine ⟨?_,UInt64.le_trans hbest hle,?_⟩
    · rcases hfm with heq | ⟨fd',hmem,heq,hfin,hlt⟩
      · rcases hcs with hsm | ⟨hnew,hfin,hlt⟩
        · exact .inl (heq.trans hsm)
        · exact .inr ⟨fd,mem_cons_self,heq.trans hnew,hfin,hlt⟩
      · exact .inr ⟨fd',mem_cons_of_mem _ hmem,heq,hfin,UInt64.lt_of_le_of_lt hbest hlt⟩
    · intro fd' hmem hfin
      rcases mem_cons.mp hmem with rfl | hmem
      · exact UInt64.le_trans (hfd hfin) hle
      · exact hall fd' hmem hfin

theorem tryFinalize_promotes {fi : Finalizer} {signal derived : UInt64 → Fetched L1BlockRef}
    {ref : L2BlockRef} (h : .promoteFinalized ref ∈ fi.tryFinalize signal derived) :
    ∃ fd ∈ fi.finalityData,fd.l2Block = ref ∧ fd.l1Block.number ≤ fi.finalizedL1.number ∧
      CanonicalIn signal fi.finalizedL1 ∧
      (∃ r,derived fd.l1Block.number = .found r ∧ r.hash = fd.l1Block.hash) ∧
      fi.lastFinalizedL2.number < ref.number ∧
      ∀ fd' ∈ fi.finalityData,fd'.l1Block.number ≤ fi.finalizedL1.number →
        fd'.l2Block.number ≤ ref.number := by
  obtain ⟨hfm,-,hall⟩ := foldl_candidate fi.finalizedL1 fi.finalityData (fi.lastFinalizedL2,.zero)
  unfold tryFinalize at h
  dsimp only at h
  split at h
  · cases h
  rename_i hne
  split at h
  · rename_i signalRef hsignal
    split at h
    · simp at h
    rename_i hhs
    split at h
    · rename_i derivedRef hder
      split at h
      · simp at h
      rename_i hhs'
      have href := mem_singleton.mp h
      rcases hfm with heq | ⟨fd,hmem,heq,hfin,hlt⟩
      · exact absurd (congrArg Prod.snd heq) hne
      rw [heq] at href hder hhs' hall
      cases href
      exact ⟨fd,hmem,rfl,hfin,⟨signalRef,hsignal,not_not.mp hhs⟩,
        ⟨derivedRef,hder,not_not.mp hhs'⟩,hlt,hall⟩
    · simp at h
  · simp at h

theorem onEvent_promotes {fi fi' : Finalizer} {ev : Event} {effects : List Effect}
    {ref : L2BlockRef} (h : fi.onEvent ev = .ok (fi',effects))
    (href : .promoteFinalized ref ∈ effects) :
    ∃ signal derived,ev = .tryFinalize signal derived ∧ effects = fi.tryFinalize signal derived := by
  cases ev with
  | safeDerived safe source =>
    obtain ⟨_,-,heq⟩ := of_bind_ok h
    cases heq
    cases href
  | l1Finalized l1Origin =>
    have heff : effects = (fi.onL1Finalized l1Origin).2 := congrArg Prod.snd (ok.inj h).symm
    unfold onL1Finalized at heff
    split at heff
    · simp [heff] at href
    · split at heff <;> simp [heff] at href
  | deriverIdle origin =>
    have heff : effects = (fi.onDerivationIdle origin).2 := congrArg Prod.snd (ok.inj h).symm
    unfold onDerivationIdle at heff
    split at heff
    · simp [heff] at href
    · split at heff <;> simp [heff] at href
  | tryFinalize signal derived => exact ⟨signal,derived,rfl,(congrArg Prod.snd (ok.inj h)).symm⟩
  | forkchoiceUpdate head =>
    cases h
    cases href
  | reset =>
    cases h
    cases href

theorem reaches_buffered {cfg : Config} {finalizerCfg : Option FinalizerConfig}
    {supervisorEnabled : Bool} (hlookback : 1 ≤ (calcFinalityLookback cfg finalizerCfg).toNat)
    {t : Trace} (h : Reaches Step ⟨newFinalizer cfg finalizerCfg supervisorEnabled,[]⟩ t) :
    Buffered (calcFinalityLookback cfg finalizerCfg).toNat t := by
  refine h.invariant ?_ fun x y hx hst => step_buffered hx hst
  exact ⟨hlookback,rfl,Nat.zero_le _,.nil,by simp [newFinalizer]⟩

/-- In every run with reports in order the buffer stays bounded and in order, and a block that is
finalized was derived from finalized L1 data. -/
theorem finalizer_promotes {cfg : Config} {finalizerCfg : Option FinalizerConfig}
    {supervisorEnabled : Bool} (hlookback : 1 ≤ (calcFinalityLookback cfg finalizerCfg).toNat)
    {t : Trace} (h : Reaches Step ⟨newFinalizer cfg finalizerCfg supervisorEnabled,[]⟩ t) :
    t.fi.finalityData.length ≤ (calcFinalityLookback cfg finalizerCfg).toNat ∧
    t.fi.finalityData.Pairwise (fun a b => a.l1Block.number < b.l1Block.number) ∧
    ∀ ev fi effects ref,t.fi.onEvent ev = .ok (fi,effects) → .promoteFinalized ref ∈ effects →
      ∃ signal derived,ev = .tryFinalize signal derived ∧
        ∃ r ∈ t.reports,r.safe = ref ∧ r.source.number ≤ t.fi.finalizedL1.number ∧
          CanonicalIn signal t.fi.finalizedL1 ∧ CanonicalIn derived r.source ∧
          t.fi.lastFinalizedL2.number < ref.number ∧
          ∀ fd ∈ t.fi.finalityData,fd.l1Block.number ≤ t.fi.finalizedL1.number →
            fd.l2Block.number ≤ ref.number := by
  have hbuf := reaches_buffered hlookback h
  refine ⟨hbuf.length,hbuf.increasing,?_⟩
  intro ev fi effects ref hev href
  obtain ⟨signal,derived,rfl,rfl⟩ := onEvent_promotes hev href
  obtain ⟨fd,hmem,rfl,hfin,hsignal,hder,hlt,hall⟩ := tryFinalize_promotes href
  obtain ⟨r,hr,rfl⟩ := hbuf.reported fd hmem
  exact ⟨signal,derived,rfl,r,hr,rfl,hfin,hsignal,hder,hlt,hall⟩

def sampleSource (k : Nat) : L1BlockRef :=
  ⟨hashOf (4 * k + 1),.ofNat k,hashOf (4 * k - 3),.ofNat k⟩

def sampleSafe (k : Nat) : L2BlockRef :=
  ⟨hashOf (4 * k + 2),.ofNat k,hashOf (4 * k - 2),.ofNat k,(sampleSource 0).id,.ofNat k⟩

def ordered (reports : List Report) : Bool :=
  reports.Pairwise (fun a b => a.source.number ≤ b.source.number) ∧
    reports.Pairwise (fun a b => a.safe.number ≤ b.safe.number) ∧
    ∀ r ∈ reports,r.source = sampleSource r.source.number.toNat

theorem ordered_of {reports : List Report} (h : ordered reports = true) : Ordered reports := by
  obtain ⟨hsource,hsafe,hchain⟩ := of_decide_eq_true h
  exact ⟨hsource,hsafe,fun n => sampleSource n.toNat,hchain⟩

def take (t : Trace) (ev : Event) : Except Panic Trace := do
  let (fi,_) ← t.fi.onEvent ev
  if ordered (record t.reports ev) then return ⟨fi,record t.reports ev⟩ else .error .sliceBounds

theorem take_step {t t' : Trace} {ev : Event} (h : take t ev = .ok t') : Step t t' := by
  obtain ⟨⟨fi,effects⟩,hev,h⟩ := of_bind_ok h
  dsimp only at h
  split at h
  · rename_i hord
    cases h
    exact .event hev (ordered_of hord)
  · cases h

/-- Two blocks from L1 block 1, one of them finalized before, and one from L1 block 2. -/
def sampleEvents : List Event :=
  [.safeDerived (sampleSafe 1) (sampleSource 1),.l1Finalized (sampleSource 0),
    .safeDerived (sampleSafe 2) (sampleSource 1),.safeDerived (sampleSafe 3) (sampleSource 2),
    .forkchoiceUpdate (sampleSafe 1),.l1Finalized (sampleSource 1)]

def served (n : UInt64) : Fetched L1BlockRef := .found (sampleSource n.toNat)

/-- With L1 block 1 finalized, the last block from it is. -/
theorem finalizer_promotes_sample :
    ∃ t,Reaches Step ⟨newFinalizer sampleConfig none false,[]⟩ t ∧
      t.fi.tryFinalize served served = [.promoteFinalized (sampleSafe 2)] ∧
      (∃ r ∈ t.reports,r.safe = sampleSafe 2 ∧ r.source.number ≤ t.fi.finalizedL1.number) ∧
      ∀ fd ∈ t.fi.finalityData,fd.l1Block.number ≤ t.fi.finalizedL1.number →
        fd.l2Block.number ≤ (sampleSafe 2).number := by
  have hrun : (runOps take ⟨newFinalizer sampleConfig none false,[]⟩ sampleEvents).toOption.map
      (fun t => t.fi.tryFinalize served served) = some [.promoteFinalized (sampleSafe 2)] := by
    decide +kernel
  have hstep : ∀ x y,∀ ev ∈ sampleEvents,take x ev = .ok y → Step x y :=
    fun _ _ _ _ => take_step
  obtain ⟨t,ht,hobs⟩ := runOps_observe hstep hrun
  obtain ⟨-,-,hpromotes⟩ := finalizer_promotes (by decide +kernel) ht
  obtain ⟨_,_,-,r,hr,hsafe,hsource,-,-,-,hall⟩ := hpromotes (.tryFinalize served served) _ _
    (sampleSafe 2) rfl (hobs ▸ mem_singleton.mpr rfl)
  exact ⟨t,ht,hobs,⟨r,hr,hsafe,hsource⟩,hall⟩

end OpStack.Proofs.Finalizer
