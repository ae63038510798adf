import OpStack.Proofs.SuperNodeTrace

namespace OpStack.Fault
open Lib Eth Interop World SupervisorSuperTraceProvider List UInt64

structure RootReports (w : World) (keccak256 : Bytes → Hash) (t : UInt64) (r : SuperRootResponse) :
    Prop where
  version : r.version = superRootVersionV1
  timestamp : r.timestamp = t
  derivedFrom : r.crossSafeDerivedFrom.number.toNat = w.requiredAt t.toNat
  chains : r.chains.map (fun c => ⟨c.chainID,c.canonical⟩) = (w.superAt t.toNat).chains
  pending : ∀ c ∈ r.chains,∃ o : OutputV0,c.pending = o.marshal ∧
    ⟨o.blockHash,o.root keccak256⟩ = w.optimistic c.chainID t.toNat

namespace SupervisorSuperTraceProvider
variable {s : SupervisorSuperTraceProvider} {w : World} {keccak256 : Bytes → Hash}
  {processed : UInt64}

def Visits (s : SupervisorSuperTraceProvider) (t : UInt64) : Prop :=
  t ≠ s.poststateTimestamp ∧ ∃ p n,s.computeStep p = .ok (t,n)

/-- A supervisor that has processed L1 up to `processed` answers from the world: it finds the
timestamps that are cross safe by then, and the safe heads at the L1 head. -/
structure AnswersFrom (s : SupervisorSuperTraceProvider) (w : World) (keccak256 : Bytes → Hash)
    (processed : UInt64) : Prop where
  synced : s.l1Head.number ≤ processed
  notFound : ∀ t : UInt64,processed.toNat < w.requiredAt t.toNat →
    s.superRootAtTimestamp t = .notFound
  found : ∀ t : UInt64,w.requiredAt t.toNat ≤ processed.toNat →
    ∃ r,s.superRootAtTimestamp t = .found r ∧ RootReports w keccak256 t r
  heads : ∃ heads,s.allSafeDerivedAt s.l1Head = some heads ∧
    ∀ t,s.Visits t → ∀ c ∈ w.chains,∃ cfg num b,s.rollupCfgs c = some cfg ∧
      cfg.targetBlockNumber (t + 1) = .ok num ∧ heads.lookup c = some b ∧
      (num ≤ b.number ↔ w.requiredL1 c (t.toNat + 1) ≤ s.l1Head.number.toNat)

def nextStep (last : UInt64) (at_ : UInt64 × UInt64) : UInt64 × UInt64 :=
  if at_.1 = last then at_ else if at_.2 = 127 then (at_.1 + 1,0) else (at_.1,at_.2 + 1)

variable {last t' n' : UInt64} {r : SuperRootResponse} {p : Position} {i : Nat}
  {t n first k : UInt64} {heads : List (ChainID × BlockID)} {q : Position}

theorem toNat_succ_lt (h : t < last) : (t + 1).toNat = t.toNat + 1 := by
  have hlt := lt_iff_toNat_lt.mp h
  have hmax := last.toNat_lt
  exact Nat.mod_eq_of_lt (by change t.toNat + 1 < 2 ^ 64; omega)

theorem safe_at_head (h : RootReports w keccak256 t r) :
    r.crossSafeDerivedFrom.number ≤ s.l1Head.number ↔
      w.requiredAt t.toNat ≤ s.l1Head.number.toNat := by
  rw [← h.derivedFrom,le_iff_toNat_le]
  exact WithTop.coe_le_coe.symm

section
variable (h : s.AnswersFrom w keccak256 processed)
include h

theorem rootAt_none (ht : processed.toNat < w.requiredAt t.toNat) : s.rootAt t = .ok none := by
  simp [rootAt,h.notFound t ht]

theorem rootAt_some (ht : w.requiredAt t.toNat ≤ processed.toNat) :
    ∃ r,s.rootAt t = .ok (some r) ∧ RootReports w keccak256 t r := by
  obtain ⟨r,hr,hrep⟩ := h.found t ht
  exact ⟨r,by simp only [rootAt,hr],hrep⟩

theorem safeRootAt_eq (t : UInt64) : if w.requiredAt t.toNat ≤ s.l1Head.number.toNat
    then ∃ r,s.safeRootAt t = .ok (some r) ∧ RootReports w keccak256 t r
    else s.safeRootAt t = .ok none := by
  have hsynced := WithTop.coe_le_coe.mpr (le_iff_toNat_le.mp h.synced)
  unfold safeRootAt
  by_cases hproc : w.requiredAt t.toNat ≤ processed.toNat
  · obtain ⟨r,hr,hrep⟩ := rootAt_some h hproc
    have hiff := safe_at_head (s := s) hrep
    rw [hr]
    split
    · rename_i hle
      refine ⟨r,?_,hrep⟩
      simp [hiff.mpr hle]
    rename_i hle
    have hlt := UInt64.not_le.mp fun hc => hle (hiff.mp hc)
    simp [hlt]
  · rw [rootAt_none h (not_le.mp hproc),if_neg fun hle => hproc (hle.trans hsynced)]
    rfl

end

theorem marshalSuper_eq (h : RootReports w keccak256 t r) :
    marshalSuper t r = .ok (w.superAt t.toNat).marshal := by
  have hsorted : ((w.superAt t.toNat).chains.mergeSort fun a b =>
      a.chainID.toNat ≤ b.chainID.toNat) = (w.superAt t.toNat).chains := by
    apply mergeSort_of_pairwise
    refine pairwise_map.mpr (w.sorted.imp ?_)
    intro a b hab
    exact decide_eq_true hab.le
  unfold marshalSuper SuperRootResponse.toSuper
  rw [if_neg (by simp [h.version]),newSuperV1,h.chains,hsorted,h.timestamp]
  simp [Except.mapError,Except.map,superAt]

theorem optimisticBlocks_eq {n : Nat}
    {infos : List ChainRootInfo} (hpending : ∀ c ∈ infos,∃ o : OutputV0,c.pending = o.marshal ∧
      ⟨o.blockHash,o.root keccak256⟩ = w.optimistic c.chainID n)
    (hheads : ∀ c ∈ infos,(if heads.isEmpty then pure true else s.headReached heads t c.chainID)
      = .ok (decide (w.requiredL1 c.chainID n ≤ s.l1Head.number.toNat))) :
    s.optimisticBlocks keccak256 heads t infos
      = .ok (if ∀ c ∈ infos,w.requiredL1 c.chainID n ≤ s.l1Head.number.toNat
          then some (infos.map fun c => w.optimistic c.chainID n) else none) := by
  induction infos with
  | nil => simp [optimisticBlocks]
  | cons info infos ih =>
    have hrs := ih (fun c hc => hpending c (mem_cons_of_mem info hc))
      (fun c hc => hheads c (mem_cons_of_mem info hc))
    obtain ⟨o,ho,hbk⟩ := hpending info mem_cons_self
    unfold optimisticBlocks
    simp only [forall_mem_cons]
    rw [hheads info mem_cons_self]
    change (if decide _ = true then _ else _) = _
    by_cases hle : w.requiredL1 info.chainID n ≤ s.l1Head.number.toNat
    · rw [if_pos (decide_eq_true hle),ho,o.unmarshal_marshal,hrs]
      by_cases hall : ∀ c ∈ infos,w.requiredL1 c.chainID n ≤ s.l1Head.number.toNat
      · rw [if_pos hall,if_pos ⟨hle,hall⟩,map_cons,← hbk]
        rfl
      · rw [if_neg hall,if_neg fun h => hall h.2]
        rfl
    · rw [if_neg (by simp [hle]),if_neg fun h => hle h.1]
      rfl

theorem lookup_ne_nil {c : ChainID} {b : BlockID}
    (h : heads.lookup c = some b) : heads.isEmpty = false := by
  cases heads with
  | nil => cases h
  | cons _ _ => rfl

theorem safeHeads_eq (h : s.AnswersFrom w keccak256 processed) (ht : s.Visits t)
    (hnext : (t + 1).toNat = t.toNat + 1) (hr : RootReports w keccak256 (t + 1) r) :
    ∃ heads,s.safeHeads r = .ok heads ∧ ∀ c ∈ w.chains,
      (if heads.isEmpty then pure true else s.headReached heads (t + 1) c)
        = .ok (decide (w.requiredL1 c (t.toNat + 1) ≤ s.l1Head.number.toNat)) := by
  have hiff := safe_at_head (s := s) hr
  unfold safeHeads
  by_cases hlt : s.l1Head.number < r.crossSafeDerivedFrom.number
  · obtain ⟨heads,hhds,hcover⟩ := h.heads
    rw [if_pos hlt,hhds]
    refine ⟨heads,rfl,?_⟩
    intro c hc
    obtain ⟨cfg,num,b,hcfg,hnum,hb,hsf⟩ := hcover t ht c hc
    rw [lookup_ne_nil hb]
    simp [headReached,hcfg,hnum,Except.mapError,hb,← hsf]
  · rw [if_neg hlt]
    refine ⟨[],rfl,?_⟩
    intro c hc
    have hle := requiredAt_le.mp (hiff.mp (UInt64.not_lt.mp hlt)) c hc
    rw [hnext] at hle
    simp [hle]

theorem report_ids (h : RootReports w keccak256 t r) : r.chains.map (·.chainID) = w.chains := by
  have hids := congrArg (map ChainIDAndOutput.chainID) h.chains
  rw [w.superAt_ids,map_map] at hids
  exact hids

theorem pending_eq (h : s.AnswersFrom w keccak256 processed) (ht : s.Visits t)
    (hnext : (t + 1).toNat = t.toNat + 1) (hr : RootReports w keccak256 (t + 1) r) (k : Nat) :
    ∃ heads,s.safeHeads r = .ok heads ∧ s.optimisticBlocks keccak256 heads (t + 1) (r.chains.take k)
        = .ok (if ∀ c ∈ w.chains.take k,w.requiredL1 c (t.toNat + 1) ≤ s.l1Head.number.toNat
            then some (w.pendingAt t.toNat k) else none) := by
  obtain ⟨heads,hhds,hrch⟩ := safeHeads_eq h ht hnext hr
  have hids : w.chains.take k = (r.chains.take k).map (·.chainID) := by rw [map_take,report_ids hr]
  have hpen : ∀ c ∈ r.chains.take k,∃ o : OutputV0,c.pending = o.marshal ∧
      ⟨o.blockHash,o.root keccak256⟩ = w.optimistic c.chainID (t.toNat + 1) := by
    intro c hc
    rw [← hnext]
    exact hr.pending c (mem_of_mem_take hc)
  have hsf : ∀ c ∈ r.chains.take k,
      (if heads.isEmpty then pure true else s.headReached heads (t + 1) c.chainID)
        = .ok (decide (w.requiredL1 c.chainID (t.toNat + 1) ≤ s.l1Head.number.toNat)) := by
    intro c hc
    apply hrch
    rw [← report_ids hr]
    exact mem_map_of_mem (mem_of_mem_take hc)
  refine ⟨heads,hhds,?_⟩
  rw [optimisticBlocks_eq hpen hsf,pendingAt,hids]
  simp only [forall_mem_map,map_map,Function.comp_def]

structure Within (s : SupervisorSuperTraceProvider) (t n : UInt64) : Prop where
  le : t ≤ s.poststateTimestamp
  zero : t = s.poststateTimestamp → n = 0
  step : n.toNat ≤ 127

theorem mod_steps_le (k : UInt64) : (k % stepsPerTimestamp).toNat ≤ 127 := by
  change k.toNat % 128 ≤ 127
  omega

theorem computeStep_ok (h : s.computeStep p = .ok (t,n)) :
    ∃ i,p.traceIndex s.gameDepth = .ok i ∧ i < 2 ^ 64 ∧
      stepAt s.prestateTimestamp s.poststateTimestamp (ofNat i + 1) = (t,n) := by
  obtain ⟨i,hi,h⟩ := of_bind_ok h
  split at h
  · cases h
  rename_i hsmall
  exact ⟨i,of_mapError_ok hi,not_le.mp hsmall,Except.ok.inj h⟩

theorem computeStep_of (hp : p.traceIndex s.gameDepth = .ok i) (hi : i < 2 ^ 64) : s.computeStep p
    = .ok (stepAt s.prestateTimestamp s.poststateTimestamp (ofNat i + 1)) := by
  simp only [computeStep,hp,Except.mapError,ok_bind,if_neg (not_le.mpr hi),pure_eq_ok]

theorem computeStep_within (h : s.computeStep p = .ok (t,n)) : s.Within t n := by
  obtain ⟨i,-,-,hst⟩ := computeStep_ok h
  unfold stepAt at hst
  simp only at hst
  split at hst
  · cases hst
    exact ⟨UInt64.le_refl _,fun _ => rfl,by decide⟩
  rename_i hlt
  cases hst
  have hlt := UInt64.not_le.mp hlt
  exact ⟨UInt64.le_of_lt hlt,fun he => absurd he (UInt64.ne_of_lt hlt),mod_steps_le _⟩

abbrev view (s : SupervisorSuperTraceProvider) (w : World) (processed t n : UInt64) : Stage :=
  w.seen s.l1Head.number.toNat processed.toNat t.toNat n.toNat

/-- The preimage at a position is that of the stage a supervisor sees. -/
theorem getPreimageBytes_eq (h : s.AnswersFrom w keccak256 processed)
    (hp : s.computeStep p = .ok (t,n)) :
    s.getPreimageBytes keccak256 p = .ok (w.preimage (s.view w processed t n)) := by
  have hwi := computeStep_within hp
  have hsf := safeRootAt_eq h t
  simp only [getPreimageBytes,hp,ok_bind]
  by_cases hle : w.requiredAt t.toNat ≤ s.l1Head.number.toNat
  · rw [if_pos hle] at hsf
    obtain ⟨prev,hpv,hrep⟩ := hsf
    simp only [hpv,ok_bind]
    by_cases hn : n = 0
    · subst hn
      have hsn : s.view w processed t 0 = .reached t.toNat 0 := by
        change w.seen _ _ _ 0 = _
        rw [seen,if_neg (by simp),stage,if_pos (safe_zero.mpr hle)]
      rw [marshalSuper_eq hrep,hsn]
      rfl
    -- part way to the next timestamp, of which the supervisor has to know the super root
    have hvisits : s.Visits t := ⟨fun he => hn (hwi.zero he),p,n,hp⟩
    have hlt := UInt64.lt_of_le_of_ne hwi.le hvisits.1
    have hnx := toNat_succ_lt hlt
    have hn0 : n.toNat ≠ 0 := fun he => hn (UInt64.toNat_inj.mp he)
    rw [if_neg hn]
    by_cases hproc : w.requiredAt (t + 1).toNat ≤ processed.toNat
    · obtain ⟨next,hrt,hnreports⟩ := rootAt_some h hproc
      obtain ⟨heads,hhds,hbs⟩ := pending_eq h hvisits hnx hnreports n.toNat
      rw [hnx] at hproc
      have hsn : s.view w processed t n
          = w.stage s.l1Head.number.toNat t.toNat n.toNat := if_neg fun hc => not_le.mpr hc.2 hproc
      simp only [hrt,hhds,marshalSuper_eq hrep,hbs,hsn,ok_bind]
      by_cases hall : ∀ c ∈ w.chains.take n.toNat,
          w.requiredL1 c (t.toNat + 1) ≤ s.l1Head.number.toNat
      · rw [if_pos hall,stage,if_pos ⟨hle,hall⟩,preimage_reached hn0,stateAt,UInt64.ofNat_toNat]
        rfl
      · rw [if_neg hall,stage,if_neg fun hc => hall hc.2]
        rfl
    · have hinv : s.view w processed t n = .invalid := by
        rw [hnx] at hproc
        exact seen_invalid.mpr (.inl ⟨hn0,not_le.mp hproc⟩)
      rw [rootAt_none h (not_le.mp hproc),hinv]
      rfl
  · rw [if_neg hle] at hsf
    have hinv : s.view w processed t n = .invalid := seen_invalid.mpr (.inr fun hc => hle hc.1)
    rw [hsf,hinv]
    rfl

theorem getPreimageBytes_ok {a : Bytes} (h : s.getPreimageBytes keccak256 p = .ok a) :
    ∃ t n,s.computeStep p = .ok (t,n) := by
  obtain ⟨⟨t,n⟩,hst,-⟩ := of_bind_ok h
  exact ⟨t,n,hst⟩

theorem stepAt_succ (h : stepAt first last k = (t,n)) (ht : t ≠ last)
    (hn : n ≠ 127) : stepAt first last (k + 1) = (t,n + 1) := by
  unfold stepAt at h ⊢
  simp only at h ⊢
  split at h
  · cases h
    exact absurd rfl ht
  rename_i hlt
  cases h
  have hmod : k.toNat % 128 ≠ 127 := by
    intro he
    apply hn
    apply UInt64.toNat_inj.mp
    exact he
  have hk := k.toNat_lt
  have hsu : (k + 1).toNat = k.toNat + 1 := Nat.mod_eq_of_lt (by change k.toNat + 1 < 2 ^ 64; omega)
  have hdiv : (k + 1) / stepsPerTimestamp = k / stepsPerTimestamp := by
    apply UInt64.toNat_inj.mp
    rw [UInt64.toNat_div,hsu]
    change (k.toNat + 1) / 128 = k.toNat / 128
    omega
  have hst : (k + 1) % stepsPerTimestamp = k % stepsPerTimestamp + 1 := by
    apply UInt64.toNat_inj.mp
    rw [UInt64.toNat_add,UInt64.toNat_mod,hsu]
    change (k.toNat + 1) % 128 = (k.toNat % 128 + 1) % 2 ^ 64
    omega
  rw [hdiv,hst,if_neg hlt]

theorem nextStep_iff (h : s.Within t n) : (t',n') = nextStep s.poststateTimestamp (t,n) ↔
    (t'.toNat,n'.toNat) = World.nextStep s.poststateTimestamp.toNat t.toNat n.toNat := by
  have hn := h.step
  unfold nextStep World.nextStep
  simp only [← UInt64.toNat_inj (a := t)]
  split
  · simp [UInt64.toNat_inj]
  rename_i hne
  have hlt := UInt64.lt_of_le_of_ne h.le fun he => hne (congrArg UInt64.toNat he)
  have hsu := toNat_succ_lt hlt
  have hiff : n = 127 ↔ n.toNat = 127 := UInt64.toNat_inj.symm
  have hadd : (n + 1).toNat = n.toNat + 1 :=
    Nat.mod_eq_of_lt (by change n.toNat + 1 < 2 ^ 64; omega)
  simp only [hiff]
  split
  · rw [← hsu]
    simp only [Prod.mk.injEq,UInt64.toNat_inj]
    simp [← UInt64.toNat_inj (a := n')]
  · rw [← hadd]
    simp only [Prod.mk.injEq,UInt64.toNat_inj]

/-- The index and the timestamp do not wrap around in a game that a machine word can count. -/
theorem stepAt_next (hk : k.toNat + 1 < 2 ^ 64) (ht : first.toNat + (k.toNat + 1) / 128 < 2 ^ 64) :
    stepAt first last (k + 1) = nextStep last (stepAt first last k) := by
  have hsu : (k + 1).toNat = k.toNat + 1 := Nat.mod_eq_of_lt hk
  have htm := @toNat_time first k (by omega)
  have htm' := @toNat_time first (k + 1) (by omega)
  by_cases hend : last ≤ first + k / stepsPerTimestamp
  · have hend' : last ≤ first + (k + 1) / stepsPerTimestamp := by
      rw [le_iff_toNat_le] at hend ⊢
      omega
    simp [stepAt,if_pos hend,if_pos hend',nextStep]
  have hlt := UInt64.not_le.mp hend
  have hat : stepAt first last k = (first + k / stepsPerTimestamp,k % stepsPerTimestamp) := by
    simp [stepAt,if_neg hend]
  have hne := UInt64.ne_of_lt hlt
  rw [hat]
  by_cases h127 : k % stepsPerTimestamp = 127
  · have hmod : k.toNat % 128 = 127 := by
      have hnat := congrArg toNat h127
      rwa [UInt64.toNat_mod] at hnat
    have hone : first + (k + 1) / stepsPerTimestamp = first + k / stepsPerTimestamp + 1 := by
      apply UInt64.toNat_inj.mp
      rw [toNat_succ_lt hlt,htm]
      omega
    have hz : (k + 1) % stepsPerTimestamp = 0 := by
      apply UInt64.toNat_inj.mp
      rw [UInt64.toNat_mod,hsu]
      change (k.toNat + 1) % 128 = 0
      omega
    simp only [stepAt,nextStep,h127,↓reduceIte,hone,hz]
    split
    · rename_i hls
      rw [lt_iff_toNat_lt] at hlt
      rw [UInt64.le_iff_toNat_le,toNat_succ_lt (UInt64.not_le.mp hend)] at hls
      have heq : first + k / stepsPerTimestamp + 1 = last := by
        apply UInt64.toNat_inj.mp
        rw [toNat_succ_lt (UInt64.not_le.mp hend)]
        omega
      rw [heq]
    · rfl
  · rw [stepAt_succ hat hne h127]
    simp [nextStep,if_neg hne,if_neg h127]

/-- The program goes from the stage a supervisor sees to the next stage of the trace. -/
theorem stateTransition_seen {P : Packages} {prog : Program P} {configs : ConfigSource P}
    (hne : w.chains ≠ [])
    (hprog : ∀ t,s.Visits t → w.RunsIn prog configs s.l1Head t s.poststateTimestamp)
    (hp : s.computeStep p = .ok (t,n)) (hk : prog.Knows (w.preimage (s.view w processed t n))) :
    prog.stateTransition (bootAt prog configs s.l1Head s.poststateTimestamp (w.preimage
        (s.view w processed t n)))
      = .ok (prog.keccak256 (w.preimage (w.advance s.l1Head.number.toNat s.poststateTimestamp.toNat
          (s.view w processed t n)))) := by
  have hwi := computeStep_within hp
  by_cases hinv : s.view w processed t n = .invalid
  · rw [hinv]
    exact stateTransition_invalid
  obtain ⟨hrd,hsf,-⟩ := seen_eq_reached rfl hinv
  simp only [hrd] at hk ⊢
  have hruns : w.RunsIn prog configs s.l1Head t s.poststateTimestamp := by
    by_cases he : t = s.poststateTimestamp
    · rw [he]
      exact runsIn_same
    · exact hprog t ⟨he,p,n,hp⟩
  exact stateTransition_eq hruns hne le_rfl (le_iff_toNat_le.mp hwi.le) hwi.step hsf hk

theorem ofNat_succ (i : Nat) : ofNat (i + 1) = ofNat i + 1 := ofNat_add i 1

theorem computeStep_succ (hp : p.traceIndex s.gameDepth = .ok i)
    (hq : q.traceIndex s.gameDepth = .ok (i + 1)) (hstep : s.computeStep p = .ok (t,n))
    (hstep' : s.computeStep q = .ok (t',n')) (ht : t ≠ s.poststateTimestamp) (hn : n ≠ 127) :
    (t',n') = (t,n + 1) := by
  obtain ⟨j,hj,-,hat⟩ := computeStep_ok hstep
  obtain ⟨j',hj',-,hat'⟩ := computeStep_ok hstep'
  cases hp.symm.trans hj
  cases hq.symm.trans hj'
  rw [ofNat_succ] at hat'
  exact hat'.symm.trans (stepAt_succ hat ht hn)

theorem seen_bounds (h : s.Within t n) {a b : Nat} (hseen : s.view w processed t n = .reached a b) :
    a < 2 ^ 64 ∧ b ≤ 127 := by
  obtain ⟨hrd,-,-⟩ := seen_eq_reached hseen (by simp)
  cases hrd
  exact ⟨t.toNat_lt,h.step⟩

theorem advance_seen_bounds (h : s.Within t n) {a b : Nat}
    (hadvance : w.advance s.l1Head.number.toNat s.poststateTimestamp.toNat
      (s.view w processed t n) = .reached a b) :
    a < 2 ^ 64 ∧ b ≤ 127 := by
  by_cases hinv : s.view w processed t n = .invalid
  · rw [hinv] at hadvance
    cases hadvance
  obtain ⟨hrd,-,-⟩ := seen_eq_reached rfl hinv
  simp only [hrd] at hadvance
  obtain ⟨ha,hb⟩ := advance_bounds (le_iff_toNat_le.mp h.le) h.step hadvance
  exact ⟨lt_of_le_of_lt ha s.poststateTimestamp.toNat_lt,hb⟩

/-- When the stage that follows the one seen at an index is the one seen at the next index. -/
theorem advance_seen_iff (hnode : s.AnswersFrom w keccak256 processed)
    (hp : p.traceIndex s.gameDepth = .ok i) (hq : q.traceIndex s.gameDepth = .ok (i + 1))
    (hstep : s.computeStep p = .ok (t,n)) (hstep' : s.computeStep q = .ok (t',n')) :
    w.advance s.l1Head.number.toNat s.poststateTimestamp.toNat (s.view w processed t n)
      = s.view w processed t' n' ↔
    (w.Missing s.l1Head.number.toNat processed.toNat t.toNat n.toNat ∧
        w.Missing s.l1Head.number.toNat processed.toNat t'.toNat n'.toNat) ∨
      ((t',n') = nextStep s.poststateTimestamp (t,n) ∧
        ¬ w.Gap s.l1Head.number.toNat s.poststateTimestamp.toNat processed.toNat t.toNat
          n.toNat) := by
  have hin := computeStep_within hstep
  have hz : t.toNat = s.poststateTimestamp.toNat → n.toNat = 0 := by
    intro he
    simp [hin.zero (UInt64.toNat_inj.mp he)]
  have hod : t.toNat ≠ s.poststateTimestamp.toNat → n.toNat ≠ 127 →
      (t'.toNat,n'.toNat) = (t.toNat,n.toNat + 1) := by
    intro ht hn
    have hle := hin.step
    have hnx := computeStep_succ hp hq hstep hstep' (fun he => ht (congrArg toNat he))
      (fun he => hn (congrArg toNat he))
    cases hnx
    rw [UInt64.toNat_add,Nat.mod_eq_of_lt (by change n.toNat + 1 < 2 ^ 64; omega)]
    rfl
  rw [nextStep_iff hin]
  exact World.advance_seen_iff (le_iff_toNat_le.mp hnode.synced) hin.step hz
    (le_iff_toNat_le.mp hin.le) hod

/-- The challenger agrees with the program, up to a hash whose preimage is known and not that of
another stage, exactly when there are chains, the steps of the two indices follow each other and the
supervisor knows the next super root where its first block is safe, or when L1 lacks a block for
either index. In a game that a machine word can count the steps do follow each other. -/
theorem supervisor_plays_iff {P : Packages} (w : World) (s : SupervisorSuperTraceProvider)
    (prog : Program P) (configs : ConfigSource P) (processed : UInt64)
    (hnode : s.AnswersFrom w prog.keccak256 processed)
    (hprog : ∀ t,s.Visits t → w.RunsIn prog configs s.l1Head t s.poststateTimestamp)
    (p q : Position) (i : Nat) (hp : p.traceIndex s.gameDepth = .ok i)
    (hq : q.traceIndex s.gameDepth = .ok (i + 1))
    (hk : ∀ a,s.getPreimageBytes prog.keccak256 p = .ok a → prog.Knows a)
    (hc : ∀ b st,s.getPreimageBytes prog.keccak256 q = .ok b →
      prog.keccak256 b = prog.keccak256 (w.preimage st) → b = w.preimage st) :
    ((∃ a b,s.getPreimageBytes prog.keccak256 p = .ok a ∧
        s.getPreimageBytes prog.keccak256 q = .ok b ∧
        prog.stateTransition (bootAt prog configs s.l1Head s.poststateTimestamp a)
          = .ok (prog.keccak256 b)) ↔
      w.chains ≠ [] ∧ ∃ t n t' n',s.computeStep p = .ok (t,n) ∧ s.computeStep q = .ok (t',n') ∧
        ((w.Missing s.l1Head.number.toNat processed.toNat t.toNat n.toNat ∧
            w.Missing s.l1Head.number.toNat processed.toNat t'.toNat n'.toNat) ∨
          ((t',n') = nextStep s.poststateTimestamp (t,n) ∧
            ¬ w.Gap s.l1Head.number.toNat s.poststateTimestamp.toNat processed.toNat t.toNat
              n.toNat))) ∧
    (i + 2 < 2 ^ 64 → s.prestateTimestamp.toNat + (i + 2) / 128 < 2 ^ 64 →
      ∃ t n,s.computeStep p = .ok (t,n) ∧
        s.computeStep q = .ok (nextStep s.poststateTimestamp (t,n))) := by
  refine ⟨⟨?_,?_⟩,?_⟩
  · rintro ⟨a,b,ha,hb,hrun⟩
    obtain ⟨t,n,hst⟩ := getPreimageBytes_ok ha
    obtain ⟨t',n',hst'⟩ := getPreimageBytes_ok hb
    have hknows := hk a ha
    have hcollide := fun st => hc b st hb
    cases (getPreimageBytes_eq hnode hst).symm.trans ha
    cases (getPreimageBytes_eq hnode hst').symm.trans hb
    have hne : w.chains ≠ [] := by
      intro hnil
      simp only [seen_no_chains hnil] at hrun hknows
      simp [stateTransition_no_chains hnil hknows] at hrun
    refine ⟨hne,t,n,t',n',hst,hst',(advance_seen_iff hnode hp hq hst hst').mp ?_⟩
    rw [stateTransition_seen hne hprog hst hknows] at hrun
    have hsm := hcollide _ (Except.ok.inj hrun).symm
    exact preimage_inj hne hsm.symm (fun _ _ => advance_seen_bounds (computeStep_within hst))
      (fun _ _ => seen_bounds (computeStep_within hst'))
  · rintro ⟨hne,t,n,t',n',hst,hst',hcd⟩
    have hat := getPreimageBytes_eq hnode hst
    refine ⟨_,_,hat,getPreimageBytes_eq hnode hst',?_⟩
    rw [stateTransition_seen hne hprog hst (hk _ hat),
      (advance_seen_iff hnode hp hq hst hst').mpr hcd]
  · intro hi ht
    have hidx : (ofNat i + 1).toNat = i + 1 := by
      rw [← ofNat_succ]
      exact toNat_ofNat_of_lt' (by change i + 1 < 2 ^ 64; omega)
    have hnx : stepAt s.prestateTimestamp s.poststateTimestamp (ofNat i + 1 + 1)
        = nextStep s.poststateTimestamp
          (stepAt s.prestateTimestamp s.poststateTimestamp (ofNat i + 1)) :=
      stepAt_next (by omega) (by rw [hidx]; omega)
    refine ⟨(stepAt s.prestateTimestamp s.poststateTimestamp (ofNat i + 1)).1,
      (stepAt s.prestateTimestamp s.poststateTimestamp (ofNat i + 1)).2,
      computeStep_of hp (by omega),?_⟩
    rw [computeStep_of hq (by omega),ofNat_succ,hnx]

end SupervisorSuperTraceProvider

/-! Two chains, of which the second has no block from timestamp 2 on. -/

theorem gap_sorted : ([1,2] : List ChainID).Pairwise fun a b => a.toNat < b.toNat := by decide

theorem gap_few : ([1,2] : List ChainID).length ≤ 127 := by decide

def gapWorld : World where
  chains := [1,2]
  sorted := gap_sorted
  few := gap_few
  optimistic _ _ := ⟨.fill 32 1,.fill 32 0⟩
  verified _ _ := .fill 32 0
  requiredL1 c t := if c = 2 ∧ 2 ≤ t then ⊤ else 0
  later c _ t := by
    by_cases h : c = 2 ∧ 2 ≤ t
    · rw [if_pos h,if_pos ⟨h.1,by omega⟩]
    · rw [if_neg h]
      exact zero_le

theorem gapWorld_required (t : Nat) : gapWorld.requiredAt t = if 2 ≤ t then ⊤ else 0 := by
  by_cases h : 2 ≤ t <;> simp [requiredAt,gapWorld,h]

def gapConfigs : ConfigSource samplePackages where
  rollupConfig c := some
    { genesis := ⟨.zero,.zero,0,.zero⟩, blockTime := 1, maxSequencerDrift := 0, seqWindowSize := 2,
      channelTimeoutBedrock := 1, l1ChainID := some 1, l2ChainID := some c.toNat,
      batchInboxAddress := .fill 20 0, depositContractAddress := .fill 20 0 }
  chainConfig _ := some ()
  l1ChainConfig _ := some ()
  dependencySet _ := some ()

def gapProgram (a b : Bytes) : Program samplePackages where
  keccak256 bs := if bs = b then .fill 32 9 else .fill 32 (bs.headD 0)
  preimage _ := some a
  tasks.runDerivation cfg _ _ _ _ _ number :=
    .ok ⟨{ L2BlockRef.zero with number := if cfg.l2ChainID = some 2 then min number 1 else number },
      .fill 32 1,.fill 32 0⟩
  tasks.buildDepositOnlyBlock _ _ _ _ _ _ := ((),.error ())
  checks.emptyStore := ()
  checks.newCheckDeps _ _ _ _ _ := .ok ()
  checks.receiptsByBlockHash _ _ _ := ()
  checks.blockNumber _ := 0
  checks.blockTime _ := 0
  checks.checkHazards _ _ _ _ := ((),none)

def gapOutput : OutputV0 := ⟨.fill 32 0,.fill 32 0,.fill 32 1⟩

def gapProvider : SupervisorSuperTraceProvider where
  rollupCfgs := gapConfigs.rollupConfig
  superRootAtTimestamp t :=
    if 2 ≤ t.toNat then .notFound
    else .found ⟨⟨.fill 32 0,0⟩,t,superRootVersionV1,
      [⟨1,.fill 32 0,gapOutput.marshal⟩,⟨2,.fill 32 0,gapOutput.marshal⟩]⟩
  allSafeDerivedAt _ := some [(1,⟨.fill 32 0,2⟩),(2,⟨.fill 32 0,1⟩)]
  prestateTimestamp := 0
  poststateTimestamp := 2
  l1Head := ⟨.fill 32 0,0⟩
  gameDepth := 9

theorem chainID_one : ChainID.fromBig (some 1) = some 1 := by decide

def gapSetup (c : ChainID) : ChainSetup gapConfigs c :=
  ⟨_,(),1,(),(),rfl,rfl,chainID_one,rfl,rfl⟩

theorem gapSetup_target (c : ChainID) (t : UInt64) :
    (gapSetup c).rollupCfg.targetBlockNumber t = .ok t := by
  simp [gapSetup,Rollup.Config.targetBlockNumber,BlockID.zero]

theorem gap_visits {t : UInt64} (h : gapProvider.Visits t) : t = 0 ∨ t = 1 := by
  obtain ⟨hne,p,n,hst⟩ := h
  have hle := le_iff_toNat_le.mp (computeStep_within hst).le
  have hne : t.toNat ≠ 2 := fun he => hne (UInt64.toNat_inj.mp he)
  have hle : t.toNat ≤ 2 := hle
  obtain h0 | h1 : t.toNat = 0 ∨ t.toNat = 1 := by omega
  · exact .inl (UInt64.toNat_inj.mp h0)
  · exact .inr (UInt64.toNat_inj.mp h1)

theorem gap_answers {a b : Bytes} (hb : b.headD 0 ≠ 0) :
    gapProvider.AnswersFrom gapWorld (gapProgram a b).keccak256 0 := by
  have hrt : gapOutput.root (gapProgram a b).keccak256 = .fill 32 0 := by
    have hne : gapOutput.marshal ≠ b := by
      intro he
      exact hb (by rw [← he]; rfl)
    simp [OutputV0.root,gapProgram,hne]
    rfl
  refine ⟨UInt64.le_refl _,?_,?_,_,rfl,?_⟩
  · intro t ht
    rw [gapWorld_required] at ht
    by_cases h : 2 ≤ t.toNat
    · exact if_pos h
    · rw [if_neg h] at ht
      exact absurd ht (lt_irrefl _)
  · intro t ht
    rw [gapWorld_required] at ht
    by_cases h : 2 ≤ t.toNat
    · rw [if_pos h] at ht
      exact absurd ht (by simp)
    refine ⟨_,if_neg h,rfl,rfl,?_,?_,?_⟩
    · simp [gapWorld_required,if_neg h]
    · rfl
    intro c hc
    refine ⟨gapOutput,?_,?_⟩
    · simp only [mem_cons,not_mem_nil,or_false] at hc
      rcases hc with rfl | rfl
      · rfl
      · rfl
    · rw [hrt]
      rfl
  · intro t ht c hc
    have hcs : c = 1 ∨ c = 2 := by simpa [gapWorld] using hc
    rcases hcs with rfl | rfl
    · refine ⟨_,t + 1,⟨.fill 32 0,2⟩,rfl,gapSetup_target 1 (t + 1),rfl,?_⟩
      rcases gap_visits ht with rfl | rfl
      · exact iff_of_true (by decide) (by simp [gapWorld])
      · exact iff_of_true (by decide) (by simp [gapWorld])
    refine ⟨_,t + 1,⟨.fill 32 0,1⟩,rfl,gapSetup_target 2 (t + 1),rfl,?_⟩
    rcases gap_visits ht with rfl | rfl
    · exact iff_of_true (by decide) (by simp [gapWorld])
    · exact iff_of_false (by decide) (by simp [gapWorld])

theorem gap_runs (a b : Bytes) (t : UInt64) :
    gapWorld.RunsIn (gapProgram a b) gapConfigs gapProvider.l1Head t 2 := by
  constructor
  · intro u _ hls _ c hc
    have hls : u < 2 := hls
    have hcs : c = 1 ∨ c = 2 := by simpa [gapWorld] using hc
    refine ⟨gapSetup c,ofNat (u + 1),_,gapSetup_target c _,rfl,?_,fun _ => rfl⟩
    obtain rfl | rfl : u = 0 ∨ u = 1 := by omega
    · rcases hcs with rfl | rfl
      · exact iff_of_false (by decide) (by simp [gapWorld])
      · exact iff_of_false (by decide) (by simp [gapWorld])
    rcases hcs with rfl | rfl
    · exact iff_of_false (by decide) (by simp [gapWorld])
    · exact iff_of_true (by decide) (by simp [gapWorld])
  · intro u _ _ _
    exact ⟨_,rfl,rfl⟩

theorem fill_inj {x y : UInt8} (h : FixedBytes.fill 32 x = FixedBytes.fill 32 y) : x = y :=
  (cons.inj (congrArg FixedBytes.bytes h)).1

theorem gap_knows {a b : Bytes} (ha : a.headD 0 ≠ 105) (hab : a ≠ b) (hb : b.headD 0 ≠ 105) :
    (gapProgram a b).Knows a := by
  have hinv : invalidTransition ≠ b := by
    intro he
    rw [← he] at hb
    exact hb rfl
  refine ⟨rfl,fun he => absurd ?_ ha⟩
  simp only [Program.invalidTransitionHash,gapProgram,if_neg hab,if_neg hinv] at he
  exact fill_inj he

theorem gap_collides {a b : Bytes} (st : Stage)
    (h : (gapProgram a b).keccak256 b = (gapProgram a b).keccak256 (gapWorld.preimage st)) :
    b = gapWorld.preimage st := by
  by_contra hne
  have hhd : (gapWorld.preimage st).headD 0 ≠ 9 := by
    cases st with
    | invalid => decide
    | reached t step =>
      cases step with
      | zero => exact (by decide : (1 : UInt8) ≠ 9)
      | succ n => exact (by decide : (255 : UInt8) ≠ 9)
  have hne' : gapWorld.preimage st ≠ b := fun he => hne he.symm
  simp only [gapProgram,if_neg hne'] at h
  exact hhd (fill_inj h).symm

theorem gap_preimage {a b : Bytes} (hb : b.headD 0 ≠ 0) {p : Position} {t n : UInt64} {st : Stage}
    (hp : gapProvider.computeStep p = .ok (t,n)) (hst : gapWorld.seen 0 0 t.toNat n.toNat = st) :
    gapProvider.getPreimageBytes (gapProgram a b).keccak256 p = .ok (gapWorld.preimage st) := by
  rw [← hst]
  exact getPreimageBytes_eq (gap_answers hb) hp

theorem gap_seen {t n : Nat} (ht : t < 1) : gapWorld.seen 0 0 t n = .reached t n := by
  have hnow : gapWorld.requiredAt t = 0 := by rw [gapWorld_required,if_neg (by omega)]
  have hnx : gapWorld.requiredAt (t + 1) = 0 := by rw [gapWorld_required,if_neg (by omega)]
  have hsf : gapWorld.Safe 0 t n := by
    refine ⟨by simp [hnow],fun c _ => ?_⟩
    have hlt : ¬ 2 ≤ t + 1 := by omega
    simp [gapWorld,hlt]
  rw [seen,if_neg (by simp [hnx]),stage,if_pos hsf]

def stepProgram : Program samplePackages :=
  gapProgram (gapWorld.preimage (.reached 0 1)) (gapWorld.preimage (.reached 0 2))

theorem supervisor_plays_sample :
    ∃ a b,gapProvider.getPreimageBytes stepProgram.keccak256 ⟨9,0⟩ = .ok a ∧
      gapProvider.getPreimageBytes stepProgram.keccak256 ⟨9,1⟩ = .ok b ∧
      stepProgram.stateTransition (bootAt stepProgram gapConfigs gapProvider.l1Head 2 a)
        = .ok (stepProgram.keccak256 b) := by
  have hb : (gapWorld.preimage (.reached 0 2)).headD 0 ≠ 0 := (by decide : (255 : UInt8) ≠ 0)
  have hb' := (by decide : (255 : UInt8) ≠ 105)
  have hab : gapWorld.preimage (.reached 0 1) ≠ gapWorld.preimage (.reached 0 2) := by
    intro he
    have hst := preimage_inj (by simp [gapWorld]) he
      (fun _ _ h => by cases h; decide) (fun _ _ h => by cases h; decide)
    cases hst
  have hp : gapProvider.computeStep ⟨9,0⟩ = .ok (0,1) := rfl
  have hq : gapProvider.computeStep ⟨9,1⟩ = .ok (0,2) := rfl
  have hbef : gapProvider.getPreimageBytes stepProgram.keccak256 ⟨9,0⟩ = .ok _ :=
    gap_preimage hb hp (gap_seen (by decide))
  have haf : gapProvider.getPreimageBytes stepProgram.keccak256 ⟨9,1⟩ = .ok _ :=
    gap_preimage hb hq (gap_seen (by decide))
  refine (supervisor_plays_iff gapWorld gapProvider stepProgram
    gapConfigs 0 (gap_answers hb) (fun t _ => gap_runs _ _ t) ⟨9,0⟩ ⟨9,1⟩ 0 rfl rfl ?_ ?_).1.mpr
    ⟨by simp [gapWorld],0,1,0,2,hp,hq,.inr ⟨rfl,fun h => absurd h.2.1 (by decide)⟩⟩
  · intro a ha
    cases hbef.symm.trans ha
    exact gap_knows (by decide) hab hb'
  intro b st hbq
  cases haf.symm.trans hbq
  exact gap_collides st

def boundaryProgram : Program samplePackages := gapProgram (gapWorld.superAt 1).marshal [7]

/-- The super root at timestamp 1 is safe, and so is the next block of the first chain, but the
second chain has none. The program derives the first, while the challenger, whose supervisor knows
no super root at timestamp 2, claims the invalid transition. -/
theorem supervisor_gap_differs : gapProvider.AnswersFrom gapWorld boundaryProgram.keccak256 0 ∧
    (∀ t,gapProvider.Visits t → gapWorld.RunsIn boundaryProgram gapConfigs gapProvider.l1Head t 2) ∧
    boundaryProgram.Knows (gapWorld.superAt 1).marshal ∧
    Position.traceIndex ⟨9,127⟩ gapProvider.gameDepth = .ok 127 ∧
    Position.traceIndex ⟨9,128⟩ gapProvider.gameDepth = .ok 128 ∧
    gapProvider.getPreimageBytes boundaryProgram.keccak256 ⟨9,127⟩
      = .ok (gapWorld.superAt 1).marshal ∧
    gapProvider.getPreimageBytes boundaryProgram.keccak256 ⟨9,128⟩ = .ok invalidTransition ∧
    boundaryProgram.stateTransition (bootAt boundaryProgram gapConfigs gapProvider.l1Head 2
      (gapWorld.superAt 1).marshal) = .ok (.fill 32 255) ∧
    boundaryProgram.keccak256 invalidTransition ≠ .fill 32 255 := by
  have hb : ([7] : Bytes).headD 0 ≠ 0 := by decide
  have hne : gapWorld.chains ≠ [] := by simp [gapWorld]
  have hknows : boundaryProgram.Knows (gapWorld.superAt 1).marshal :=
    gap_knows (by decide) (by decide) (by decide)
  have hp : gapProvider.computeStep ⟨9,127⟩ = .ok (1,0) := rfl
  have hq : gapProvider.computeStep ⟨9,128⟩ = .ok (1,1) := rfl
  have hnow : gapWorld.requiredAt 1 = 0 := by rw [gapWorld_required,if_neg (by omega)]
  have hla : gapWorld.requiredAt 2 = ⊤ := by rw [gapWorld_required,if_pos (by omega)]
  have hsn : gapWorld.seen 0 0 1 0 = .reached 1 0 := by
    rw [seen,if_neg (by simp),stage,if_pos (safe_zero.mpr (by simp [hnow]))]
  have hsn' : gapWorld.seen 0 0 1 1 = .invalid := seen_invalid.mpr (.inl ⟨by decide,by simp [hla]⟩)
  have hsf : gapWorld.Safe gapProvider.l1Head.number.toNat 1 0 :=
    safe_zero.mpr (by rw [hnow]; exact zero_le)
  have hrun : boundaryProgram.stateTransition (bootAt boundaryProgram gapConfigs
      gapProvider.l1Head 2 (gapWorld.preimage (.reached 1 0)))
      = .ok (boundaryProgram.keccak256 (gapWorld.preimage (gapWorld.advance 0 2 (.reached 1 0)))) :=
    stateTransition_eq (gap_runs _ _ 0) hne (by decide) (by decide) (by decide) hsf hknows
  exact ⟨gap_answers hb,fun t _ => gap_runs _ _ t,hknows,rfl,rfl,gap_preimage hb hp hsn,
    gap_preimage hb hq hsn',hrun,by decide⟩

end OpStack.Fault
