import OpStack.Proofs.Consolidation
import Mathlib.Order.Lattice.Nat
import OpStack.Proofs.SuperRoots

namespace OpStack.Interop
open Lib Eth List Rollup Program UInt64

/-! The trace of super roots and partial steps that the data on L1 allows, apart from how the
program and the challenger compute it. -/

/-- For each chain and timestamp the block derived from L1 alone and the output of the block that
holds after the messages were checked, with the number of the L1 block needed to derive them. -/
structure World where
  chains : List ChainID
  sorted : chains.Pairwise fun a b => a.toNat < b.toNat
  few : chains.length ≤ 127
  optimistic : ChainID → Nat → OptimisticBlock
  verified : ChainID → Nat → Hash
  requiredL1 : ChainID → Nat → WithTop Nat
  later : ∀ c ∈ chains,∀ t,requiredL1 c t ≤ requiredL1 c (t + 1)

/-- A super root and a number of steps towards the next one, or the end of every trace that L1 has
not enough data for. -/
inductive Stage where
  | reached (timestamp step : Nat)
  | invalid
  deriving DecidableEq

namespace World
variable (w : World)

def superAt (t : Nat) : SuperV1 :=
  ⟨.ofNat t,w.chains.map fun c => ⟨c,w.verified c t⟩⟩

def requiredAt (t : Nat) : WithTop Nat := (w.chains.map (w.requiredL1 · t)).foldr max 0

def pendingAt (t step : Nat) : List OptimisticBlock :=
  (w.chains.take step).map (w.optimistic · (t + 1))

def preimage : Stage → Bytes
  | .invalid => invalidTransition
  | .reached t 0 => (w.superAt t).marshal
  | .reached t (n+1) => TransitionState.marshal
      ⟨(w.superAt t).marshal,w.pendingAt t (n + 1),.ofNat (n + 1)⟩

variable (head last : Nat)

def Safe (t step : Nat) : Prop :=
  w.requiredAt t ≤ head ∧ ∀ c ∈ w.chains.take step,w.requiredL1 c (t + 1) ≤ head

instance (t step : Nat) : Decidable (w.Safe head t step) := by
  unfold Safe
  infer_instance

def stage (t step : Nat) : Stage := if w.Safe head t step then .reached t step else .invalid

/-- One step: a block of the next timestamp for each chain in turn, then nothing up to step 127,
and then the next super root. -/
def advance : Stage → Stage
  | .invalid => .invalid
  | .reached t step =>
    if t = last then .reached t step
    else
      match w.chains[step]? with
      | some c => if w.requiredL1 c (t + 1) ≤ head then .reached t (step + 1) else .invalid
      | none => if step = 127 then .reached (t + 1) 0 else .reached t (step + 1)

def claimed (first k : Nat) : Stage :=
  if last ≤ first + k / 128 then w.stage head last 0
  else w.stage head (first + k / 128) (k % 128)

/-- The claim of a challenger that learns of no block of the next timestamp before L1 up to
`processed` has all of them. -/
def seen (processed t step : Nat) : Stage :=
  if step ≠ 0 ∧ processed < w.requiredAt (t + 1) then .invalid else w.stage head t step

/-- Such a challenger misses the first block of the next timestamp. -/
def Gap (processed t step : Nat) : Prop :=
  t ≠ last ∧ step = 0 ∧ w.Safe head t 1 ∧ processed < w.requiredAt (t + 1)

def Missing (processed t step : Nat) : Prop :=
  (step ≠ 0 ∧ processed < w.requiredAt (t + 1)) ∨ ¬ w.Safe head t step

def nextStep (t step : Nat) : Nat × Nat :=
  if t = last then (t,step) else if step = 127 then (t + 1,0) else (t,step + 1)

variable {w head last} {t step first : Nat}

theorem requiredAt_le : w.requiredAt t ≤ head ↔ ∀ c ∈ w.chains,w.requiredL1 c t ≤ head := by
  unfold requiredAt
  induction w.chains with
  | nil => simp
  | cons c cs ih => simp [ih]

theorem safe_zero : w.Safe head t 0 ↔ w.requiredAt t ≤ head := by simp [Safe]

theorem safe_succ {c : ChainID} (hc : w.chains[step]? = some c) :
    w.Safe head t (step + 1) ↔ w.Safe head t step ∧ w.requiredL1 c (t + 1) ≤ head := by
  have htake : w.chains.take (step + 1) = w.chains.take step ++ [c] := by
    rw [take_add_one,hc]
    rfl
  simp only [Safe,htake,forall_mem_append,forall_mem_singleton,and_assoc]

theorem safe_pad (hc : w.chains[step]? = none) : w.Safe head t (step + 1) ↔ w.Safe head t step := by
  have hlen := getElem?_eq_none_iff.mp hc
  simp [Safe,take_of_length_le hlen,take_of_length_le (Nat.le_succ_of_le hlen)]

theorem safe_next : w.Safe head (t + 1) 0 ↔ w.Safe head t 127 := by
  rw [safe_zero]
  simp only [Safe,take_of_length_le w.few,requiredAt_le]
  constructor
  · intro h
    exact ⟨fun c hc => (w.later c hc t).trans (h c hc),h⟩
  · intro h
    exact h.2

theorem advance_stage (ht : t < last) (hs : step < 127) :
    w.advance head last (w.stage head t step) = w.stage head t (step + 1) := by
  unfold stage
  cases hc : w.chains[step]? with
  | none =>
    simp only [safe_pad hc]
    split
    · simp [advance,hc,if_neg ht.ne,if_neg hs.ne]
    · rfl
  | some c =>
    simp only [safe_succ hc]
    by_cases hsf : w.Safe head t step
    · simp [hsf,advance,hc,if_neg ht.ne]
    · simp [hsf,advance]

theorem advance_stage_last (ht : t < last) :
    w.advance head last (w.stage head t 127) = w.stage head (t + 1) 0 := by
  have hc := getElem?_eq_none_iff.mpr w.few
  unfold stage
  simp only [safe_next]
  split
  · simp [advance,hc,if_neg ht.ne]
  · rfl

theorem advance_stage_end : w.advance head last (w.stage head last 0) = w.stage head last 0 := by
  unfold stage
  split
  · simp [advance]
  · rfl

theorem advance_claimed (first k : Nat) :
    w.advance head last (w.claimed head last first k) = w.claimed head last first (k + 1) := by
  unfold claimed
  by_cases hend : last ≤ first + k / 128
  · rw [if_pos hend,if_pos (by omega),advance_stage_end]
  rw [if_neg hend]
  by_cases hls : k % 128 = 127
  · have hnx : first + (k + 1) / 128 = first + k / 128 + 1 := by omega
    have hz : (k + 1) % 128 = 0 := by omega
    rw [hls,advance_stage_last (by omega),hnx,hz]
    split
    · rw [show last = first + k / 128 + 1 by omega]
    · rfl
  · have hsm : first + (k + 1) / 128 = first + k / 128 := by omega
    have hst : (k + 1) % 128 = k % 128 + 1 := by omega
    rw [hsm,hst,if_neg hend,advance_stage (by omega) (by omega)]

theorem claimed_zero (hle : first ≤ last) (h : w.requiredAt first ≤ head) :
    w.claimed head last first 0 = .reached first 0 := by
  have hstg : w.stage head first 0 = .reached first 0 := if_pos (safe_zero.mpr h)
  unfold claimed
  split
  · rw [show last = first by omega,hstg]
  · exact hstg

theorem stage_cases (t step : Nat) : w.stage head t step = .invalid ∨
    (w.stage head t step = .reached t step ∧ w.Safe head t step) := by
  unfold stage
  split
  · rename_i h
    exact .inr ⟨rfl,h⟩
  · exact .inl rfl

theorem claimed_cases (hle : first ≤ last) (k : Nat) : w.claimed head last first k = .invalid ∨
    ∃ t step,w.claimed head last first k = .reached t step ∧ first ≤ t ∧ t ≤ last ∧ step ≤ 127 ∧
      w.Safe head t step := by
  unfold claimed
  split
  · rcases @stage_cases w head last 0 with hinv | ⟨hrd,hsf⟩
    · exact .inl hinv
    · exact .inr ⟨last,0,hrd,hle,le_rfl,by omega,hsf⟩
  rcases @stage_cases w head (first + k / 128) (k % 128) with hinv | ⟨hrd,hsf⟩
  · exact .inl hinv
  · exact .inr ⟨_,_,hrd,by omega,by omega,by omega,hsf⟩

variable {processed t step t' step' : Nat}

theorem advance_bounds (ht : t ≤ last) (hs : step ≤ 127)
    (h : w.advance head last (.reached t step) = .reached t' step') : t' ≤ last ∧ step' ≤ 127 := by
  have hfew := w.few
  simp only [advance] at h
  split at h
  · cases h
    exact ⟨ht,hs⟩
  split at h
  · rename_i c hc
    have hlt := (List.getElem?_eq_some_iff.mp hc).1
    split at h
    · cases h
      exact ⟨ht,by omega⟩
    · cases h
  · split at h
    · cases h
      exact ⟨by omega,by omega⟩
    · cases h
      exact ⟨ht,by omega⟩

theorem seen_no_chains (h : w.chains = []) : w.seen head processed t step = .reached t step := by
  have hreq (n : Nat) : w.requiredAt n = 0 := by simp [requiredAt,h]
  have hsf : w.Safe head t step := by simp [Safe,hreq,h]
  rw [seen,if_neg (by simp [hreq]),stage,if_pos hsf]

theorem seen_eq_reached {st : Stage} (h : w.seen head processed t step = st) (hst : st ≠ .invalid) :
    st = .reached t step ∧ w.Safe head t step ∧ (step = 0 ∨ w.requiredAt (t + 1) ≤ processed) := by
  unfold seen at h
  split at h
  · exact absurd h.symm hst
  rename_i hkn
  rcases @stage_cases w head t step with hinv | ⟨hrd,hsf⟩
  · exact absurd (h.symm.trans hinv) hst
  refine ⟨h.symm.trans hrd,hsf,?_⟩
  by_cases hz : step = 0
  · exact .inl hz
  · exact .inr (not_lt.mp fun hlt => hkn ⟨hz,hlt⟩)

theorem seen_invalid :
    w.seen head processed t step = .invalid ↔ w.Missing head processed t step := by
  unfold seen stage Missing
  split
  · rename_i h
    simp [h]
  · rename_i h
    by_cases hsf : w.Safe head t step <;> simp [h,hsf]

theorem seen_eq_iff (h : w.seen head processed t step ≠ .invalid) :
    w.seen head processed t step = w.seen head processed t' step' ↔ (t',step') = (t,step) := by
  constructor
  · intro he
    obtain ⟨hrd,-,-⟩ := seen_eq_reached rfl h
    obtain ⟨hrd',-,-⟩ := seen_eq_reached he.symm h
    rw [hrd] at hrd'
    cases hrd'
    rfl
  · intro he
    cases he
    rfl

theorem seen_invalid_next (hle : head ≤ processed) (hs : step ≤ 127) (hlast : t = last → step = 0)
    (h : w.seen head processed t step = .invalid) :
    w.seen head processed (nextStep last t step).1 (nextStep last t step).2 = .invalid := by
  unfold nextStep
  by_cases ht : t = last
  · rw [if_pos ht]
    exact h
  rw [if_neg ht]
  rw [seen_invalid] at h
  by_cases h127 : step = 127
  · rw [if_pos h127]
    subst h127
    refine seen_invalid.mpr (.inr ?_)
    rcases h with ⟨-,hlt⟩ | hunsafe
    · rw [safe_zero,not_le]
      exact lt_of_le_of_lt (Nat.cast_le.mpr hle) hlt
    · rwa [safe_next]
  rw [if_neg h127]
  refine seen_invalid.mpr ?_
  rcases h with ⟨-,hlt⟩ | hunsafe
  · exact .inl ⟨Nat.succ_ne_zero step,hlt⟩
  refine .inr fun hsf => hunsafe ?_
  cases hc : w.chains[step]? with
  | none => exact (safe_pad hc).mp hsf
  | some c => exact ((safe_succ hc).mp hsf).1

/-- Where such a challenger agrees with the trace. -/
theorem advance_seen_iff (hle : head ≤ processed) (hs : step ≤ 127) (hlast : t = last → step = 0)
    (hbefore : t ≤ last) (hstep : t ≠ last → step ≠ 127 → (t',step') = (t,step + 1)) :
    w.advance head last (w.seen head processed t step) = w.seen head processed t' step' ↔
      (w.Missing head processed t step ∧ w.Missing head processed t' step') ∨
        ((t',step') = nextStep last t step ∧ ¬ w.Gap head last processed t step) := by
  rw [← seen_invalid,← seen_invalid]
  by_cases hinv : w.seen head processed t step = .invalid
  · have hnx := seen_invalid_next hle hs hlast hinv
    simp only [hinv,true_and]
    constructor
    · intro h
      exact .inl h.symm
    rintro (h | ⟨h,-⟩)
    · exact h.symm
    · rw [← h] at hnx
      exact hnx.symm
  obtain ⟨hrd,hsf,hkn⟩ := seen_eq_reached rfl hinv
  rw [hrd]
  simp only [reduceCtorEq,false_and,false_or]
  by_cases ht : t = last
  · have hgap : ¬ w.Gap head last processed t step := fun h => h.1 ht
    simp only [advance,nextStep,if_pos ht,hgap,not_false_eq_true,and_true]
    rw [← hrd]
    exact seen_eq_iff hinv
  by_cases h127 : step = 127
  · subst h127
    have hc := getElem?_eq_none_iff.mpr w.few
    have hgap : ¬ w.Gap head last processed t 127 := fun h => absurd h.2.1 (by omega)
    have hnx : w.seen head processed (t + 1) 0 = .reached (t + 1) 0 := by
      simp [seen,stage,if_pos (safe_next.mpr hsf)]
    simp only [advance,nextStep,if_neg ht,hc,↓reduceIte,hgap,not_false_eq_true,and_true]
    rw [← hnx]
    exact seen_eq_iff (by simp [hnx])
  -- within a timestamp the indices are in order, so that only the gap can tell the two apart
  obtain ⟨rfl,rfl⟩ := Prod.mk.inj (hstep ht h127)
  have hstg : w.advance head last (.reached t' step) = w.stage head t' (step + 1) := by
    have hlt : t' < last := by omega
    rw [← advance_stage hlt (by omega),stage,if_pos hsf]
  rw [hstg]
  simp only [nextStep,if_neg ht,if_neg h127]
  by_cases hlt : processed < w.requiredAt (t' + 1)
  · have hz := hkn.resolve_right (not_le.mpr hlt)
    subst hz
    have hsn : w.seen head processed t' (0 + 1) = .invalid :=
      seen_invalid.mpr (.inl ⟨Nat.succ_ne_zero 0,hlt⟩)
    rw [hsn]
    simp only [Gap,ne_eq,ht,true_and,hlt,and_true,stage]
    split
    · rename_i hone
      simp [hone]
    · rename_i hone
      simp [hone]
  · have hsn : w.seen head processed t' (step + 1) = w.stage head t' (step + 1) :=
      if_neg fun h => hlt h.2
    have hgap : ¬ w.Gap head last processed t' step := fun h => hlt h.2.2.2
    simp [hsn,hgap]

end World

variable {P : Packages}

structure ChainSetup (configs : ConfigSource P) (c : ChainID) where
  rollupCfg : Config
  l2ChainConfig : P.ChainConfig
  l1ChainID : ChainID
  l1ChainConfig : P.ChainConfig
  depSet : P.DependencySet
  rollup_eq : configs.rollupConfig c = some rollupCfg
  l2_eq : configs.chainConfig c = some l2ChainConfig
  l1ID_eq : ChainID.fromBig rollupCfg.l1ChainID = some l1ChainID
  l1_eq : configs.l1ChainConfig l1ChainID = some l1ChainConfig
  depSet_eq : configs.dependencySet c = some depSet

def bootAt (prog : Program P) (configs : ConfigSource P) (head : BlockID) (last : UInt64)
    (agreed : Bytes) : BootInfo P :=
  ⟨configs,head.hash,prog.keccak256 agreed,last⟩

structure Program.Knows (prog : Program P) (agreed : Bytes) : Prop where
  found : prog.preimage (prog.keccak256 agreed) = some agreed
  distinct : prog.keccak256 agreed = prog.invalidTransitionHash → agreed = invalidTransition

namespace World
variable (w : World) (prog : Program P) (configs : ConfigSource P) (head : BlockID) (t : Nat)

def stateAt (t step : Nat) : TransitionState :=
  ⟨(w.superAt t).marshal,w.pendingAt t step,ofNat step⟩

def Derives (c : ChainID) (t : Nat) : Prop :=
  ∃ (setup : ChainSetup configs c) (number : UInt64) (result : DerivationResult),
    setup.rollupCfg.targetBlockNumber (ofNat (t + 1)) = .ok number ∧
    prog.tasks.runDerivation setup.rollupCfg setup.l1ChainConfig setup.depSet setup.l2ChainConfig
      head.hash (w.verified c t) number = .ok result ∧
    (result.head.number < number ↔ head.number.toNat < w.requiredL1 c (t + 1)) ∧
    (w.requiredL1 c (t + 1) ≤ head.number.toNat →
      ⟨result.blockHash,result.outputRoot⟩ = w.optimistic c (t + 1))

def Consolidates (last : UInt64) (t : Nat) : Prop :=
  ∃ s,consolidate prog.tasks prog.checks
      (bootAt prog configs head last (w.preimage (.reached t 127))) (w.stateAt t 127)
      (w.superAt t) = some (.ok s) ∧
    s.pendingProgress.map (·.outputRoot) = w.chains.map (w.verified · (t + 1))

/-- The program runs in the world: from each stage that L1 up to `head` allows, the task executor
and the consolidation answer with the blocks of the world. -/
structure RunsIn (first last : UInt64) : Prop where
  derives : ∀ t : Nat,first.toNat ≤ t → t < last.toNat → w.requiredAt t ≤ head.number.toNat →
    ∀ c ∈ w.chains,w.Derives prog configs head c t
  consolidates : ∀ t : Nat,first.toNat ≤ t → t < last.toNat → w.Safe head.number.toNat t 127 →
    w.Consolidates prog configs head last t

theorem stateAt_step {step : Nat} (hs : step ≤ 127) : (w.stateAt t step).step.toNat = step :=
  toNat_ofNat_of_lt' (by change step < 2 ^ 64; omega)

theorem superAt_ids : (w.superAt t).chains.map (·.chainID) = w.chains := by
  rw [superAt,map_map]
  exact map_id _

theorem superAt_succ : (w.superAt t).timestamp + 1 = ofNat (t + 1) :=
  (ofNat_add t 1).symm

variable {w prog configs head} {first last : UInt64} {t step : Nat}

theorem superAt_time (h : t < 2 ^ 64) : (w.superAt t).timestamp.toNat = t :=
  toNat_ofNat_of_lt' h

theorem preimage_reached (h : step ≠ 0) :
    w.preimage (.reached t step) = (w.stateAt t step).marshal := by
  cases step with
  | zero => exact absurd rfl h
  | succ n => rfl

theorem runsIn_same : w.RunsIn prog configs head last last :=
  ⟨fun _ h h' => absurd h' (not_lt.mpr h),fun _ h h' => absurd h' (not_lt.mpr h)⟩

theorem preimage_ne_invalid : w.preimage (.reached t step) ≠ invalidTransition := by
  cases step with
  | zero =>
    intro h
    cases (cons.inj h).1
  | succ n =>
    intro h
    cases (cons.inj h).1

theorem stateAt_small : (w.stateAt t step).Small := by
  have hfew := w.few
  constructor
  · have hlen := (w.superAt t).marshal_length
    simp only [superAt,length_map] at hlen
    simp only [stateAt,superAt]
    omega
  · simp only [stateAt,pendingAt,length_map,length_take]
    omega

theorem unmarshal_preimage :
    unmarshalTransitionState (w.preimage (.reached t step)) = .ok (w.stateAt t step) := by
  cases step with
  | zero =>
    rfl
  | succ n => exact TransitionState.unmarshal_marshal stateAt_small

theorem superAt_chains_ne (hne : w.chains ≠ []) : (w.superAt t).chains ≠ [] := by
  simpa [superAt] using hne

theorem parseAgreedState_eq (hk : prog.Knows (w.preimage (.reached t step))) :
    prog.parseAgreedState (bootAt prog configs head last (w.preimage (.reached t step))) = (do
      let superRoot ← (unmarshalSuperRoot (w.superAt t).marshal).mapError InteropError.superRoot
      pure (w.stateAt t step,superRoot)) := by
  have hrt : prog.transitionStateByRoot (prog.keccak256 (w.preimage (.reached t step)))
      = .ok (w.stateAt t step) := by
    simp [transitionStateByRoot,hk.found,unmarshal_preimage]
  unfold parseAgreedState
  simp only [bootAt,hrt]
  rfl

theorem deriveOptimisticBlock_eq {agreed : Bytes} {c : ChainID} (hs : step ≤ 127)
    (hc : w.chains[step]? = some c) (hd : w.Derives prog configs head c t) :
    prog.deriveOptimisticBlock (bootAt prog configs head last agreed) (w.superAt t)
        (w.stateAt t step)
      = if w.requiredL1 c (t + 1) ≤ head.number.toNat then .ok (w.optimistic c (t + 1))
        else .error .l1HeadReached := by
  obtain ⟨setup,number,result,hnum,hrun,hshort,hbk⟩ := hd
  have hst := w.stateAt_step t hs
  have hch : (w.superAt t).chains[(w.stateAt t step).step.toNat]? = some ⟨c,w.verified c t⟩ := by
    rw [hst]
    simp [superAt,hc]
  have htm := w.superAt_succ t
  unfold deriveOptimisticBlock
  simp only [hch,orFail_some,bootAt,htm,ok_bind,setup.rollup_eq,setup.l2_eq,setup.l1ID_eq,
    setup.l1_eq,setup.depSet_eq,hnum,hrun,Except.mapError]
  by_cases hle : w.requiredL1 c (t + 1) ≤ head.number.toNat
  · rw [if_neg (by rw [hshort]; exact not_lt.mpr hle),if_pos hle,← hbk hle]
    rfl
  · rw [if_pos (hshort.mpr (not_le.mp hle)),if_neg hle]
    rfl

theorem finalState_eq {c : ChainID} (hc : w.chains[step]? = some c) :
    finalState (w.stateAt t step) ((w.stateAt t step).pendingProgress ++
      [w.optimistic c (t + 1)]) = w.stateAt t (step + 1) := by
  simp [finalState,stateAt,pendingAt,take_add_one,hc]

theorem finalState_pad (hc : w.chains[step]? = none) :
    finalState (w.stateAt t step) (w.stateAt t step).pendingProgress = w.stateAt t (step + 1) := by
  have hlen := getElem?_eq_none_iff.mp hc
  simp [finalState,stateAt,pendingAt,take_of_length_le hlen,
    take_of_length_le (Nat.le_succ_of_le hlen)]

theorem hash_stateAt : (w.stateAt t (step + 1)).hash prog.keccak256
    = prog.keccak256 (w.preimage (.reached t (step + 1))) := rfl

theorem runConsolidation_eq_superAt (h : w.Consolidates prog configs head last t) :
    runConsolidation prog.tasks prog.checks
        (bootAt prog configs head last (w.preimage (.reached t 127))) prog.keccak256
        (w.stateAt t 127) (w.superAt t)
      = .ok (prog.keccak256 (w.superAt (t + 1)).marshal) := by
  obtain ⟨s,hs,hrts⟩ := h
  rw [← w.superAt_ids t] at hrts
  rw [runConsolidation_eq hs hrts,superAt_ids,superAt_succ]
  rfl

theorem stepFrom_eq (h : w.RunsIn prog configs head first last) (hfirst : first.toNat ≤ t)
    (hlast : t < last.toNat) (hs : step ≤ 127) (hsafe : w.Safe head.number.toNat t step) :
    prog.stepFrom (bootAt prog configs head last (w.preimage (.reached t step))) (w.stateAt t step)
        (w.superAt t)
      = .ok (prog.keccak256 (w.preimage (w.advance head.number.toNat last.toNat
          (.reached t step)))) := by
  have hst := w.stateAt_step t hs
  have hct : (w.superAt t).chains.length = w.chains.length := length_map _
  unfold stepFrom
  simp only [hst,hct,advance,if_neg hlast.ne]
  cases hc : w.chains[step]? with
  | some c =>
    have hlt := lt_of_getElem? hc
    have hmem := mem_of_getElem? hc
    rw [if_pos hlt,deriveOptimisticBlock_eq hs hc (h.derives t hfirst hlast hsafe.1 c hmem)]
    by_cases hle : w.requiredL1 c (t + 1) ≤ head.number.toNat
    · simp [if_pos hle,finalState_eq hc,hash_stateAt]
    · simp only [if_neg hle]
      rfl
  | none =>
    have hlen := getElem?_eq_none_iff.mp hc
    rw [if_neg (not_lt.mpr hlen)]
    by_cases h127 : step = 127
    · subst h127
      have hpen : ¬ consolidateStep.toNat < (w.stateAt t 127).pendingProgress.length := by
        simp only [stateAt,pendingAt,length_map,length_take]
        change ¬ 127 < _
        omega
      rw [if_neg hpen,runConsolidation_eq_superAt (h.consolidates t hfirst hlast hsafe)]
      rfl
    · have hne : (w.stateAt t step).step ≠ consolidateStep := by
        intro he
        rw [he] at hst
        exact h127 hst.symm
      simp [if_neg hne,if_neg h127,finalState_pad hc,hash_stateAt]

theorem stateTransition_eq (h : w.RunsIn prog configs head first last) (hne : w.chains ≠ [])
    (hfirst : first.toNat ≤ t) (hlast : t ≤ last.toNat) (hs : step ≤ 127)
    (hsafe : w.Safe head.number.toNat t step) (hk : prog.Knows (w.preimage (.reached t step))) :
    prog.stateTransition (bootAt prog configs head last (w.preimage (.reached t step)))
      = .ok (prog.keccak256 (w.preimage (w.advance head.number.toNat last.toNat
          (.reached t step)))) := by
  have hva : (bootAt prog configs head last (w.preimage (.reached t step))).agreedPrestate
      ≠ prog.invalidTransitionHash := fun he => preimage_ne_invalid (hk.distinct he)
  have htm : (w.superAt t).timestamp.toNat = t := superAt_time (lt_of_le_of_lt hlast last.toNat_lt)
  unfold stateTransition
  rw [if_neg hva,parseAgreedState_eq hk,(w.superAt t).unmarshal_marshal (superAt_chains_ne hne)]
  change (if (w.superAt t).timestamp = last then _ else _) = _
  by_cases hend : t = last.toNat
  · have heq := UInt64.toNat_inj.mp (htm.trans hend)
    rw [if_pos heq]
    simp only [advance,if_pos hend]
    rfl
  have hneq : (w.superAt t).timestamp ≠ last := by
    intro he
    rw [he] at htm
    exact hend htm.symm
  have hnlt : ¬ last < (w.superAt t).timestamp := by
    rw [lt_iff_toNat_lt]
    omega
  rw [if_neg hneq]
  change (if last < (w.superAt t).timestamp then _ else _) = _
  rw [if_neg hnlt]
  exact stepFrom_eq h hfirst (by omega) hs hsafe

theorem stateTransition_invalid :
    prog.stateTransition (bootAt prog configs head last (w.preimage .invalid))
      = .ok (prog.keccak256 (w.preimage .invalid)) :=
  if_pos rfl

theorem preimage_inj {st st' : Stage} (hne : w.chains ≠ []) (h : w.preimage st = w.preimage st')
    (hst : ∀ t step,st = .reached t step → t < 2 ^ 64 ∧ step ≤ 127)
    (hst' : ∀ t step,st' = .reached t step → t < 2 ^ 64 ∧ step ≤ 127) : st = st' := by
  cases st with
  | invalid =>
    cases st' with
    | invalid => rfl
    | reached t' step' => exact absurd h.symm preimage_ne_invalid
  | reached t step =>
    cases st' with
    | invalid => exact absurd h preimage_ne_invalid
    | reached t' step' =>
      obtain ⟨ht,hs⟩ := hst t step rfl
      obtain ⟨ht',hs'⟩ := hst' t' step' rfl
      have hsta : w.stateAt t step = w.stateAt t' step' := by
        have hrd := congrArg unmarshalTransitionState h
        rw [unmarshal_preimage,unmarshal_preimage] at hrd
        exact Except.ok.inj hrd
      have hstep : step = step' := by rw [← w.stateAt_step t hs,← w.stateAt_step t' hs',hsta]
      have hsup : w.superAt t = w.superAt t' := by
        have hby : (w.superAt t).marshal = (w.superAt t').marshal :=
          congrArg TransitionState.superRoot hsta
        have hrd := congrArg unmarshalSuperRoot hby
        rw [SuperV1.unmarshal_marshal _ (superAt_chains_ne hne),
          SuperV1.unmarshal_marshal _ (superAt_chains_ne hne)] at hrd
        exact Except.ok.inj hrd
      have htm : t = t' := by
        have heq : (w.superAt t).timestamp.toNat = (w.superAt t').timestamp.toNat := by rw [hsup]
        rwa [superAt_time ht,superAt_time ht'] at heq
      rw [hstep,htm]

theorem stateTransition_no_chains (h : w.chains = [])
    (hk : prog.Knows (w.preimage (.reached t step))) :
    prog.stateTransition (bootAt prog configs head last (w.preimage (.reached t step)))
      = .error (.superRoot .invalidSuperRoot) := by
  have hva : (bootAt prog configs head last (w.preimage (.reached t step))).agreedPrestate
      ≠ prog.invalidTransitionHash := fun he => preimage_ne_invalid (hk.distinct he)
  have hsup := (w.superAt t).unmarshal_marshal_nil (by simp [superAt,h])
  unfold stateTransition
  rw [if_neg hva,parseAgreedState_eq hk,hsup]
  rfl

theorem stateTransition_claimed (h : w.RunsIn prog configs head first last) (hne : w.chains ≠ [])
    (hle : first ≤ last) (k : Nat)
    (hk : prog.Knows (w.preimage (w.claimed head.number.toNat last.toNat first.toNat k))) :
    prog.stateTransition (bootAt prog configs head last
        (w.preimage (w.claimed head.number.toNat last.toNat first.toNat k)))
      = .ok (prog.keccak256 (w.preimage
          (w.claimed head.number.toNat last.toNat first.toNat (k + 1)))) := by
  rw [← advance_claimed]
  rcases claimed_cases (le_iff_toNat_le.mp hle) k with
    hinv | ⟨t,step,hrd,hfst,hls,hs,hsf⟩
  · rw [hinv]
    exact stateTransition_invalid
  · rw [hrd] at hk ⊢
    exact stateTransition_eq h hne hfst hls hs hsf hk

end World

end OpStack.Interop
