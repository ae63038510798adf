import OpStack.Proofs.Config
import OpStack.Proofs.RewindAttempt

namespace OpStack.Supernode
open Eth Payload List Option

/-! A rewind over all its attempts. Each one that is left at the synthetic block makes that block
the target of the next one, so after `k` of them the target is the `k`-th synthetic payload. -/

/-- The attempts before the one that completes that leave the head at the synthetic block. -/
def stranded (attempts : List RewindAttempt) : Nat :=
  (attempts.takeWhile fun a => !a.calls.completes).countP fun a => a.calls.strands

section
variable {hashOf : Payload → Hash} {start e e' : Engine} {n timestamp : UInt64}
  {target parent safe₀ finalized₀ safe finalized : Payload} {cfg : Rollup.Config} {k : Nat}

def Met (start : Engine) (target : Payload) : Set Payload :=
  { q | (∃ h,start.known h = some q) ∨ ∃ k,q = .synthetic^[k] target }

def expected (target parent : Payload) (k : Nat) (label : Payload) : Payload :=
  if k = 0 then lower label target else parent

variable {p : Payload} {h : Hash} {head s f : Hash}

@[simp] theorem iterate_number (k : Nat) (p : Payload) : (synthetic^[k] p).number = p.number := by
  induction k generalizing p with
  | zero => rfl
  | succ k ih => rw [Function.iterate_succ_apply,ih,synthetic_number]

@[simp] theorem iterate_parentHash (k : Nat) (p : Payload) :
    (synthetic^[k] p).parentHash = p.parentHash := by
  induction k generalizing p with
  | zero => rfl
  | succ k ih =>
    rw [Function.iterate_succ_apply,ih]
    rfl

theorem lower_lower (a b : Payload) : lower (lower a b) b = lower a b := by
  unfold lower
  by_cases h : a.number < b.number
  · simp [h]
  · simp [h]

structure Between (hashOf : Payload → Hash) (start : Engine) (n : UInt64)
    (target parent safe₀ finalized₀ : Payload) (k : Nat) (e : Engine) (safe finalized : Payload) :
    Prop where
  stands : Stands hashOf e n (.synthetic^[k] target) safe finalized
  met : ∀ h q,e.known h = some q → q ∈ Met start target
  knownParent : e.known target.parentHash = some parent
  safeLabel : lower safe (.synthetic^[k] target) = expected target parent k safe₀
  finalizedLabel : lower finalized (.synthetic^[k] target) = expected target parent k finalized₀
  below : ¬ n < finalized.number

theorem newPayload_met (hcoll : Set.InjOn hashOf (Met start target))
    (hwf : e.WellFormed hashOf) (hmet : ∀ h q,e.known h = some q → q ∈ Met start target)
    (hp : p ∈ Met start target) : (e.newPayload hashOf p).known (hashOf p) = some p := by
  obtain ⟨q,hq⟩ := isSome_iff_exists.mp (@newPayload_self hashOf e p)
  rcases newPayload_cases hq with hold | ⟨_,rfl⟩
  · have heq := hcoll (hmet _ q hold) hp (hwf.hash _ q hold)
    rw [hq,heq]
  · exact hq

theorem withLabels_canonical (hhead : e.known head = some p) (hp : p.number = n) :
    (e.withLabels head s f).payloadByNumber n = some p := by
  change ((e.known head).bind fun head => _) = _
  rw [hhead]
  exact ancestorAt_self hp

theorem Engine.WellFormed.withLabels (hwf : e.WellFormed hashOf)
    (hk : Knows e head s f) : (e.withLabels head s f).WellFormed hashOf :=
  ⟨hwf.hash,hwf.parent,hk.head,hk.safe,hk.finalized⟩

namespace Between
variable (hb : Between hashOf start n target parent safe₀ finalized₀ k e safe finalized)
include hb

theorem number : target.number = n := by
  have h := (hb.stands.wf.canonical hb.stands.canonical).1
  rwa [iterate_number] at h

theorem known_target : e.known (hashOf (synthetic^[k] target)) = some (synthetic^[k] target) :=
  (hb.stands.wf.canonical hb.stands.canonical).2

theorem parent_number (hpos : n ≠ 0) : parent.number + 1 = n := by
  obtain ⟨q,hq,hsu⟩ := hb.stands.wf.parent _ _ hb.known_target (by
    rw [iterate_number,hb.number]
    exact hpos)
  rw [iterate_parentHash,hb.knownParent] at hq
  cases hq
  rwa [iterate_number,hb.number] at hsu

theorem parent_lt (hpos : n ≠ 0) : parent.number < n := by
  have hsu := hb.parent_number hpos
  subst hsu
  apply UInt64.lt_iff_toNat_lt.mpr
  have hne : (parent.number + 1).toNat ≠ 0 := fun h => hpos (UInt64.toNat_inj.mp h)
  rw [UInt64.toNat_add] at hne ⊢
  have hlt := parent.number.toNat_lt
  simp only [UInt64.toNat_one] at hne ⊢
  omega

theorem newPayload {q : Payload} (hq : e.known h = some q)
    (hnumber : p.number = q.number) (hparent : p.parentHash = q.parentHash)
    (hp : p ∈ Met start target) :
    Between hashOf start n target parent safe₀ finalized₀ k (e.newPayload hashOf p) safe finalized
    where
  stands := ⟨hb.stands.wf.newPayload hq hnumber hparent,newPayload_canonical hb.stands.canonical,
    newPayload_known hb.stands.safe,newPayload_known hb.stands.finalized⟩
  met := by
    intro h' r hr
    rcases newPayload_cases hr with hold | ⟨_,rfl⟩
    · exact hb.met h' r hold
    · exact hp
  knownParent := newPayload_known hb.knownParent
  safeLabel := hb.safeLabel
  finalizedLabel := hb.finalizedLabel
  below := hb.below

theorem synthetic : Between hashOf start n target parent safe₀ finalized₀ k
    (e.newPayload hashOf (.synthetic^[k] target).synthetic) safe finalized := by
  have hmet : (.synthetic^[k] target).synthetic ∈ Met start target :=
    .inr ⟨k + 1,(Function.iterate_succ_apply' ..).symm⟩
  exact hb.newPayload hb.known_target rfl rfl hmet

theorem strand (hcoll : Set.InjOn hashOf (Met start target)) (hpos : n ≠ 0) :
    Between hashOf start n target parent safe₀ finalized₀ (k + 1)
      ((e.newPayload hashOf (.synthetic^[k] target).synthetic).withLabels
        (hashOf (.synthetic^[k] target).synthetic) target.parentHash target.parentHash)
      parent parent := by
  have hnew := hb.synthetic
  have hlt := hb.parent_lt hpos
  rw [← Function.iterate_succ_apply' Payload.synthetic k target] at hnew ⊢
  have hkn := newPayload_met hcoll hb.stands.wf hb.met
    (p := .synthetic^[k + 1] target) (.inr ⟨k + 1,rfl⟩)
  have hlw : lower parent (.synthetic^[k + 1] target) = parent := by
    unfold lower
    rw [iterate_number,hb.number,if_pos hlt]
  have hpar : ((e.newPayload hashOf (.synthetic^[k + 1] target)).known
      target.parentHash).isSome = true := by
    rw [hnew.knownParent]
    rfl
  constructor
  · refine ⟨hnew.stands.wf.withLabels ⟨?_,hpar,hpar⟩,?_,hnew.knownParent,hnew.knownParent⟩
    · rw [hkn]
      rfl
    · apply withLabels_canonical hkn
      rw [iterate_number,hb.number]
  · exact hnew.met
  · exact hnew.knownParent
  · rw [hlw,expected,if_neg (Nat.succ_ne_zero k)]
  · rw [hlw,expected,if_neg (Nat.succ_ne_zero k)]
  · exact fun h => absurd (UInt64.lt_trans h hlt) (UInt64.lt_irrefl n)

theorem lower_known {label : Payload} (hl : e.known h = some label) :
    e.known (hashOf (lower label (.synthetic^[k] target)))
      = some (lower label (.synthetic^[k] target)) := by
  unfold lower
  split
  · exact hb.stands.wf.known_hash hl
  · exact hb.known_target

theorem arrive : Between hashOf start n target parent safe₀ finalized₀ k
    ((e.newPayload hashOf (.synthetic^[k] target).synthetic).withLabels
      (hashOf (.synthetic^[k] target))
      (hashOf (lower safe (.synthetic^[k] target)))
      (hashOf (lower finalized (.synthetic^[k] target))))
    (lower safe (.synthetic^[k] target))
    (lower finalized (.synthetic^[k] target)) := by
  have hnew := hb.synthetic
  have htgt := hnew.known_target
  have hsf := hnew.lower_known hnew.stands.safe
  have hfin := hnew.lower_known hnew.stands.finalized
  constructor
  · refine ⟨hnew.stands.wf.withLabels ⟨?_,?_,?_⟩,?_,hsf,hfin⟩
    · exact isSome_iff_exists.mpr ⟨_,htgt⟩
    · exact isSome_iff_exists.mpr ⟨_,hsf⟩
    · exact isSome_iff_exists.mpr ⟨_,hfin⟩
    · apply withLabels_canonical htgt
      rw [iterate_number,hb.number]
  · exact hnew.met
  · exact hnew.knownParent
  · rw [lower_lower,hb.safeLabel]
  · rw [lower_lower,hb.finalizedLabel]
  · unfold lower
    split
    · exact hb.below
    · rw [iterate_number,hb.number]
      exact UInt64.lt_irrefl n

end Between

section
variable (hcoll : Set.InjOn hashOf (Met start target)) (hpos : n ≠ 0)
  (hn : cfg.targetBlockNumber timestamp = .ok n)
include hcoll hpos hn

theorem attempt_fails {calls : RewindCalls}
    (hb : Between hashOf start n target parent safe₀ finalized₀ k e safe finalized)
    (hnot : calls.completes = false) : ∃ e' err safe' finalized',
      rewindToTimestamp hashOf (some cfg) timestamp calls e = (e',.error err) ∧
      Between hashOf start n target parent safe₀ finalized₀
        (k + if calls.strands then 1 else 0) e' safe' finalized' := by
  have hpar : (e.known (.synthetic^[k] target).parentHash).isSome = true := by simp [hb.knownParent]
  by_cases hmvs : calls.moves = true
  · by_cases harr : calls.arrives = true
    · obtain ⟨result,hres,hiff⟩ := rewindToTimestamp_arrives hn hb.stands hb.below hpar harr
      have hstrands : calls.strands = false := by simp [RewindCalls.strands,harr]
      cases result with
      | ok u => simp [hiff.mp rfl] at hnot
      | error err =>
        have harrive := hb.arrive
        refine ⟨_,err,lower safe (.synthetic^[k] target),
          lower finalized (.synthetic^[k] target),hres,?_⟩
        rw [hstrands]
        exact harrive
    · have hstrands : calls.strands = true := by simp [RewindCalls.strands,hmvs,harr]
      obtain ⟨err,hres⟩ := rewindToTimestamp_strands hn hb.stands hb.below hpar hstrands
      rw [iterate_parentHash] at hres
      refine ⟨_,err,parent,parent,hres,?_⟩
      rw [hstrands]
      exact hb.strand hcoll hpos
  · have hstrands : calls.strands = false := by simp [RewindCalls.strands,hmvs]
    obtain ⟨e',err,hres,he'⟩ := rewindToTimestamp_stays hn hb.stands hb.below
      (Bool.eq_false_iff.mpr hmvs)
    refine ⟨e',err,safe,finalized,hres,?_⟩
    rw [hstrands]
    rcases he' with rfl | rfl
    · exact hb
    · exact hb.synthetic

/-- When the retries end without an error, the engine is where the stranded attempts lead. -/
theorem retryRewind_ok {attempts : List RewindAttempt}
    (hb : Between hashOf start n target parent safe₀ finalized₀ k e safe finalized)
    (hok : retryRewind hashOf (some cfg) timestamp attempts e = some (e',.ok ())) :
    e'.unsafeHead = hashOf (synthetic^[k + stranded attempts] target) ∧
    e'.safeHead = hashOf (expected target parent (k + stranded attempts) safe₀) ∧
    e'.finalizedHead = hashOf (expected target parent (k + stranded attempts) finalized₀) := by
  induction attempts generalizing e k safe finalized with
  | nil => cases hok
  | cons a rest ih =>
    unfold retryRewind at hok
    by_cases hdo : a.calls.completes = true
    · have hpar : (e.known (synthetic^[k] target).parentHash).isSome = true := by
        simp [hb.knownParent]
      have harr := (Bool.and_eq_true_iff.mp hdo).1
      obtain ⟨result,hres,hiff⟩ := rewindToTimestamp_arrives hn hb.stands hb.below hpar harr
      cases hiff.mpr hdo
      rw [hres] at hok
      cases hok
      have hz : stranded (a::rest) = 0 := by simp [stranded,hdo]
      rw [hz]
      exact ⟨rfl,congrArg hashOf hb.safeLabel,congrArg hashOf hb.finalizedLabel⟩
    have hnot := Bool.eq_false_iff.mpr hdo
    obtain ⟨e₁,err,safe₁,finalized₁,hres,hb₁⟩ := attempt_fails hcoll hpos hn hb hnot
    have hct : k + stranded (a::rest)
        = (k + if a.calls.strands then 1 else 0) + stranded rest := by
      simp only [stranded,takeWhile_cons,hnot,Bool.not_false,↓reduceIte,countP_cons]
      omega
    rw [hres] at hok
    simp only at hok
    split at hok
    · cases hok
    split at hok
    · cases hok
    split at hok
    · cases hok
    rw [hct]
    exact ih hb₁ hok

end

theorem between_start (hwf : e.WellFormed hashOf)
    (htarget : e.payloadByNumber n = some target) (hpos : n ≠ 0)
    (hsafe : e.known e.safeHead = some safe₀) (hfin : e.known e.finalizedHead = some finalized₀)
    (hle : ¬ n < finalized₀.number) : ∃ parent,e.known target.parentHash = some parent ∧
      Between hashOf e n target parent safe₀ finalized₀ 0 e safe₀ finalized₀ := by
  obtain ⟨hnum,hkn⟩ := hwf.canonical htarget
  obtain ⟨parent,hpar,_⟩ := hwf.parent _ _ hkn (by rwa [hnum])
  exact ⟨parent,hpar,⟨hwf,htarget,hsafe,hfin⟩,fun h q hq => .inl ⟨h,hq⟩,hpar,rfl,rfl,hle⟩

/-- The chain is rewound: the engine is at the target, with the safe head no higher than that and
the finalized head where it was. -/
def Rewound (hashOf : Payload → Hash) (c : InteropChain) (target safe finalized : Payload) : Prop :=
  ∃ e,c.engine = some e ∧ e.unsafeHead = hashOf target ∧
    e.safeHead = hashOf (lower safe target) ∧ e.finalizedHead = hashOf finalized

theorem rewindEngine_engine {c c' : InteropChain} {script : RewindScript}
    (hok : c.rewindEngine hashOf timestamp script = some (c',.ok ())) :
    ∃ e e',c.engine = some e ∧ c'.engine = some e' ∧
      retryRewind hashOf c.rollup timestamp script.attempts e = some (e',.ok ()) ∧
      c' = { c with engine := some e', pause := false } := by
  unfold InteropChain.rewindEngine at hok
  split at hok
  · cases hok
  split at hok
  · cases hok
  cases heng : c.engine with
  | none => simp [heng] at hok
  | some e =>
    rw [heng] at hok
    simp only at hok
    split at hok
    · cases hok
    obtain ⟨⟨e',result⟩,hrty,heq⟩ := map_eq_some_iff.mp hok
    obtain ⟨rfl,rfl⟩ := heq
    exact ⟨e,e',rfl,rfl,hrty,rfl⟩

/-- A rewind that succeeds reaches the right block iff no attempt was stranded, or the stranded ones
happen to lead back to the same labels. -/
theorem InteropChain.rewind_restores_iff {c c' : InteropChain} {script : RewindScript}
    (hrollup : c.rollup = some cfg) (hn : cfg.targetBlockNumber timestamp = .ok n) (hpos : n ≠ 0)
    (hengine : c.engine = some e) (hwf : e.WellFormed hashOf)
    (htarget : e.payloadByNumber n = some target) (hsafe : e.known e.safeHead = some safe₀)
    (hfin : e.known e.finalizedHead = some finalized₀)
    (hfinalized : e.payloadByNumber finalized₀.number = some finalized₀)
    (hle : ¬ n < finalized₀.number) (hcoll : Set.InjOn hashOf (Met e target))
    (hok : c.rewindEngine hashOf timestamp script = some (c',.ok ())) :
    Rewound hashOf c' target safe₀ finalized₀ ↔ stranded script.attempts = 0 ∨
      (.synthetic^[stranded script.attempts] target = target ∧
        hashOf (lower safe₀ target) = target.parentHash ∧
        hashOf finalized₀ = target.parentHash) := by
  obtain ⟨e₀,e',he₀,he',hrty,_⟩ := rewindEngine_engine hok
  rw [hengine] at he₀
  cases he₀
  rw [hrollup] at hrty
  obtain ⟨parent,hpar,hb⟩ := between_start hwf htarget hpos hsafe hfin hle
  obtain ⟨hhd',hsafe',hfin'⟩ := retryRewind_ok hcoll hpos hn hb hrty
  rw [Nat.zero_add] at hhd' hsafe' hfin'
  -- the finalized block is canonical, so at the target's height it is the target
  have hlw : lower finalized₀ target = finalized₀ := by
    unfold lower
    split
    · rfl
    rename_i hnot
    rw [hb.number] at hnot
    have heq := UInt64.le_antisymm (UInt64.not_lt.mp hle) (UInt64.not_lt.mp hnot)
    rw [heq,htarget] at hfinalized
    exact some.inj hfinalized
  have hrewound : Rewound hashOf c' target safe₀ finalized₀ ↔
      e'.unsafeHead = hashOf target ∧ e'.safeHead = hashOf (lower safe₀ target) ∧
        e'.finalizedHead = hashOf finalized₀ := by
    simp [Rewound,he']
  rw [hrewound,hhd',hsafe',hfin']
  by_cases hk : stranded script.attempts = 0
  · simp [hk,expected,hlw]
  have hhs := hwf.hash _ _ hpar
  have htop : hashOf (synthetic^[stranded script.attempts] target) = hashOf target ↔
      synthetic^[stranded script.attempts] target = target :=
    hcoll.eq_iff (.inr ⟨_,rfl⟩) (.inr ⟨0,rfl⟩)
  simp only [expected,hk,↓reduceIte,false_or,hhs,htop]
  rw [@eq_comm _ target.parentHash,@eq_comm _ target.parentHash]

end

/-! Blocks 0 to 2, of which 0 is finalized and 1 safe, and a rewind to block 1. -/

open Proofs.Config (sampleConfig)

def sampleDigest (p : Payload) : Hash := .fill 32 (p.extraData.headD 0)

def samplePayload (number : UInt64) (parent extra : UInt8) : Payload :=
  ⟨number,.fill 32 parent,1 + 2 * number,⟨.fill 32 7,7⟩,number,[extra],[]⟩

def samplePayloads : List Payload := [samplePayload 0 9 10,samplePayload 1 10 11,
  samplePayload 2 11 12]

def sampleRewindEngine : Engine where
  known h := samplePayloads.find? fun p => sampleDigest p = h
  unsafeHead := .fill 32 12
  safeHead := .fill 32 11
  finalizedHead := .fill 32 10

def sampleInterop : InteropChain := ⟨true,some sampleRewindEngine,some sampleConfig,none,true,false⟩

def cleanTry : FcuTry := ⟨none,none,none,none,none⟩

def cleanCalls : RewindCalls := ⟨none,none,none,none,none,fun _ => cleanTry,fun _ => cleanTry⟩

def strandedCalls : RewindCalls :=
  { cleanCalls with target := fun _ => { cleanTry with update := some .other } }

theorem sample_known (hp : sampleRewindEngine.known h = some p) :
    p ∈ samplePayloads ∧ sampleDigest p = h := by
  have hfd : samplePayloads.find? (fun p => decide (sampleDigest p = h)) = some p := hp
  exact ⟨mem_of_find?_eq_some hfd,by simpa using find?_some hfd⟩

theorem sampleRewindEngine_wf : sampleRewindEngine.WellFormed sampleDigest where
  hash h p hp := (sample_known hp).2
  parent h p hp hpos := by
    have hm := (sample_known hp).1
    simp only [samplePayloads,mem_cons,not_mem_nil,or_false] at hm
    rcases hm with rfl | rfl | rfl
    · exact absurd rfl hpos
    · exact ⟨samplePayload 0 9 10,by decide⟩
    · exact ⟨samplePayload 1 10 11,by decide⟩
  unsafeHead := by decide
  safeHead := by decide
  finalizedHead := by decide

theorem sample_met {q : Payload} (hq : q ∈ Met sampleRewindEngine (samplePayload 1 10 11)) :
    q ∈ (samplePayload 1 10 11).synthetic::samplePayloads := by
  rcases hq with ⟨h,hq⟩ | ⟨k,rfl⟩
  · exact mem_cons_of_mem _ (sample_known hq).1
  have heven : ∀ p,p ∈ [samplePayload 1 10 11,(samplePayload 1 10 11).synthetic] →
      synthetic^[k] p ∈ [samplePayload 1 10 11,(samplePayload 1 10 11).synthetic] := by
    induction k with
    | zero => exact fun p hp => hp
    | succ k ih =>
      intro p hp
      apply ih
      revert p
      decide
  have h := heven _ mem_cons_self
  revert h
  generalize synthetic^[k] (samplePayload 1 10 11) = r
  simp only [samplePayloads,mem_cons,not_mem_nil,or_false]
  rintro (rfl | rfl)
  · exact .inr (.inr (.inl rfl))
  · exact .inl rfl

theorem sample_coll : Set.InjOn sampleDigest (Met sampleRewindEngine (samplePayload 1 10 11)) := by
  intro p hp q hq h
  have hall : ∀ p ∈ (samplePayload 1 10 11).synthetic::samplePayloads,
      ∀ q ∈ (samplePayload 1 10 11).synthetic::samplePayloads,
        sampleDigest p = sampleDigest q → p = q := by decide
  exact hall p (sample_met hp) q (sample_met hq) h

/-- A first attempt that cannot insert the synthetic block does no harm. -/
theorem late_insert_restores : ∃ c',sampleInterop.rewindEngine sampleDigest 3 ⟨false,
    [⟨{ cleanCalls with insert := some .other },false⟩,⟨cleanCalls,false⟩]⟩ = some (c',.ok ()) ∧
      Rewound sampleDigest c' (samplePayload 1 10 11) (samplePayload 1 10 11)
        (samplePayload 0 9 10) := by
  refine ⟨_,rfl,?_⟩
  refine (@InteropChain.rewind_restores_iff sampleDigest sampleRewindEngine 1 3
    (samplePayload 1 10 11) (samplePayload 1 10 11) (samplePayload 0 9 10) sampleConfig
    sampleInterop _ ⟨false,[⟨{ cleanCalls with insert := some .other },false⟩,⟨cleanCalls,false⟩]⟩
    rfl (by decide) (by decide) rfl sampleRewindEngine_wf (by decide) (by decide) (by decide)
    (by decide) (by decide) sample_coll rfl).mpr ?_
  exact .inl (by decide)

/-- A stranded attempt makes the next one rewind to the synthetic block. -/
theorem stranded_at_synthetic : ∃ c',sampleInterop.rewindEngine sampleDigest 3
      ⟨false,[⟨strandedCalls,false⟩,⟨cleanCalls,false⟩]⟩ = some (c',.ok ()) ∧
    ¬ Rewound sampleDigest c' (samplePayload 1 10 11) (samplePayload 1 10 11)
      (samplePayload 0 9 10) := by
  refine ⟨_,rfl,?_⟩
  rintro ⟨e,he,hhd,_⟩
  cases he
  revert hhd
  decide

end OpStack.Supernode
