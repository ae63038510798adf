import OpStack.Supernode.Rewind

namespace OpStack.Supernode
open Lib Eth Supernode.Engine RewindCalls Option

variable {hashOf : Payload → Hash} {e : Engine} {p q : Payload} {n : UInt64} {h : Hash} {fuel : Nat}
  {e' : Engine} {calls : RewindCalls} {cfg : Option Rollup.Config} {timestamp : UInt64}

structure Engine.WellFormed (hashOf : Payload → Hash) (e : Engine) : Prop where
  hash : ∀ h p,e.known h = some p → hashOf p = h
  parent : ∀ h p,e.known h = some p → p.number ≠ 0 →
    ∃ q,e.known p.parentHash = some q ∧ q.number + 1 = p.number
  unsafeHead : (e.known e.unsafeHead).isSome = true
  safeHead : (e.known e.safeHead).isSome = true
  finalizedHead : (e.known e.finalizedHead).isSome = true

theorem ancestorAt_self (hp : p.number = n) : e.ancestorAt n fuel p = some p := by
  cases fuel with
  | zero => simp [ancestorAt,hp]
  | succ fuel => simp [ancestorAt,hp]

theorem ancestorAt_some (hq : e.ancestorAt n fuel p = some q) :
    q.number = n ∧ (q = p ∨ ∃ h,e.known h = some q) := by
  induction fuel generalizing p with
  | zero =>
    unfold ancestorAt at hq
    split at hq
    · rename_i hn
      cases hq
      exact ⟨hn,.inl rfl⟩
    · cases hq
  | succ fuel ih =>
    unfold ancestorAt at hq
    split at hq
    · rename_i hn
      cases hq
      exact ⟨hn,.inl rfl⟩
    obtain ⟨r,hr,hrs⟩ := bind_eq_some_iff.mp hq
    obtain ⟨hn,heq | hkn⟩ := ih hrs
    · cases heq
      exact ⟨hn,.inr ⟨_,hr⟩⟩
    · exact ⟨hn,.inr hkn⟩

namespace Engine.WellFormed
variable (hwf : e.WellFormed hashOf)
include hwf

theorem known_hash (hp : e.known h = some p) : e.known (hashOf p) = some p := by
  rw [hwf.hash h p hp]
  exact hp

theorem canonical (hp : e.payloadByNumber n = some p) :
    p.number = n ∧ e.known (hashOf p) = some p := by
  obtain ⟨head,hhd,hat⟩ := bind_eq_some_iff.mp hp
  obtain ⟨hn,heq | ⟨h,hkn⟩⟩ := ancestorAt_some hat
  · cases heq
    exact ⟨hn,hwf.known_hash hhd⟩
  · exact ⟨hn,hwf.known_hash hkn⟩

end Engine.WellFormed

/-! A new payload is known besides the others. -/

theorem newPayload_known (hq : e.known h = some q) : (e.newPayload hashOf p).known h = some q := by
  simp only [newPayload]
  split
  · simp [hq]
  · exact hq

theorem newPayload_cases (hq : (e.newPayload hashOf p).known h = some q) :
    e.known h = some q ∨ h = hashOf p ∧ q = p := by
  simp only [newPayload] at hq
  split at hq
  · rename_i heq
    cases hkn : e.known h with
    | some r =>
      rw [hkn] at hq
      exact .inl hq
    | none =>
      rw [hkn] at hq
      cases hq
      exact .inr ⟨heq,rfl⟩
  · exact .inl hq

theorem newPayload_self : ((e.newPayload hashOf p).known (hashOf p)).isSome = true := by
  simp only [newPayload]
  cases e.known (hashOf p) <;> rfl

theorem newPayload_ancestorAt {start : Payload} (hq : e.ancestorAt n fuel start = some q) :
    (e.newPayload hashOf p).ancestorAt n fuel start = some q := by
  induction fuel generalizing start with
  | zero => exact hq
  | succ fuel ih =>
    unfold ancestorAt at hq ⊢
    split at hq
    · rename_i hn
      rw [if_pos hn]
      exact hq
    rename_i hn
    obtain ⟨r,hr,hrs⟩ := bind_eq_some_iff.mp hq
    rw [if_neg hn,newPayload_known hr]
    exact ih hrs

theorem newPayload_isSome (hh : (e.known h).isSome = true) :
    ((e.newPayload hashOf p).known h).isSome = true := by
  obtain ⟨q,hq⟩ := isSome_iff_exists.mp hh
  rw [newPayload_known hq]
  rfl

theorem newPayload_canonical (hq : e.payloadByNumber n = some q) :
    (e.newPayload hashOf p).payloadByNumber n = some q := by
  obtain ⟨head,hhd,hat⟩ := bind_eq_some_iff.mp hq
  exact bind_eq_some_iff.mpr ⟨head,newPayload_known hhd,newPayload_ancestorAt hat⟩

theorem Engine.WellFormed.newPayload (hwf : e.WellFormed hashOf) (hq : e.known h = some q)
    (hnumber : p.number = q.number) (hparent : p.parentHash = q.parentHash) :
    (e.newPayload hashOf p).WellFormed hashOf where
  hash := by
    intro h' r hr
    rcases newPayload_cases hr with hold | ⟨rfl,rfl⟩
    · exact hwf.hash h' r hold
    · rfl
  parent := by
    intro h' r hr hpos
    rcases newPayload_cases hr with hold | ⟨rfl,rfl⟩
    · obtain ⟨s,hs,hsu⟩ := hwf.parent h' r hold hpos
      exact ⟨s,newPayload_known hs,hsu⟩
    rw [hnumber] at hpos
    obtain ⟨s,hs,hsu⟩ := hwf.parent h q hq hpos
    refine ⟨s,?_,hnumber ▸ hsu⟩
    rw [hparent]
    exact newPayload_known hs
  unsafeHead := newPayload_isSome hwf.unsafeHead
  safeHead := newPayload_isSome hwf.safeHead
  finalizedHead := newPayload_isSome hwf.finalizedHead

/-! What an attempt does, by the requests that fail. -/

def FcuTry.verifies (t : FcuTry) : Bool :=
  t.unsafeRead.isNone && t.safeRead.isNone && t.finalizedRead.isNone

def settles (tries : Nat → FcuTry) : Nat → Nat → Bool
  | 0,_ => true
  | left+1,i => (tries i).update.isNone &&
    ((tries i).verifies || (decide (left ≠ 0) && (tries i).wait.isNone && settles tries left (i + 1)))

def Engine.withLabels (e : Engine) (head safe finalized : Hash) : Engine :=
  { e with unsafeHead := head, safeHead := safe, finalizedHead := finalized }

section
variable {head safe finalized : Hash}

structure Knows (e : Engine) (head safe finalized : Hash) : Prop where
  head : (e.known head).isSome = true
  safe : (e.known safe).isSome = true
  finalized : (e.known finalized).isSome = true

theorem answer_ok {α : Type} {failure : Option Failure} {x : Option α} {a : α}
    (h : answer failure x = .ok a) : failure = none ∧ x = some a := by
  cases failure with
  | some f => cases h
  | none =>
    cases x with
    | none => cases h
    | some b =>
      cases h
      exact ⟨rfl,rfl⟩

theorem forkchoiceUpdated_eq (hk : Knows e head safe finalized) :
    e.forkchoiceUpdated head safe finalized = some (e.withLabels head safe finalized) := by
  simp [forkchoiceUpdated,hk.head,hk.safe,hk.finalized,withLabels]

theorem verifyLabel_known (hwf : ∀ h p,e.known h = some p → hashOf p = h)
    (hh : (e.known h).isSome = true) (failure : Option Failure) :
    verifyLabel failure (e.l2BlockRefByHash hashOf h) h
      = match failure with | none => .ok () | some f => .error f := by
  obtain ⟨p,hp⟩ := isSome_iff_exists.mp hh
  cases failure with
  | some f => rfl
  | none => simp [verifyLabel,l2BlockRefByHash,hp,answer,Payload.ref,hwf h p hp]

theorem verifyRewindState_iff (hwf : ∀ h p,e.known h = some p → hashOf p = h)
    (hk : Knows e head safe finalized) (t : FcuTry) :
    verifyRewindState hashOf (e.withLabels head safe finalized) t head safe finalized = .ok () ↔
      t.verifies = true := by
  have h₁ := verifyLabel_known hwf hk.head t.unsafeRead
  have h₂ := verifyLabel_known hwf hk.safe t.safeRead
  have h₃ := verifyLabel_known hwf hk.finalized t.finalizedRead
  change (verifyLabel t.unsafeRead (e.l2BlockRefByHash hashOf head) head >>= fun _ =>
    verifyLabel t.safeRead (e.l2BlockRefByHash hashOf safe) safe >>= fun _ =>
    verifyLabel t.finalizedRead (e.l2BlockRefByHash hashOf finalized) finalized) = .ok () ↔ _
  rw [h₁,h₂,h₃]
  unfold FcuTry.verifies
  cases t.unsafeRead <;> cases t.safeRead <;> cases t.finalizedRead <;> simp

/-- An update to known blocks is made once it is accepted, and succeeds if the tries settle. -/
theorem forkchoiceUpdateWithRetry_eq {e : Engine} (hwf : ∀ h p,e.known h = some p → hashOf p = h)
    (hk : Knows e head safe finalized) (tries : Nat → FcuTry) (left i : Nat) :
    ∃ result,forkchoiceUpdateWithRetry hashOf tries head safe finalized (left + 1) i e
        = (if (tries i).update.isNone then e.withLabels head safe finalized else e,result) ∧
      (result = .ok () ↔ settles tries (left + 1) i = true) := by
  unfold forkchoiceUpdateWithRetry settles
  cases hupd : (tries i).update with
  | some f => exact ⟨.error (.rejected f),by simp [answer],by simp⟩
  | none =>
    have hvf := verifyRewindState_iff hwf hk (tries i)
    simp only [answer,forkchoiceUpdated_eq hk,orFail_some,isNone_none,↓reduceIte,Bool.true_and]
    cases hv : verifyRewindState hashOf (e.withLabels head safe finalized) (tries i) head safe
        finalized with
    | ok u => exact ⟨.ok (),rfl,by simp [hvf.mp hv]⟩
    | error f =>
      have hnot : (tries i).verifies = false := by
        rw [hv] at hvf
        simpa using hvf
      match left with
      | 0 => exact ⟨.error (.headMismatch f),rfl,by simp [hnot]⟩
      | left+1 =>
        cases hwait : (tries i).wait with
        | some f' => exact ⟨.error (.interrupted f'),by simp,by simp [hnot]⟩
        | none =>
          obtain ⟨result,hres,hiff⟩ := @forkchoiceUpdateWithRetry_eq
            (e.withLabels head safe finalized) hwf ⟨hk.head,hk.safe,hk.finalized⟩ tries left (i + 1)
          refine ⟨result,?_,by simpa [hnot] using hiff⟩
          -- a later update to the same blocks changes nothing
          simp only [Nat.add_eq_zero_iff,Nat.succ_ne_self,and_false,↓reduceIte]
          rw [hres]
          split <;> rfl

end

def RewindCalls.prepares (c : RewindCalls) : Bool :=
  c.targetBlock.isNone && c.payload.isNone && c.insert.isNone && c.safeLabel.isNone &&
    c.finalizedLabel.isNone

def RewindCalls.moves (c : RewindCalls) : Bool := c.prepares && (c.synthetic 0).update.isNone

def RewindCalls.arrives (c : RewindCalls) : Bool :=
  c.moves && settles c.synthetic maxFCUAttempts 0 && (c.target 0).update.isNone

def RewindCalls.completes (c : RewindCalls) : Bool :=
  c.arrives && settles c.target maxFCUAttempts 0

def RewindCalls.strands (c : RewindCalls) : Bool := c.moves && !c.arrives

def lower (a b : Payload) : Payload := if a.number < b.number then a else b

theorem earliest_ref (a b : Payload) :
    earliest (a.ref hashOf) (b.ref hashOf) = (lower a b).ref hashOf := by
  exact (apply_ite (Payload.ref hashOf) (a.number < b.number) a b).symm

structure Stands (hashOf : Payload → Hash) (e : Engine) (n : UInt64) (p safe finalized : Payload) :
    Prop where
  wf : e.WellFormed hashOf
  canonical : e.payloadByNumber n = some p
  safe : e.known e.safeHead = some safe
  finalized : e.known e.finalizedHead = some finalized

theorem synthetic_number (p : Payload) : p.synthetic.number = p.number := rfl

section
variable {safe finalized parent : Payload} {cfg : Rollup.Config}

theorem blockAtTimestamp_eq (hn : cfg.targetBlockNumber timestamp = .ok n)
    (hp : e.payloadByNumber n = some p) : blockAtTimestamp hashOf (some cfg) e calls timestamp
      = (match calls.targetBlock with
        | some f => .error (.targetBlockNotFound f)
        | none => .ok (p.ref hashOf)) := by
  change ((cfg.targetBlockNumber timestamp).mapError _ >>= fun _ => _) = _
  rw [hn]
  change (answer calls.targetBlock (e.l2BlockRefByNumber hashOf n)).mapError _ = _
  rw [l2BlockRefByNumber,hp]
  cases calls.targetBlock <;> rfl

theorem insertSyntheticPayload_eq (hp : e.payloadByNumber n = some p) :
    insertSyntheticPayload hashOf e calls n = (match calls.payload,calls.insert with
        | some f,_ => .error (.payloadNotFound f)
        | none,some f => .error (.insertSyntheticFailed f)
        | none,none => .ok (e.newPayload hashOf p.synthetic,hashOf p.synthetic)) := by
  unfold insertSyntheticPayload
  rw [hp]
  cases calls.payload with
  | some f => rfl
  | none => cases calls.insert <;> rfl

theorem computeRewindTargets_eq (hsafe : e.known e.safeHead = some safe)
    (hfin : e.known e.finalizedHead = some finalized) (hle : ¬ p.number < finalized.number) :
    computeRewindTargets hashOf e calls (p.ref hashOf)
      = (match calls.safeLabel,calls.finalizedLabel with
        | some f,_ => .error (.computeTargetsFailed f)
        | none,some f => .error (.computeTargetsFailed f)
        | none,none => .ok ((lower safe p).ref hashOf,(lower finalized p).ref hashOf)) := by
  unfold computeRewindTargets
  rw [l2BlockRefByHash,l2BlockRefByHash,hsafe,hfin]
  cases calls.safeLabel with
  | some f => rfl
  | none =>
    cases calls.finalizedLabel with
    | some f => rfl
    | none =>
      have hover : ¬ (p.ref hashOf).number < (finalized.ref hashOf).number := hle
      simp [answer,Except.mapError,if_neg hover,earliest_ref]

variable (hn : cfg.targetBlockNumber timestamp = .ok n) (hs : Stands hashOf e n p safe finalized)
  (hle : ¬ n < finalized.number)
include hn hs hle

theorem rewindToTimestamp_prepared (hprep : calls.prepares = true) :
    rewindToTimestamp hashOf (some cfg) timestamp calls e =
      match forkchoiceUpdateWithRetry hashOf calls.synthetic (hashOf p.synthetic) p.parentHash
          p.parentHash maxFCUAttempts 0 (e.newPayload hashOf p.synthetic) with
      | (e,.error err) => (e,.error (.fcuSyntheticFailed err))
      | (e,.ok ()) =>
        match forkchoiceUpdateWithRetry hashOf calls.target (hashOf p) (hashOf (lower safe p))
            (hashOf (lower finalized p)) maxFCUAttempts 0 e with
        | (e,.error err) => (e,.error (.fcuTargetFailed err))
        | (e,.ok ()) => (e,.ok ()) := by
  simp only [prepares,Bool.and_eq_true,isNone_iff_eq_none] at hprep
  obtain ⟨⟨⟨⟨htgt,hpay⟩,hins⟩,hsf⟩,hfin⟩ := hprep
  have hnum : (p.ref hashOf).number = n := (hs.wf.canonical hs.canonical).1
  unfold rewindToTimestamp
  rw [blockAtTimestamp_eq hn hs.canonical,htgt]
  simp only
  rw [hnum,insertSyntheticPayload_eq hs.canonical,hpay,hins]
  simp only
  rw [computeRewindTargets_eq (newPayload_known hs.safe) (newPayload_known hs.finalized)
    (by rw [show p.number = n from hnum]; exact hle),hsf,hfin]
  rfl

theorem rewindToTimestamp_stays (hmoves : calls.moves = false) :
    ∃ e' err,rewindToTimestamp hashOf (some cfg) timestamp calls e = (e',.error err) ∧
      (e' = e ∨ e' = e.newPayload hashOf p.synthetic) := by
  by_cases hpr : calls.prepares = true
  · rw [rewindToTimestamp_prepared hn hs hle hpr]
    simp only [moves,hpr,Bool.true_and,isNone_eq_false_iff] at hmoves
    obtain ⟨f,hf⟩ := isSome_iff_exists.mp hmoves
    simp [maxFCUAttempts,forkchoiceUpdateWithRetry,hf,answer]
  have hnum : (p.ref hashOf).number = n := (hs.wf.canonical hs.canonical).1
  have hover : ¬ p.number < finalized.number := by
    rw [show p.number = n from hnum]
    exact hle
  unfold rewindToTimestamp
  rw [blockAtTimestamp_eq hn hs.canonical]
  cases htgt : calls.targetBlock with
  | some f => exact ⟨e,_,rfl,.inl rfl⟩
  | none =>
    simp only
    rw [hnum,insertSyntheticPayload_eq hs.canonical]
    cases hpay : calls.payload with
    | some f => exact ⟨e,_,rfl,.inl rfl⟩
    | none =>
      cases hins : calls.insert with
      | some f => exact ⟨e,_,rfl,.inl rfl⟩
      | none =>
        simp only
        rw [computeRewindTargets_eq (newPayload_known hs.safe) (newPayload_known hs.finalized)
          hover]
        cases hsf : calls.safeLabel with
        | some f => exact ⟨_,_,rfl,.inr rfl⟩
        | none =>
          cases hfin : calls.finalizedLabel with
          | some f => exact ⟨_,_,rfl,.inr rfl⟩
          | none => simp [prepares,htgt,hpay,hins,hsf,hfin] at hpr

variable (hparent : (e.known p.parentHash).isSome = true)
include hparent

theorem rewindToTimestamp_moves (hmoves : calls.moves = true) :
    ∃ result : Except FcuError Unit,rewindToTimestamp hashOf (some cfg) timestamp calls e =
      (match result with
      | .error err => ((e.newPayload hashOf p.synthetic).withLabels (hashOf p.synthetic)
          p.parentHash p.parentHash,.error (.fcuSyntheticFailed err))
      | .ok () =>
        match forkchoiceUpdateWithRetry hashOf calls.target (hashOf p) (hashOf (lower safe p))
            (hashOf (lower finalized p)) maxFCUAttempts 0 ((e.newPayload hashOf
              p.synthetic).withLabels (hashOf p.synthetic) p.parentHash p.parentHash) with
        | (e,.error err) => (e,.error (.fcuTargetFailed err))
        | (e,.ok ()) => (e,.ok ())) ∧
      (result = .ok () ↔ settles calls.synthetic maxFCUAttempts 0 = true) := by
  obtain ⟨hpr,hupd⟩ := Bool.and_eq_true_iff.mp hmoves
  have hwf : (e.newPayload hashOf p.synthetic).WellFormed hashOf :=
    hs.wf.newPayload (hs.wf.canonical hs.canonical).2 rfl rfl
  obtain ⟨result,hres,hiff⟩ := forkchoiceUpdateWithRetry_eq hwf.hash
    ⟨newPayload_self,newPayload_isSome hparent,newPayload_isSome hparent⟩ calls.synthetic 19 0
  rw [hupd] at hres
  refine ⟨result,?_,hiff⟩
  rw [rewindToTimestamp_prepared hn hs hle hpr]
  change (match forkchoiceUpdateWithRetry _ _ _ _ _ (19 + 1) 0 _ with
    | (e,.error err) => _
    | (e,.ok ()) => _) = _
  rw [hres]
  cases result <;> rfl

/-- An attempt that fails between the two updates leaves the head at the synthetic block and the
labels at the parent. -/
theorem rewindToTimestamp_strands (hstrands : calls.strands = true) :
    ∃ err,rewindToTimestamp hashOf (some cfg) timestamp calls e =
      ((e.newPayload hashOf p.synthetic).withLabels (hashOf p.synthetic) p.parentHash p.parentHash,
        .error err) := by
  simp only [strands,Bool.and_eq_true,Bool.not_eq_true'] at hstrands
  obtain ⟨hmvs,hnot⟩ := hstrands
  obtain ⟨result,hres,hiff⟩ := rewindToTimestamp_moves hn hs hle hparent hmvs
  rw [hres]
  cases result with
  | error err => exact ⟨_,rfl⟩
  | ok u =>
    simp only [arrives,hmvs,hiff.mp rfl,Bool.true_and,isNone_eq_false_iff] at hnot
    obtain ⟨f,hf⟩ := isSome_iff_exists.mp hnot
    simp [maxFCUAttempts,forkchoiceUpdateWithRetry,hf,answer]

theorem rewindToTimestamp_arrives (harrives : calls.arrives = true) :
    ∃ result,rewindToTimestamp hashOf (some cfg) timestamp calls e =
      ((e.newPayload hashOf p.synthetic).withLabels (hashOf p) (hashOf (lower safe p))
        (hashOf (lower finalized p)),result) ∧
      (result = .ok () ↔ calls.completes = true) := by
  simp only [arrives,Bool.and_eq_true] at harrives
  obtain ⟨⟨hmvs,hsettles⟩,hupd⟩ := harrives
  obtain ⟨result,hres,hiff⟩ := rewindToTimestamp_moves hn hs hle hparent hmvs
  cases hiff.mpr hsettles
  have hp := (hs.wf.canonical hs.canonical).2
  have hwf : (e.newPayload hashOf p.synthetic).WellFormed hashOf := hs.wf.newPayload hp rfl rfl
  have hlw : ∀ q h,e.known h = some q →
      ((e.newPayload hashOf p.synthetic).known (hashOf (lower q p))).isSome = true := by
    intro q h hq
    refine newPayload_isSome ?_
    unfold lower
    split
    · simp [hs.wf.known_hash hq]
    · simp [hp]
  obtain ⟨result,hsec,hiff'⟩ := @forkchoiceUpdateWithRetry_eq hashOf
    (hashOf p) (hashOf (lower safe p)) (hashOf (lower finalized p))
    ((e.newPayload hashOf p.synthetic).withLabels (hashOf p.synthetic) p.parentHash p.parentHash)
    hwf.hash
    ⟨newPayload_isSome (by simp [hp]),hlw safe _ hs.safe,hlw finalized _ hs.finalized⟩
    calls.target 19 0
  rw [hupd] at hsec
  refine ⟨result.mapError .fcuTargetFailed,?_,?_⟩
  · rw [hres]
    change (match forkchoiceUpdateWithRetry _ _ _ _ _ (19 + 1) 0 _ with
      | (e,.error err) => _
      | (e,.ok ()) => _) = _
    rw [hsec]
    cases result <;> rfl
  · have hcompletes : calls.completes = settles calls.target maxFCUAttempts 0 := by
      simp [completes,arrives,hmvs,hsettles,hupd]
    rw [hcompletes,show maxFCUAttempts = 19 + 1 from rfl,← hiff']
    cases result <;> simp [Except.mapError]

end

/-! What holds after an attempt of any engine, whether it failed or not. -/

/-- The updates only move the labels, to known blocks, and without an error to the given head. -/
theorem forkchoiceUpdateWithRetry_keeps {head safe finalized : Hash} {tries : Nat → FcuTry}
    {left i : Nat} {r : Except FcuError Unit} (hwf : e.WellFormed hashOf)
    (hres : forkchoiceUpdateWithRetry hashOf tries head safe finalized left i e = (e',r)) :
    e'.WellFormed hashOf ∧ e'.known = e.known ∧ (left ≠ 0 → r = .ok () → e'.unsafeHead = head) := by
  induction left generalizing e i with
  | zero =>
    cases hres
    exact ⟨hwf,rfl,fun h => absurd rfl h⟩
  | succ left ih =>
    unfold forkchoiceUpdateWithRetry at hres
    split at hres
    · cases hres
      exact ⟨hwf,rfl,nofun⟩
    rename_i e₁ han
    have hupd := (answer_ok han).2
    unfold forkchoiceUpdated at hupd
    split at hupd
    · rename_i hkn
      cases hupd
      have hwf₁ : (e.withLabels head safe finalized).WellFormed hashOf :=
        ⟨hwf.hash,hwf.parent,hkn.1,hkn.2.1,hkn.2.2⟩
      split at hres
      · cases hres
        exact ⟨hwf₁,rfl,fun _ _ => rfl⟩
      split at hres
      · cases hres
        exact ⟨hwf₁,rfl,nofun⟩
      rename_i hlf
      split at hres
      · cases hres
        exact ⟨hwf₁,rfl,nofun⟩
      · obtain ⟨hwf',hkn',hhd⟩ := ih hwf₁ hres
        exact ⟨hwf',hkn',fun _ => hhd hlf⟩
    · cases hupd

theorem insertSyntheticPayload_keeps {h : Hash}
    (hwf : e.WellFormed hashOf) (hres : insertSyntheticPayload hashOf e calls n = .ok (e',h)) :
    e'.WellFormed hashOf ∧ ∀ h p,e.known h = some p → e'.known h = some p := by
  obtain ⟨p,hp,hrs⟩ := of_bind_ok hres
  have hkn := (hwf.canonical (answer_ok (of_mapError_ok hp)).2).2
  cases hins : calls.insert with
  | some f => simp [hins] at hrs
  | none =>
    rw [hins] at hrs
    cases hrs
    exact ⟨hwf.newPayload hkn rfl rfl,fun _ _ h => newPayload_known h⟩

theorem blockAtTimestamp_ok {target : L2BlockRef}
    (hres : blockAtTimestamp hashOf cfg e calls timestamp = .ok target) :
    ∃ cfg' n p,cfg = some cfg' ∧ cfg'.targetBlockNumber timestamp = .ok n ∧
      e.payloadByNumber n = some p ∧ target = p.ref hashOf := by
  obtain ⟨cfg',hcfg,hrs⟩ := of_bind_ok hres
  obtain ⟨n,hn,hrd⟩ := of_bind_ok hrs
  obtain ⟨p,hp,href⟩ := map_eq_some_iff.mp (answer_ok (of_mapError_ok hrd)).2
  exact ⟨cfg',n,p,of_orFail_ok hcfg,of_mapError_ok hn,hp,href.symm⟩

/-- An attempt keeps the engine well formed, and without an error its head is at the number of the
timestamp. -/
theorem rewindToTimestamp_keeps {r : Except RewindError Unit} (hwf : e.WellFormed hashOf)
    (hres : rewindToTimestamp hashOf cfg timestamp calls e = (e',r)) :
    e'.WellFormed hashOf ∧ (r = .ok () → ∃ cfg' p,cfg = some cfg' ∧
      e'.known e'.unsafeHead = some p ∧ cfg'.targetBlockNumber timestamp = .ok p.number) := by
  unfold rewindToTimestamp at hres
  split at hres
  · cases hres
    exact ⟨hwf,nofun⟩
  rename_i target htgt
  split at hres
  · cases hres
    exact ⟨hwf,nofun⟩
  rename_i e₁ syntheticHash hins
  obtain ⟨hwf₁,hkeeps⟩ := insertSyntheticPayload_keeps hwf hins
  split at hres
  · cases hres
    exact ⟨hwf₁,nofun⟩
  split at hres
  · rename_i hfst
    cases hres
    exact ⟨(forkchoiceUpdateWithRetry_keeps hwf₁ hfst).1,nofun⟩
  rename_i e₂ hfst
  obtain ⟨hwf₂,hkn₂,_⟩ := forkchoiceUpdateWithRetry_keeps hwf₁ hfst
  split at hres
  · rename_i hsec
    cases hres
    exact ⟨(forkchoiceUpdateWithRetry_keeps hwf₂ hsec).1,nofun⟩
  rename_i hsec
  cases hres
  obtain ⟨hwf₃,hkn₃,hhd⟩ := forkchoiceUpdateWithRetry_keeps hwf₂ hsec
  refine ⟨hwf₃,fun _ => ?_⟩
  obtain ⟨cfg',n,p,hcfg,hn,hp,rfl⟩ := blockAtTimestamp_ok htgt
  obtain ⟨rfl,hkn⟩ := hwf.canonical hp
  refine ⟨cfg',p,hcfg,?_,hn⟩
  rw [hkn₃,hkn₂,hhd (by decide) rfl]
  exact hkeeps _ _ hkn

end OpStack.Supernode
