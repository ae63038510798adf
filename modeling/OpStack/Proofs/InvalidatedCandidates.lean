import OpStack.Supervisor.CrossSafeUpdate

namespace OpStack.Supervisor
open Lib Eth Interop Interleaving List Dialogue

/-! The writes of a cross-safe update, and the validity of what it has read. -/

namespace Interleaving
variable {α β : Type} (i : Interleaving) (x : Acting α) (f : α → Acting β) (w : World)

def trace (x : Acting α) (w : World) : List Step := (x.play i.act w).1

def result (x : Acting α) (w : World) : α := (x.play i.act w).2.1

def after (x : Acting α) (w : World) : World := (x.play i.act w).2.2

theorem trace_bind :
    i.trace (x >>= f) w = i.trace x w ++ i.trace (f (i.result x w)) (i.after x w) := by
  unfold trace
  rw [Dialogue.play_bind]
  rfl

theorem result_bind : i.result (x >>= f) w = i.result (f (i.result x w)) (i.after x w) := by
  unfold result
  rw [Dialogue.play_bind]
  rfl

theorem after_bind : i.after (x >>= f) w = i.after (f (i.result x w)) (i.after x w) := by
  unfold after
  rw [Dialogue.play_bind]
  rfl

end Interleaving

/-- At each write the handle was valid at the last check, and nothing was read since. -/
def WritesOnValidReads (armed : Bool) (trace : List Step) : Prop :=
  ∀ pre step post,trace = pre ++ step :: post → step.isWrite = true →
    pre.foldl stillValid armed = true

theorem writesOnValidReads_nil (armed : Bool) : WritesOnValidReads armed [] := by
  intro pre step post h
  simp at h

variable {armed : Bool} {trace : List Step}

theorem writesOnValidReads_cons {step : Step} : WritesOnValidReads armed (step::trace) ↔
    (step.isWrite = true → armed = true) ∧ WritesOnValidReads (stillValid armed step) trace := by
  constructor
  · intro h
    refine ⟨h [] step trace rfl,?_⟩
    intro pre step' post heq hwr
    exact h (step::pre) step' post (by rw [heq,cons_append]) hwr
  rintro ⟨hst,hrs⟩ pre step' post heq hwr
  cases pre with
  | nil =>
    cases heq
    exact hst hwr
  | cons s pre =>
    rw [cons_append,cons.injEq] at heq
    rw [heq.1] at hrs
    exact hrs pre step' post heq.2 hwr

theorem writesOnValidReads_append {trace' : List Step} :
    WritesOnValidReads armed (trace ++ trace') ↔ WritesOnValidReads armed trace ∧
        WritesOnValidReads (trace.foldl stillValid armed) trace' := by
  induction trace generalizing armed with
  | nil => simp [writesOnValidReads_nil]
  | cons step trace ih => simp [writesOnValidReads_cons,writesOnValidReads_cons,ih,and_assoc]

def Reads (trace : List Step) : Prop :=
  ∀ step ∈ trace,step.isWrite = false ∧ stillValid false step = false

theorem Reads.not_valid (h : Reads trace) : trace.foldl stillValid false = false := by
  induction trace with
  | nil => rfl
  | cons step trace ih =>
    rw [foldl_cons,(h step mem_cons_self).2]
    exact ih fun step' hst' => h step' (mem_cons_of_mem _ hst')

theorem Reads.no_writes (h : Reads trace) (armed : Bool) : WritesOnValidReads armed trace := by
  intro pre step post heq hwr
  simp [(h step (by rw [heq]; simp)).1] at hwr

section
variable (i : Interleaving)

theorem reads_trace {α : Type} (x : Dialogue Query Query.Answer α) :
    (Acting.reads x).Throughout i.act fun (step : Step) =>
      step.isWrite = false ∧ stillValid false step = false := by
  induction x with
  | done a => exact .pure a
  | ask q next ih => exact .ask (fun _ => ⟨rfl,rfl⟩) ih

variable (linker : FullConfigSet) (orders : Orders) (chainID : ChainID)

theorem scopedCrossSafeReads_trace (w : World) :
    Reads (i.trace (scopedCrossSafeReads linker orders chainID) w) := by
  refine Dialogue.Throughout.bind (.ask (fun _ => ⟨rfl,rfl⟩) .pure) ?_ w
  rintro ⟨candidate,err⟩
  cases err with
  | some e => exact .pure _
  | none =>
    refine .bind (.ask (fun _ => ⟨rfl,rfl⟩) .pure) fun _ =>
      .bind (.ask (fun _ => ⟨rfl,rfl⟩) .pure) fun _ => .bind (reads_trace i _) fun result => ?_
    cases result with
    | error e => exact .pure _
    | ok _ => exact .pure _

variable {i linker orders chainID} {α β : Type} {armed : Bool} {Q : α → Bool → Prop}
  {err : Option DBError} (candidate : DerivedBlockRefPair)

/-- Each write of the actions follows a check, if they begin after one as `armed` says. -/
def Guarded (i : Interleaving) (armed : Bool) (x : Acting α) (Q : α → Bool → Prop) : Prop :=
  ∀ w,WritesOnValidReads armed (i.trace x w) ∧
    Q (i.result x w) ((i.trace x w).foldl stillValid armed)

theorem Guarded.pure {a : α} (h : Q a armed) : Guarded i armed (Pure.pure a) Q :=
  fun _ => ⟨writesOnValidReads_nil armed,h⟩

theorem Guarded.bind {R : β → Bool → Prop} {x : Acting α}
    {f : α → Acting β} (hx : Guarded i armed x Q)
    (hf : ∀ a armed',Q a armed' → Guarded i armed' (f a) R) : Guarded i armed (x >>= f) R := by
  intro w
  obtain ⟨hwrites,hQ⟩ := hx w
  obtain ⟨hwrites',hR⟩ := hf _ _ hQ (i.after x w)
  rw [trace_bind,result_bind,foldl_append]
  exact ⟨writesOnValidReads_append.mpr ⟨hwrites,hwrites'⟩,hR⟩

theorem Guarded.ask {a : Action} {Q : a.Reply → Bool → Prop}
    (hwrite : ∀ r,Step.isWrite ⟨a,r⟩ = true → armed = true)
    (h : ∀ r,Q r (stillValid armed ⟨a,r⟩)) : Guarded i armed (.ask a .done) Q := by
  intro w
  refine ⟨writesOnValidReads_cons.mpr ⟨hwrite _,writesOnValidReads_nil _⟩,?_⟩
  exact h _

theorem Guarded.read (q : Query) :
    @Guarded q.Answer i armed (.ask (.read q) .done) fun _ _ => True :=
  .ask (fun _ h => (by cases h)) fun _ => trivial

theorem Guarded.isValid : Guarded i armed .isValid fun valid armed => armed = valid :=
  .ask (fun _ h => (by cases h)) fun _ => rfl

theorem Guarded.updateCrossSafe (chain : ChainID) (l1View derived : BlockRef) :
    Guarded i true (.updateCrossSafe chain l1View derived) fun _ armed => armed = true :=
  .ask (fun _ _ => rfl) fun _ => rfl

/-- The write that comes with a larger scope follows a check of its own. -/
theorem guarded_bumpScope : Guarded i armed (bumpScope chainID candidate) fun _ _ => True := by
  apply Guarded.bind (Q := fun _ _ => True)
  · exact .ask (fun _ h => (by cases h)) fun _ => trivial
  intro _ _ _
  apply Guarded.bind (Guarded.read _)
  intro newScope _ _
  cases newScope with
  | error e => exact .pure trivial
  | ok newScope =>
    apply Guarded.bind (Guarded.read _)
    intro current _ _
    cases current with
    | error e => exact .pure trivial
    | ok current =>
      apply Guarded.bind (Guarded.read _)
      intro parent _ _
      cases parent with
      | error e => exact .pure trivial
      | ok parent =>
        dsimp only
        cases withParent current.derived parent with
        | none => exact .pure trivial
        | some crossSafeRef =>
          apply Guarded.bind Guarded.isValid
          intro valid armed' hva
          cases valid with
          | false => exact .pure trivial
          | true =>
            rw [hva]
            apply Guarded.bind (Guarded.updateCrossSafe _ _ _)
            intro _ _ _
            exact .pure trivial

theorem guarded_conclude (h : err = some .conflict → armed = true) :
    Guarded i armed (conclude chainID candidate err) fun _ _ => True := by
  cases err with
  | none =>
    apply Guarded.bind Guarded.isValid
    intro _ _ _
    exact .pure trivial
  | some e =>
    cases e with
    | conflict =>
      apply Guarded.bind (Q := fun _ _ => True)
      · exact .ask (fun _ _ => h rfl) fun _ => trivial
      intro _ _ _
      exact .pure trivial
    | outOfScope =>
      change Guarded i armed (if _ then _ else _) _
      split
      · exact .pure trivial
      · exact guarded_bumpScope candidate
    | future => exact .pure trivial
    | awaitReplacementBlock => exact .pure trivial
    | other => exact .pure trivial

/-- A promotion that fails comes after the check, so what follows is still decided from it. -/
theorem guarded_promote
    (h : err ≠ some .conflict) : Guarded i armed (promote chainID candidate err) fun r armed =>
      r.2 = some .conflict → armed = true := by
  cases err with
  | some e => exact .pure fun heq => absurd heq h
  | none =>
    apply Guarded.bind Guarded.isValid
    intro valid armed' hva
    cases valid with
    | false => exact .pure fun heq => (by cases heq)
    | true =>
      rw [hva]
      apply Guarded.bind (Guarded.updateCrossSafe _ _ _)
      intro _ _ harmed
      exact .pure fun _ => harmed

/-- What is written is decided from reads that were valid, unless they show a conflict. -/
theorem crossSafeUpdate_writes_iff (i : Interleaving) (linker : FullConfigSet) (orders : Orders)
    (chainID : ChainID) (w : World) :
    WritesOnValidReads false (i.trace (crossSafeUpdate linker orders chainID) w) ↔
      (i.result (scopedCrossSafeReads linker orders chainID) w).2 ≠ some .conflict := by
  have hrds := scopedCrossSafeReads_trace i linker orders chainID w
  unfold crossSafeUpdate scopedCrossSafeUpdate
  rw [trace_bind,trace_bind,result_bind,
    after_bind,append_assoc,writesOnValidReads_append,hrds.not_valid]
  generalize i.result (scopedCrossSafeReads linker orders chainID) w = r
  generalize i.after (scopedCrossSafeReads linker orders chainID) w = w'
  constructor
  · rintro ⟨_,h⟩ hcfl
    rw [hcfl] at h
    have hwr := h [] ⟨.invalidateLocalSafe chainID r.1,_⟩ [] rfl rfl
    cases hwr
  intro h
  refine ⟨hrds.no_writes _,?_⟩
  have hguard : Guarded i false (promote chainID r.1 r.2 >>= fun r => conclude chainID r.1 r.2)
      fun _ _ => True := by
    apply Guarded.bind (guarded_promote r.1 h)
    intro r' armed' hr'
    exact guarded_conclude r'.1 hr'
  have hwrites := (hguard w').1
  rwa [trace_bind] at hwrites

end

/-! A chain is rewound between two reads. -/

def pendingCandidate : DerivedBlockRefPair :=
  ⟨⟨.fill 32 7,7,.fill 32 6,70⟩,⟨.fill 32 10,10,.fill 32 9,20⟩⟩

/-- The tenth block of the first chain executes a message of the second chain, which is there unless
that chain is rewound. -/
def relayDatabases (rewound : Bool) : Databases where
  answer
    | .contains _ _ => if rewound then .error .conflict else .ok (.fill 32 8)
    | .crossDerivedToSource _ _ => .ok ⟨.fill 32 6,6,60⟩
    | .openBlock _ _ => .ok (⟨.fill 32 10,10,.fill 32 9,20⟩,1,[(0,⟨2,9,0,18,.fill 32 1⟩)])
    | .candidateCrossSafe _ => (pendingCandidate,none)
    | .nextSource _ _ => .error .future
    | .crossSafe _ => .error .future
    | .previousCrossDerived _ _ => .error .future

def relayLinker : FullConfigSet := ⟨[(1,⟨2,some 0⟩),(2,⟨2,some 0⟩)],3600⟩

def rewindBeforeLookup : Interleaving where
  events tick :=
    if tick = 4 then [.tryInvalidate [.derived 18],.change (relayDatabases true),.release] else []
  writes _ := none

/-- The candidate is invalidated without a check, and the handle is not valid any more. -/
theorem rewound_read_invalidates :
    ∃ pre,rewindBeforeLookup.trace (crossSafeUpdate relayLinker Orders.stored 1)
        (.acquireHandle none (relayDatabases false))
        = pre ++ [⟨.invalidateLocalSafe 1 pendingCandidate,none⟩] ∧
      pre.foldl stillValid false = false ∧
      (rewindBeforeLookup.after (crossSafeUpdate relayLinker Orders.stored 1)
        (.acquireHandle none (relayDatabases false))).handle.isValid = false :=
  ⟨(rewindBeforeLookup.trace (crossSafeUpdate relayLinker Orders.stored 1)
    (.acquireHandle none (relayDatabases false))).take 5,rfl,rfl,rfl⟩

/-! Which blocks a cross-safe update invalidates, whatever its dependencies answer. -/

section
variable {σ : Type} (act : (a : Action) → σ → a.Reply × σ) (linker : FullConfigSet)
  (orders : Orders) (chainID : ChainID) (s : σ)

def calls {α : Type} (x : Acting α) (s : σ) : List Step := (x.play act s).1

def determined : DerivedBlockRefPair × Option DBError :=
  (act (.read (.candidateCrossSafe chainID)) s).1

def checked (candidate : DerivedBlockRefPair) : Except DBError Unit × σ :=
  let s := (act (.read (.candidateCrossSafe chainID)) s).2
  let s := (act (.dependOnSourceBlock candidate.source.number) s).2
  let s := (act (.dependOnDerivedTime candidate.derived.time) s).2
  ((Acting.reads (crossSafeChecks linker orders chainID candidate).run).play act s).2

def promoted (candidate : DerivedBlockRefPair) : Option DBError :=
  let s := (checked act linker orders chainID s candidate).2
  bif (act .isValid s).1 then
    (act (.updateCrossSafe chainID candidate.source candidate.derived) (act .isValid s).2).1
  else none

/-- Only a candidate that fails the checks with a conflict is invalidated. -/
def InvalidatesOnConflict : Prop :=
  ∀ chain pair r,⟨.invalidateLocalSafe chain pair,r⟩ ∈
      calls act (crossSafeUpdate linker orders chainID) s →
    chain = chainID ∧ determined act chainID s = (pair,none) ∧
      (checked act linker orders chainID s pair).1 = .error .conflict

variable {act linker orders chainID s} {α β : Type} {x : Acting α} {f : α → Acting β}
  {chain : ChainID} {pair : DerivedBlockRefPair} {r : Option DBError}

theorem mem_calls_bind {step : Step} : step ∈ calls act (x >>= f) s ↔ step ∈ calls act x s ∨
      step ∈ calls act (f (x.play act s).2.1) (x.play act s).2.2 := by
  simp [calls,play_bind]

def Quiet (act : (a : Action) → σ → a.Reply × σ) (x : Acting α) : Prop :=
  x.Throughout act fun step => ∀ chain pair,step.1 ≠ .invalidateLocalSafe chain pair

theorem Quiet.not_mem (hx : Quiet act x) : ⟨.invalidateLocalSafe chain pair,r⟩ ∉ calls act x s :=
  fun h => hx s _ h chain pair rfl

theorem Quiet.reads (x : Dialogue Query Query.Answer α) : Quiet act (.reads x) := by
  induction x with
  | done a => exact .pure a
  | ask q next ih => exact .ask (by simp) ih

theorem bumpScope_quiet (candidate : DerivedBlockRefPair) :
    Quiet act (bumpScope chainID candidate) := by
  refine .bind (.ask (by simp) .pure) fun _ => .bind (.ask (by simp) .pure) fun newScope => ?_
  cases newScope with
  | error e => exact .pure _
  | ok newScope =>
    refine .bind (.ask (by simp) .pure) fun current => ?_
    cases current with
    | error e => exact .pure _
    | ok current =>
      refine .bind (.ask (by simp) .pure) fun parent => ?_
      cases parent with
      | error e => exact .pure _
      | ok parent =>
        dsimp only
        split
        · exact .pure _
        refine .bind (.ask (by simp) .pure) fun valid => ?_
        split
        · exact .bind (.ask (by simp) .pure) fun _ => .pure _
        · exact .pure _

theorem scopedCrossSafeUpdate_quiet : Quiet act (scopedCrossSafeUpdate linker orders chainID) := by
  refine .bind (.bind (.ask (by simp) .pure) fun answer => ?_) fun answer => ?_
  · obtain ⟨candidate,err⟩ := answer
    cases err with
    | some e => exact .pure _
    | none =>
      refine .bind (.ask (by simp) .pure) fun _ => .bind (.ask (by simp) .pure) fun _ =>
        .bind (Quiet.reads _) fun result => ?_
      cases result with
      | error e => exact .pure _
      | ok _ => exact .pure _
  · obtain ⟨candidate,err⟩ := answer
    cases err with
    | some e => exact .pure _
    | none =>
      refine .bind (.ask (by simp) .pure) fun valid => ?_
      split
      · exact .bind (.ask (by simp) .pure) fun _ => .pure _
      · exact .pure _

theorem conclude_invalidates {candidate : DerivedBlockRefPair} {err : Option DBError} {s : σ} :
    (∃ r,⟨.invalidateLocalSafe chain pair,r⟩ ∈ calls act (conclude chainID candidate err) s) ↔
      err = some .conflict ∧ chain = chainID ∧ pair = candidate := by
  have hqu : ∀ {x : Acting (Option UpdateError)},Quiet act x → err ≠ some .conflict →
      ((∃ r,⟨.invalidateLocalSafe chain pair,r⟩ ∈ calls act x s) ↔
        err = some .conflict ∧ chain = chainID ∧ pair = candidate) := by
    intro x hx herr
    exact iff_of_false (fun ⟨_,h⟩ => hx.not_mem h) (fun h => herr h.1)
  unfold conclude
  split
  · exact hqu (.bind (.ask (by simp) .pure) fun _ => .pure _) nofun
  · constructor
    · rintro ⟨r,h⟩
      obtain h | h := mem_calls_bind.mp h
      · cases List.mem_singleton.mp h
        exact ⟨rfl,rfl,rfl⟩
      · exact absurd h List.not_mem_nil
    · rintro ⟨-,rfl,rfl⟩
      exact ⟨_,mem_calls_bind.mpr (.inl List.mem_cons_self)⟩
  · split
    · exact hqu (.pure _) nofun
    · exact hqu (bumpScope_quiet candidate) nofun
  · rename_i hne _
    exact hqu (.pure _) fun h => hne (Option.some.inj h)

theorem scopedCrossSafeUpdate_result :
    ((scopedCrossSafeUpdate linker orders chainID).play act s).2.1 =
      match determined act chainID s with
      | (pair,some e) => (pair,some e)
      | (pair,none) =>
        match checked act linker orders chainID s pair with
        | (.error e,_) => (pair,some e)
        | (.ok _,s') =>
          bif (act .isValid s').1 then (pair,promoted act linker orders chainID s pair)
          else (⟨L1BlockRef.zero,L1BlockRef.zero⟩,none) := by
  unfold scopedCrossSafeUpdate scopedCrossSafeReads promoted checked determined
  rw [play_bind,play_bind]
  simp only [Acting.candidateCrossSafe,play]
  generalize act (.read (.candidateCrossSafe chainID)) s = q
  obtain ⟨⟨pair,err⟩,s₁⟩ := q
  cases err with
  | some e => rfl
  | none =>
    simp only [play_bind,Acting.dependOnSourceBlock,Acting.dependOnDerivedTime,play]
    generalize (Acting.reads (crossSafeChecks linker orders chainID pair).run).play act _ = r
    obtain ⟨-,result,s₂⟩ := r
    cases result with
    | error e => rfl
    | ok _ =>
      obtain ⟨⟨valid,s₃⟩,hva⟩ : ∃ v : Bool × σ,act .isValid s₂ = v := ⟨_,rfl⟩
      cases valid with
      | false => simp [pure,play,promote,play_bind,Acting.isValid,hva]
      | true =>
        simp only [pure,play,promote,play_bind,Acting.isValid,hva]
        rfl

/-- Exactly a conflict in determining the candidate, or in promoting one that has passed, leads to
another invalidation. -/
theorem invalidates_on_conflict_iff : InvalidatesOnConflict act linker orders chainID s ↔
      (determined act chainID s).2 ≠ some .conflict ∧
        ∀ pair,determined act chainID s = (pair,none) →
          (checked act linker orders chainID s pair).1 = .ok () →
            promoted act linker orders chainID s pair ≠ some .conflict := by
  have hcalls : ∀ chain pair,(∃ r,⟨.invalidateLocalSafe chain pair,r⟩ ∈
      calls act (crossSafeUpdate linker orders chainID) s) ↔ chain = chainID ∧
          ((scopedCrossSafeUpdate linker orders chainID).play act s).2.1 = (pair,some .conflict) := by
    intro chain pair
    have hqu : ∀ r,⟨.invalidateLocalSafe chain pair,r⟩ ∉
        calls act (scopedCrossSafeUpdate linker orders chainID) s :=
      fun _ => scopedCrossSafeUpdate_quiet.not_mem
    simp only [crossSafeUpdate,mem_calls_bind,hqu,false_or]
    rw [conclude_invalidates,Prod.ext_iff]
    constructor
    · rintro ⟨herr,rfl,rfl⟩
      exact ⟨rfl,rfl,herr⟩
    · rintro ⟨rfl,rfl,herr⟩
      exact ⟨herr,rfl,rfl⟩
  unfold InvalidatesOnConflict
  obtain ⟨⟨candidate,err⟩,hd⟩ : ∃ d,determined act chainID s = d := ⟨_,rfl⟩
  simp only [scopedCrossSafeUpdate_result,hd] at hcalls ⊢
  cases err with
  | some e =>
    constructor
    · intro h
      refine ⟨?_,nofun⟩
      intro he
      obtain ⟨r,hr⟩ := (hcalls chainID candidate).mpr ⟨rfl,by rw [he]⟩
      cases (h _ _ _ hr).2.1
    · rintro ⟨hne,-⟩ chain pair r hr
      cases ((hcalls chain pair).mp ⟨r,hr⟩).2
      exact absurd rfl hne
  | none =>
    obtain ⟨⟨result,s'⟩,hc⟩ : ∃ c,checked act linker orders chainID s candidate = c := ⟨_,rfl⟩
    simp only [hc] at hcalls
    cases result with
    | error e =>
      refine iff_of_true ?_ ⟨nofun,?_⟩
      · intro chain pair r hr
        obtain ⟨rfl,hres⟩ := (hcalls chain pair).mp ⟨r,hr⟩
        cases hres
        exact ⟨rfl,rfl,by rw [hc]⟩
      · rintro pair ⟨⟩ hok
        simp [hc] at hok
    | ok _ =>
      have hpromoted : ∀ chain pair,(∃ r,⟨.invalidateLocalSafe chain pair,r⟩ ∈
          calls act (crossSafeUpdate linker orders chainID) s) ↔ chain = chainID ∧
            candidate = pair ∧ promoted act linker orders chainID s candidate = some .conflict := by
        intro chain pair
        rw [hcalls]
        obtain ⟨⟨valid,_⟩,hva⟩ : ∃ v : Bool × σ,act .isValid s' = v := ⟨_,rfl⟩
        cases valid with
        | false =>
          have hnone : promoted act linker orders chainID s candidate = none := by
            simp only [promoted,hc,hva]
            rfl
          simp [hnone,hva]
        | true => simp [hva]
      constructor
      · intro h
        refine ⟨nofun,?_⟩
        rintro pair ⟨⟩ hok hcfl
        obtain ⟨r,hr⟩ := (hpromoted chainID candidate).mpr ⟨rfl,rfl,hcfl⟩
        have her := (h _ _ _ hr).2.2
        simp [hok] at her
      · rintro ⟨-,hno⟩ chain pair r hr
        obtain ⟨-,rfl,hcfl⟩ := (hpromoted chain pair).mp ⟨r,hr⟩
        exact absurd hcfl (hno candidate rfl (by rw [hc]))

end

def refusedWrites : Interleaving := ⟨fun _ => [],fun _ => some .conflict⟩

/-- The candidate has passed, and is invalidated because its promotion is refused. -/
theorem refused_promotion_invalidates : let w := World.acquireHandle none (relayDatabases false)
    determined refusedWrites.act 1 w = (pendingCandidate,none) ∧
      (checked refusedWrites.act relayLinker Orders.stored 1 w pendingCandidate).1 = .ok () ∧
      ⟨.invalidateLocalSafe 1 pendingCandidate,some .conflict⟩ ∈
        calls refusedWrites.act (crossSafeUpdate relayLinker Orders.stored 1) w ∧
      ¬ InvalidatesOnConflict refusedWrites.act relayLinker Orders.stored 1 w := by
  intro w
  have hok : (checked refusedWrites.act relayLinker Orders.stored 1 w pendingCandidate).1 =
      .ok () := rfl
  have hca : ⟨.invalidateLocalSafe 1 pendingCandidate,some .conflict⟩ ∈
      calls refusedWrites.act (crossSafeUpdate relayLinker Orders.stored 1) w :=
    List.mem_of_getLast? rfl
  refine ⟨rfl,hok,hca,?_⟩
  intro h
  have her := (h _ _ _ hca).2.2
  cases her

end OpStack.Supervisor
