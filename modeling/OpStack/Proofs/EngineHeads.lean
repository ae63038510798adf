import OpStack.Engine.EngineController
import OpStack.Proofs.Config

namespace OpStack.Proofs.EngineHeads
open Eth Engine Lib Config EngineController Ends

/-- The heads that a controller keeps: the ones it reports are among them, unless a super
authority decides. -/
structure Heads where
  unsafeHead : L2BlockRef
  localSafe : L2BlockRef
  crossSafe : L2BlockRef
  localFinalized : L2BlockRef
  crossFinalized : L2BlockRef
  deriving DecidableEq

abbrev headsOf (e : EngineController) : Heads where
  unsafeHead := e.unsafeHead
  localSafe := e.localSafeHead
  crossSafe := e.deprecatedSafeHead
  localFinalized := e.localFinalizedHead
  crossFinalized := e.deprecatedFinalizedHead

/-- The controller follows a source, and no super authority decides. -/
structure Following (e : EngineController) : Prop where
  authority : e.superAuthority = none
  source : e.syncCfg.followSourceEnabled = true

structure Moved (h : Heads) (e : EngineController) : Prop where
  heads : headsOf e = h
  following : Following e

theorem Moved.emitError {h : Heads} {e : EngineController} (hm : Moved h e) (err : EngineError) :
    Moved h (e.emitError err) := by
  obtain ⟨hh,ha,hs⟩ := hm
  unfold EngineController.emitError
  split <;> exact ⟨hh,ha,hs⟩

/-- References in order, of which the local-safe one is not the zero reference, which stands for a
head that is not set. -/
structure ExternalRefs where
  safe : L2BlockRef
  localSafe : L2BlockRef
  finalized : L2BlockRef
  finalized_le_safe : finalized.number ≤ safe.number
  safe_le_localSafe : safe.number ≤ localSafe.number
  localSafe_set : localSafe ≠ .zero

def raise (head ref : L2BlockRef) : L2BlockRef := if head.number < ref.number then ref else head

/-- A head that is not set is loaded from a label of the engine. -/
def loaded (head : L2BlockRef) (label : Fetched L2BlockRef) (missing : Option L2BlockRef) :
    Option L2BlockRef :=
  if head ≠ .zero then some head
  else
    match label with
    | .found ref => some ref
    | .notFound => missing
    | .failed => none

/-- What stands in for a safe label that the engine does not have: the finalized head, if that was
not set either. -/
def standIn (head finalized : L2BlockRef) : L2BlockRef :=
  if head ≠ .zero then .zero else finalized

/-! What the heads become, in terms of the heads alone. -/

namespace Heads

structure InOrder (h : Heads) : Prop where
  finalized_le_safe : h.crossFinalized.number ≤ h.crossSafe.number
  safe_le_localSafe : h.crossSafe.number ≤ h.localSafe.number
  localSafe_le_unsafe : h.localSafe.number ≤ h.unsafeHead.number

def raiseLocal (h : Heads) (ref : L2BlockRef) : Heads :=
  { h with localSafe := raise h.localSafe ref }

def raiseCross (h : Heads) (ref : L2BlockRef) : Heads :=
  { h with crossSafe := raise h.crossSafe ref }

def withFinalized (h : Heads) (ref : L2BlockRef) : Heads :=
  { h with localFinalized := ref, crossFinalized := ref }

/-- The heads before the finalized one is looked at. Each but the unsafe one moves up only. -/
def follow (h : Heads) (ext : ExternalRefs) (switch : Bool) : Heads :=
  (({ h with unsafeHead := if switch then ext.localSafe else h.unsafeHead }).raiseLocal
    ext.localSafe).raiseCross ext.safe

/-- The heads with the external finalized head too. -/
def followed (h : Heads) (ext : ExternalRefs) (switch : Bool) : Heads :=
  (h.follow ext switch).withFinalized ext.finalized

variable (engine : ExecEngine) (h : Heads)

def loadUnsafe : Option L2BlockRef :=
  loaded h.unsafeHead (engine.l2BlockRefByLabel .latest) none

def loadFinalized : Option L2BlockRef :=
  (h.loadUnsafe engine).bind fun _ =>
    loaded h.crossFinalized (engine.l2BlockRefByLabel .finalized) none

def loadSafe : Option L2BlockRef :=
  (h.loadFinalized engine).bind fun f =>
    loaded h.crossSafe (engine.l2BlockRefByLabel .safe) (some (standIn h.crossFinalized f))

/-- The heads with the engine's labels in place of those that are not set, up to the first label
that cannot be loaded. -/
def load : Heads where
  unsafeHead := (h.loadUnsafe engine).getD h.unsafeHead
  localSafe := if h.localSafe = .zero then (h.loadSafe engine).getD h.localSafe else h.localSafe
  crossSafe := (h.loadSafe engine).getD h.crossSafe
  localFinalized := if h.crossFinalized ≠ .zero then h.localFinalized
    else (h.loadFinalized engine).getD h.localFinalized
  crossFinalized := (h.loadFinalized engine).getD h.crossFinalized

/-- The labels are loaded with the forkchoice update of a new finalized head. -/
def finalize (ref : L2BlockRef) : Heads :=
  if h.crossFinalized.number ≤ ref.number then (h.withFinalized ref).load engine else h

end Heads

/-- The reaction to the external local-safe block: none when the engine fails, or following the
source, with a switch of the unsafe head when that block is ahead or is not the engine's at its
height. -/
def reaction (engine : ExecEngine) (unsafeHead ext : L2BlockRef) : Option Bool :=
  if unsafeHead.number < ext.number then some true
  else
    match engine.l2BlockRefByNumber ext.number with
    | .notFound => some false
    | .failed => none
    | .found fetched => some (fetched ≠ ext)

def Heads.followSource (h : Heads) (engine : ExecEngine) (ext : ExternalRefs) : Heads :=
  match reaction engine h.unsafeHead ext.localSafe with
  | none => h
  | some switch => (h.follow ext switch).finalize engine ext.finalized

section
variable {engine : ExecEngine} {e : EngineController} {ref : L2BlockRef} {source : L1BlockRef}

theorem initializeUnsafe_eq (e : EngineController) : e.initializeUnsafe engine =
    (loaded e.unsafeHead (engine.l2BlockRefByLabel .latest) none).map
      fun u => { e with unsafeHead := u } := by
  unfold initializeUnsafe loaded
  cases engine.l2BlockRefByLabel .latest <;> split <;> rfl

variable (hf : Following e)
include hf

theorem Following.safeL2Head : e.safeL2Head engine = .ok e.deprecatedSafeHead := by
  simp [EngineController.safeL2Head,hf.authority,hf.source]

theorem Following.finalizedHead : e.finalizedHead engine = .ok e.deprecatedFinalizedHead := by
  simp [EngineController.finalizedHead,hf.authority,hf.source]

theorem initializeFinalized_eq : e.initializeFinalized engine =
    .ok ((loaded e.deprecatedFinalizedHead (engine.l2BlockRefByLabel .finalized) none).map
      fun f => ({ e with
        localFinalizedHead := if e.deprecatedFinalizedHead ≠ .zero then e.localFinalizedHead else f
        deprecatedFinalizedHead := f },standIn e.deprecatedFinalizedHead f)) := by
  simp only [initializeFinalized,hf.finalizedHead,ok_bind,loaded,standIn]
  cases engine.l2BlockRefByLabel .finalized <;> split <;> rfl

theorem initializeSafe_eq (ref : L2BlockRef) : e.initializeSafe engine ref =
    .ok ((loaded e.deprecatedSafeHead (engine.l2BlockRefByLabel .safe) (some ref)).map
      fun s => { e with deprecatedSafeHead := s }) := by
  simp only [initializeSafe,hf.safeL2Head,ok_bind,loaded]
  cases engine.l2BlockRefByLabel .safe <;> split <;> rfl

theorem initializeLocal_moved : Ends (Moved { headsOf e with
      localSafe := if e.localSafeHead = .zero then e.deprecatedSafeHead else e.localSafeHead })
    (fun _ => False) (e.initializeLocal engine) := by
  refine bind (Q := fun e' => ∃ c,e' = { e with crossUnsafeHead := c }) ?_ ?_
  · rw [hf.safeL2Head]
    split <;> exact ⟨_,rfl⟩
  rintro _ ⟨c,rfl⟩
  have hf' : Following { e with crossUnsafeHead := c } := ⟨hf.authority,hf.source⟩
  rw [hf'.safeL2Head]
  split <;> exact ⟨rfl,hf.authority,hf.source⟩

theorem initializeUnknowns_moved : Ends (fun r => Moved ((headsOf e).load engine) r.1)
    (fun _ => False) (e.initializeUnknowns engine) := by
  simp only [initializeUnknowns,Heads.load,Heads.loadSafe,Heads.loadFinalized,Heads.loadUnsafe,
    initializeUnsafe_eq]
  cases loaded e.unsafeHead (engine.l2BlockRefByLabel .latest) none with
  | none => exact ⟨by simp,hf⟩
  | some u =>
    have hf₁ : Following { e with unsafeHead := u } := ⟨hf.authority,hf.source⟩
    simp only [Option.map_some,initializeFinalized_eq hf₁,ok_bind,Option.bind_some]
    cases loaded e.deprecatedFinalizedHead (engine.l2BlockRefByLabel .finalized) none with
    | none => exact ⟨by simp,hf₁⟩
    | some f =>
      have hf₂ : ∀ l,Following { e with
          unsafeHead := u, localFinalizedHead := l, deprecatedFinalizedHead := f } :=
        fun _ => ⟨hf.authority,hf.source⟩
      simp only [Option.map_some,initializeSafe_eq (hf₂ _),ok_bind,Option.bind_some]
      cases loaded e.deprecatedSafeHead (engine.l2BlockRefByLabel .safe)
        (some (standIn e.deprecatedFinalizedHead f)) with
      | none => exact ⟨by simp,hf₂ _⟩
      | some s =>
        have hf₃ : ∀ l,Following { e with
            unsafeHead := u, localFinalizedHead := l, deprecatedFinalizedHead := f
            deprecatedSafeHead := s } := fun _ => ⟨hf.authority,hf.source⟩
        exact (initializeLocal_moved (hf₃ _)).bind fun e' he' => he'

theorem sendForkchoice_moved :
    Ends (fun r => Moved (headsOf e) r.1) (fun _ => False) (e.sendForkchoice engine) := by
  simp only [sendForkchoice,requestForkchoiceUpdate,logSyncProgressMaybe,hf.safeL2Head,
    hf.finalizedHead,ok_bind]
  split
  · exact ⟨rfl,hf.authority,hf.source⟩
  split
  · exact ⟨rfl,hf⟩
  split
  · exact ⟨rfl,hf⟩
  refine bind (Q := Moved (headsOf e)) ?_ ?_
  · split
    · have hf' : Following { e with lastForkchoice :=
          ⟨e.unsafeHead.hash,e.deprecatedSafeHead.hash,e.deprecatedFinalizedHead.hash⟩ } :=
        ⟨hf.authority,hf.source⟩
      simp only [hf'.safeL2Head,hf'.finalizedHead,ok_bind]
      exact ⟨rfl,hf.authority,hf.source⟩
    · exact ⟨rfl,hf.authority,hf.source⟩
  · intro e' he'
    split
    · exact ⟨he'.heads,he'.following.authority,he'.following.source⟩
    · exact he'

theorem tryUpdateEngine_moved :
    Ends (Moved ((headsOf e).load engine)) (fun _ => False) (e.tryUpdateEngine engine) := by
  refine bind (Q := fun r => Moved ((headsOf e).load engine) r.1) ?_ ?_
  · refine (initializeUnknowns_moved hf).bind ?_
    rintro ⟨e',err⟩ he'
    cases err with
    | some err => exact he'
    | none => exact he'.heads ▸ sendForkchoice_moved he'.following
  rintro ⟨e',err⟩ he'
  cases err with
  | none => exact he'
  | some err => exact he'.emitError err

theorem tryUpdateUnsafe_moved :
    Moved { headsOf e with unsafeHead := ref } (e.tryUpdateUnsafe ref) := by
  unfold tryUpdateUnsafe
  split <;> exact ⟨rfl,hf.authority,hf.source⟩

theorem tryUpdateLocalSafe_moved : Ends (Moved ((headsOf e).raiseLocal ref)) (fun _ => False)
    (e.tryUpdateLocalSafe engine ref true source) := by
  change Ends (Moved { headsOf e with localSafe := raise e.localSafeHead ref }) _ _
  unfold tryUpdateLocalSafe raise
  simp only [hf.safeL2Head,Bool.true_and,decide_eq_true_eq]
  split <;> exact ⟨rfl,hf.authority,hf.source⟩

theorem promoteSafe_moved : Ends (Moved { headsOf e with crossSafe := ref }) (fun _ => False)
    (e.promoteSafe engine ref source) := by
  have hf' : Following (({ e with deprecatedSafeHead := ref }).emit (.safeDerived ref source)) :=
    ⟨hf.authority,hf.source⟩
  simp only [promoteSafe,hf'.safeL2Head,ok_bind]
  split <;> exact ⟨rfl,hf.authority,hf.source⟩

theorem promoteFinalized_moved (hle : e.deprecatedFinalizedHead.number ≤ ref.number)
    (hsafe : ref.number ≤ e.deprecatedSafeHead.number) :
    Ends (Moved (((headsOf e).withFinalized ref).load engine)) (fun _ => False)
      (e.promoteFinalized engine ref) := by
  simp only [promoteFinalized,hf.finalizedHead,hf.safeL2Head,ok_bind,UInt64.not_lt.mpr hle,
    UInt64.not_lt.mpr hsafe]
  exact tryUpdateEngine_moved ⟨hf.authority,hf.source⟩

variable (ext : ExternalRefs)

theorem followExternalRefs_moved (switch : Bool) :
    Ends (Moved (((headsOf e).follow ext switch).finalize engine ext.finalized)) (fun _ => False)
      (e.followExternalRefs engine ext.safe ext.localSafe ext.finalized switch) := by
  have hswitch : Moved { headsOf e with
      unsafeHead := if switch then ext.localSafe else e.unsafeHead }
      (if switch then e.tryUpdateUnsafe ext.localSafe else e) := by
    cases switch with
    | true => exact tryUpdateUnsafe_moved hf
    | false => exact ⟨rfl,hf⟩
  unfold followExternalRefs
  obtain ⟨h₁,hf₁⟩ := hswitch
  refine (tryUpdateLocalSafe_moved hf₁).bind fun e₂ he₂ => ?_
  have hcross : Ends (Moved ((headsOf e₂).raiseCross ext.safe)) (fun _ => False)
      (if e₂.deprecatedSafeHead.number < ext.safe.number then
        e₂.promoteSafe engine ext.safe .zero else pure e₂) := by
    change Ends (Moved { headsOf e₂ with crossSafe := raise e₂.deprecatedSafeHead _ }) _ _
    unfold raise
    split
    · exact promoteSafe_moved he₂.following
    · exact ⟨rfl,he₂.following⟩
  refine hcross.bind fun e₃ he₃ => ?_
  rw [he₂.heads,h₁] at he₃
  have hfollow : headsOf e₃ = (headsOf e).follow ext switch := he₃.heads
  have hsafe : ext.finalized.number ≤ e₃.deprecatedSafeHead.number := by
    have hle := ext.finalized_le_safe
    change _ ≤ (headsOf e₃).crossSafe.number
    rw [hfollow]
    grind [Heads.follow,Heads.raiseCross,raise]
  rw [he₃.following.finalizedHead,← hfollow]
  change Ends (Moved (if e₃.deprecatedFinalizedHead.number ≤ _ then _ else _)) _
    (if e₃.deprecatedFinalizedHead.number ≤ _ then _ else _)
  split
  · exact promoteFinalized_moved he₃.following ‹_› hsafe
  · exact ⟨rfl,he₃.following⟩

theorem followSource_moved : Ends (Moved ((headsOf e).followSource engine ext)) (fun _ => False)
    (e.followSource engine ext.safe ext.localSafe ext.finalized) := by
  have hmoved := @followExternalRefs_moved engine e hf ext
  simp only [followSource,Heads.followSource,reaction,hf.safeL2Head,ok_bind]
  by_cases hlt : e.unsafeHead.number < ext.localSafe.number
  · rw [if_pos hlt,if_pos (show (headsOf e).unsafeHead.number < _ from hlt)]
    exact hmoved true
  rw [if_neg hlt,if_neg (show ¬ (headsOf e).unsafeHead.number < _ from hlt)]
  cases engine.l2BlockRefByNumber ext.localSafe.number with
  | notFound => exact hmoved false
  | failed => exact ⟨rfl,hf⟩
  | found fetched =>
    dsimp only
    by_cases heq : fetched = ext.localSafe
    · simpa [heq] using hmoved false
    · simpa [heq] using hmoved true

end

/-- The labels that are loaded fit in with the heads: the finalized head is not above the safe one,
and a loaded safe head is not above the local-safe one, or the unsafe one if it becomes the
local-safe head as well. -/
structure LabelsFit (engine : ExecEngine) (h : Heads) : Prop where
  finalized : ∀ f ∈ h.loadFinalized engine,
    f.number ≤ ((h.loadSafe engine).getD h.crossSafe).number
  safe : ∀ s ∈ h.loadSafe engine,s.number ≤
    (if h.localSafe = .zero then (h.loadUnsafe engine).getD h.unsafeHead else h.localSafe).number

namespace Heads
variable {h : Heads} {engine : ExecEngine} {ext : ExternalRefs} {switch : Bool}

theorem le_load {n : UInt64} (hle : n ≤ h.unsafeHead.number) :
    n ≤ ((h.loadUnsafe engine).getD h.unsafeHead).number := by
  by_cases hz : h.unsafeHead = .zero
  · rw [hz] at hle
    exact UInt64.le_trans hle UInt64.zero_le
  · simpa [loadUnsafe,loaded,hz] using hle

theorem InOrder.labelsFit (hn : (h.load engine).InOrder) : LabelsFit engine h := by
  obtain ⟨hf,hs,hl⟩ := hn
  simp only [Heads.load] at hf hs hl
  constructor
  · intro f hlf
    rwa [Option.mem_def.mp hlf] at hf
  · intro s hls
    rw [Option.mem_def.mp hls] at hs hl
    grind

theorem InOrder.load (ho : h.InOrder) (hfit : LabelsFit engine h) : (h.load engine).InOrder := by
  have hlu := @le_load h engine _ ho.localSafe_le_unsafe
  refine ⟨?_,?_,?_⟩ <;> simp only [Heads.load]
  · cases hlf : h.loadFinalized engine with
    | none =>
      rw [loadSafe,hlf]
      exact ho.finalized_le_safe
    | some f => exact hfit.finalized f hlf
  · cases hls : h.loadSafe engine with
    | none => simpa using ho.safe_le_localSafe
    | some s =>
      have hs := hfit.safe s hls
      grind
  · cases hls : h.loadSafe engine with
    | none => simpa using hlu
    | some s =>
      have hs := hfit.safe s hls
      grind

/-- With a switch the heads stay in order when the local-safe head is not ahead. -/
theorem InOrder.follow (ho : h.InOrder)
    (hsw : if switch then h.localSafe.number ≤ ext.localSafe.number
      else ext.localSafe.number ≤ h.unsafeHead.number) :
    (h.follow ext switch).InOrder ∧ (h.followed ext switch).InOrder := by
  obtain ⟨hf,hs,hl⟩ := ho
  have hfin := ext.finalized_le_safe
  have hsafe := ext.safe_le_localSafe
  unfold followed Heads.follow raiseLocal raiseCross withFinalized
  grind [InOrder,raise]

/-- A controller without a local-safe head, or without an unsafe head, has none finalized either. -/
theorem InOrder.promotes (ho : h.InOrder) (hz : h.localSafe = .zero ∨ h.unsafeHead = .zero)
    (n : UInt64) : h.crossFinalized.number ≤ n := by
  obtain ⟨hf,hs,hl⟩ := ho
  grind [L2BlockRef.zero]

theorem InOrder.finalize_localSafe_iff (ho : h.InOrder) :
    ((h.follow ext switch).finalize engine ext.finalized).localSafe = ext.localSafe ↔
      h.localSafe.number < ext.localSafe.number ∨ h.localSafe = ext.localSafe ∨
      h.localSafe = .zero ∧ (h.followed ext switch).loadSafe engine = some ext.localSafe := by
  have hx := ext.localSafe_set
  unfold finalize
  split
  · change (if raise h.localSafe ext.localSafe = .zero then
      ((h.followed ext switch).loadSafe engine).getD (raise h.localSafe ext.localSafe)
      else raise h.localSafe ext.localSafe) = _ ↔ _
    cases (h.followed ext switch).loadSafe engine <;> grind [raise]
  · rename_i hnot
    have hz : h.localSafe ≠ .zero := fun hz => hnot (ho.promotes (.inl hz) _)
    change raise h.localSafe ext.localSafe = _ ↔ _
    grind [raise]

theorem InOrder.finalize_unsafeHead_iff (ho : h.InOrder) (hne : h.unsafeHead ≠ ext.localSafe) :
    ((h.follow ext switch).finalize engine ext.finalized).unsafeHead = ext.localSafe ↔
      switch = true ∨
      h.unsafeHead = .zero ∧ engine.l2BlockRefByLabel .latest = .found ext.localSafe := by
  have hx := ext.localSafe_set
  unfold finalize
  split
  · change (loaded (if switch then ext.localSafe else h.unsafeHead)
      (engine.l2BlockRefByLabel .latest) none).getD
        (if switch then ext.localSafe else h.unsafeHead) = _ ↔ _
    cases switch
    · cases engine.l2BlockRefByLabel .latest <;> grind [loaded]
    · simp [loaded,hx]
  · rename_i hnot
    have hz : h.unsafeHead ≠ .zero := fun hz => hnot (ho.promotes (.inr hz) _)
    change (if switch then ext.localSafe else h.unsafeHead) = _ ↔ _
    grind

/-- The heads are in order, and a switch of the unsafe head took the local-safe head along. -/
structure Follows (h h' : Heads) (ext : L2BlockRef) : Prop where
  inOrder : h'.InOrder
  along : h.unsafeHead ≠ ext → h'.unsafeHead = ext → h'.localSafe = ext

/-- Where the unsafe head becomes the external local-safe block, by a switch or as the latest block
of the engine, the local-safe head is below it or that block, or is loaded as that block; and the
labels that are loaded for a new finalized head fit in. -/
structure Followable (engine : ExecEngine) (h : Heads) (ext : ExternalRefs) (switch : Bool) :
    Prop where
  behind : switch = true ∨
      h.unsafeHead = .zero ∧ engine.l2BlockRefByLabel .latest = .found ext.localSafe →
    h.unsafeHead ≠ ext.localSafe →
    h.localSafe.number < ext.localSafe.number ∨ h.localSafe = ext.localSafe ∨
      h.localSafe = .zero ∧ (h.followed ext switch).loadSafe engine = some ext.localSafe
  labels : h.crossFinalized.number ≤ ext.finalized.number → LabelsFit engine (h.followed ext switch)

theorem InOrder.finalize (ho : h.InOrder)
    (hsw : switch = false → ext.localSafe.number ≤ h.unsafeHead.number)
    (hgood : Followable engine h ext switch) :
    ((h.follow ext switch).finalize engine ext.finalized).InOrder := by
  have hboth : (h.follow ext switch).InOrder ∧ (h.followed ext switch).InOrder := by
    refine ho.follow ?_
    cases switch with
    | false => exact hsw rfl
    | true =>
      by_cases heq : h.unsafeHead = ext.localSafe
      · exact heq ▸ ho.localSafe_le_unsafe
      · have hb := hgood.behind (.inl rfl) heq
        grind [L2BlockRef.zero]
  unfold Heads.finalize
  split
  · exact hboth.2.load (hgood.labels ‹_›)
  · exact hboth.1

theorem InOrder.followSource_iff (ho : h.InOrder) (ext : ExternalRefs) :
    Follows h (h.followSource engine ext) ext.localSafe ↔
      ∀ switch,reaction engine h.unsafeHead ext.localSafe = some switch →
        Followable engine h ext switch := by
  unfold followSource
  cases hre : reaction engine h.unsafeHead ext.localSafe with
  | none => exact iff_of_true ⟨ho,fun hne heq => absurd heq hne⟩ nofun
  | some switch =>
    have hsw : switch = false → ext.localSafe.number ≤ h.unsafeHead.number := by
      grind [reaction]
    simp only [Option.some.injEq,forall_eq']
    constructor
    · rintro ⟨hn,halong⟩
      refine ⟨?_,?_⟩
      · intro hto hne
        exact ho.finalize_localSafe_iff.mp (halong hne ((ho.finalize_unsafeHead_iff hne).mpr hto))
      · intro hle
        rw [Heads.finalize,if_pos (show (h.follow ext switch).crossFinalized.number ≤ _ from hle)] at hn
        exact hn.labelsFit
    · intro hgood
      refine ⟨ho.finalize hsw hgood,?_⟩
      intro hne hto
      exact ho.finalize_localSafe_iff.mpr
        (hgood.behind ((ho.finalize_unsafeHead_iff hne).mp hto) hne)

end Heads

/-- Following a source keeps the heads in order exactly when a switch of the unsafe head finds the
local-safe head behind the external block, or at it, and the labels that the engine has for heads
that are not set fit in. -/
theorem followSource_inOrder_iff (engine : ExecEngine) (e : EngineController) (ext : ExternalRefs)
    (hf : Following e) (ho : (headsOf e).InOrder) :
    (∃ e',e.followSource engine ext.safe ext.localSafe ext.finalized = .ok e' ∧
      (headsOf e').InOrder ∧
      (e.unsafeHead ≠ ext.localSafe → e'.unsafeHead = ext.localSafe →
        e'.localSafeHead = ext.localSafe)) ↔
    ∀ switch,reaction engine e.unsafeHead ext.localSafe = some switch →
      Heads.Followable engine (headsOf e) ext switch := by
  have hmoved := @followSource_moved engine e hf ext
  cases hres : e.followSource engine ext.safe ext.localSafe ext.finalized with
  | error p =>
    rw [hres] at hmoved
    exact hmoved.elim
  | ok e' =>
    have hhds := (hmoved.of_eq hres).heads
    refine Iff.trans ?_ (ho.followSource_iff ext)
    rw [← hhds]
    constructor
    · rintro ⟨e'',he,hord,halong⟩
      cases he
      exact ⟨hord,halong⟩
    · intro hgood
      exact ⟨e',rfl,hgood.inOrder,hgood.along⟩

def blockAt (chain : Nat) (n : UInt64) : L2BlockRef :=
  ⟨hashOf (2 + n.toNat * chain),n,hashOf (2 + (n.toNat - 1) * chain),1 + 2 * n,⟨hashOf 1,0⟩,n⟩

def sampleEngine : ExecEngine where
  forkchoiceUpdate _ := .status .valid
  newPayload _ := some .valid
  l2BlockRefByLabel _ := .found (blockAt 1 0)
  l2BlockRefByHash _ := .notFound
  l2BlockRefByNumber n := .found (blockAt 1 n)

def sampleFollower (localSafe : UInt64) : EngineController :=
  { newEngineController sampleConfig ⟨.clSync,true,false,true,0⟩ false none with
    unsafeHead := blockAt 1 3
    localSafeHead := blockAt 1 localSafe
    deprecatedSafeHead := blockAt 1 0
    localFinalizedHead := blockAt 1 0
    deprecatedFinalizedHead := blockAt 1 0 }

def sampleExternal : ExternalRefs where
  safe := blockAt 1 0
  localSafe := blockAt 5 1
  finalized := blockAt 1 0
  finalized_le_safe := by decide
  safe_le_localSafe := by decide
  localSafe_set := by decide

def freshFollower : EngineController :=
  newEngineController sampleConfig ⟨.clSync,true,false,true,0⟩ false none

/-- A reorg above the local-safe head, and the first reference for a controller without heads, which
loads the safe head from the engine. -/
theorem followSource_inOrder_behind :
    (∃ e',(sampleFollower 0).followSource sampleEngine sampleExternal.safe
        sampleExternal.localSafe sampleExternal.finalized = .ok e' ∧ (headsOf e').InOrder ∧
      ((sampleFollower 0).unsafeHead ≠ sampleExternal.localSafe →
        e'.unsafeHead = sampleExternal.localSafe →
        e'.localSafeHead = sampleExternal.localSafe)) ∧
    ∃ e',freshFollower.followSource sampleEngine sampleExternal.safe
        sampleExternal.localSafe sampleExternal.finalized = .ok e' ∧ (headsOf e').InOrder ∧
      (freshFollower.unsafeHead ≠ sampleExternal.localSafe →
        e'.unsafeHead = sampleExternal.localSafe →
        e'.localSafeHead = sampleExternal.localSafe) := by
  constructor
  · refine (followSource_inOrder_iff sampleEngine (sampleFollower 0) sampleExternal ⟨rfl,rfl⟩
      ⟨by decide,by decide,by decide⟩).mpr ?_
    rintro switch -
    refine ⟨fun _ _ => .inl (by decide),fun _ => ?_⟩
    cases switch <;> exact ⟨by decide,by decide⟩
  · refine (followSource_inOrder_iff sampleEngine freshFollower sampleExternal ⟨rfl,rfl⟩
      ⟨by decide,by decide,by decide⟩).mpr ?_
    rintro switch -
    refine ⟨fun _ _ => .inl (by decide),fun _ => ?_⟩
    cases switch <;> exact ⟨by decide,by decide⟩

/-- A reorg below the local-safe head leaves that head behind, above the unsafe head and on the
chain that was abandoned. -/
theorem followSource_localSafe_ahead :
    Following (sampleFollower 2) ∧ (headsOf (sampleFollower 2)).InOrder ∧
    ∃ e',(sampleFollower 2).followSource sampleEngine sampleExternal.safe
        sampleExternal.localSafe sampleExternal.finalized = .ok e' ∧
      e'.unsafeHead = blockAt 5 1 ∧ e'.localSafeHead = blockAt 1 2 ∧
      ¬ (headsOf e').InOrder := by
  refine ⟨⟨rfl,rfl⟩,⟨by decide,by decide,by decide⟩,_,rfl,rfl,rfl,?_⟩
  intro h
  exact absurd h.localSafe_le_unsafe (by decide)

end OpStack.Proofs.EngineHeads
