import OpStack.Proofs.HazardCycle
import OpStack.Supervisor.CrossSafe

namespace OpStack.Supervisor
open Lib Eth Interop Databases Traversal List Prod Relation

/-! What the checks make of a content of the databases. -/

namespace Databases
variable (db : Databases)

def hash (chain : ChainID) (query : ContainsQuery) : Except DBError Hash :=
  db.answer (.contains chain query)

def source (chain : ChainID) (derived : BlockID) : Except DBError BlockSeal :=
  db.answer (.crossDerivedToSource chain derived)

def block (chain : ChainID) (number : UInt64) : Except DBError (BlockRef × UInt32 × ExecMsgs) :=
  db.answer (.openBlock chain number)

def candidate (chain : ChainID) : DerivedBlockRefPair × Option DBError :=
  db.answer (.candidateCrossSafe chain)

variable {α : Type} (chain : ChainID) (x : Reading α)

@[simp] theorem read_pure (a : α) : db.read (pure a : Reading α) = .ok a := rfl

@[simp] theorem read_throw (e : DBError) : db.read (throw e : Reading α) = .error e := rfl

@[simp] theorem read_done (x : Except DBError α) :
    db.read (ExceptT.mk (.done x) : Reading α) = x := rfl

@[simp] theorem read_bind {β : Type} (f : α → Reading β) :
    db.read (x >>= f) = db.read x >>= fun a => db.read (f a) :=
  Inquiry.eval_bind db.answer x f

@[simp] theorem read_ite (c : Prop) [Decidable c] (x y : Reading α) :
    db.read (if c then x else y) = if c then db.read x else db.read y :=
  Inquiry.eval_ite db.answer c x y

@[simp] theorem read_outcome : db.read (outcome x) = .ok (db.read x) :=
  Dialogue.eval_bind db.answer x.run _

@[simp] theorem read_contains (query : ContainsQuery) : db.read (contains chain query)
    = db.hash chain query >>= fun h => .ok ⟨h,query.blockNum,query.timestamp⟩ := by
  unfold contains
  rw [read_bind]
  rfl

@[simp] theorem read_crossDerivedToSource (derived : BlockID) :
    db.read (crossDerivedToSource chain derived) = db.source chain derived := rfl

@[simp] theorem read_openBlock (number : UInt64) :
    db.read (openBlock chain number) = db.block chain number := rfl

@[simp] theorem read_candidateCrossSafe :
    db.read (candidateCrossSafe chain) = .ok (db.candidate chain) := rfl

end Databases

section
variable (db : Databases) (scope : BlockID)

def frontierVerdict (p : Hazard) : Except DBError Unit :=
  match db.source p.1 p.2.id with
  | .ok source => if scope.number < source.number then .error .outOfScope else .ok ()
  | .error .future =>
    match (db.candidate p.1).2 with
    | some .outOfScope => .error .future
    | some e => .error e
    | none =>
      if (db.candidate p.1).1.derived.number = p.2.number ∧
          (db.candidate p.1).1.derived.id ≠ p.2.id then .error .conflict
      else if scope.number < (db.candidate p.1).1.source.number then .error .outOfScope
      else .ok ()
  | .error e => .error e

@[simp] theorem read_frontierCheck (p : Hazard) :
    db.read (frontierCheck scope p.1 p.2) = frontierVerdict db scope p := by
  unfold frontierCheck frontierVerdict
  simp only [read_bind,read_outcome,read_crossDerivedToSource]
  cases db.source p.1 p.2.id with
  | ok source => exact read_ite db _ _ _
  | error e =>
    cases e with
    | future =>
      change db.read (candidateCrossSafe p.1 >>= _) = _
      rw [read_bind,read_candidateCrossSafe]
      obtain ⟨pair,err⟩ := db.candidate p.1
      cases err with
      | none =>
        change db.read (if _ then _ else if _ then _ else _) = _
        simp
      | some e => cases e <;> rfl
    | conflict => rfl
    | outOfScope => rfl
    | awaitReplacementBlock => rfl
    | other => rfl

theorem read_hazardSafeFrontierChecks (hazards : HazardEntries) :
    db.read (hazardSafeFrontierChecks scope hazards)
      = inTurn (frontierVerdict db scope) hazards := by
  induction hazards with
  | nil => rfl
  | cons p rest ih => simp [hazardSafeFrontierChecks,read_bind,read_frontierCheck,ih,inTurn]

/-- The block is cross-safe within the scope, or it is the candidate of its chain for that. -/
def WithinFrontier (p : Hazard) : Prop :=
  (∃ source,db.source p.1 p.2.id = .ok source ∧ source.number ≤ scope.number) ∨
  ∃ pair,db.candidate p.1 = (pair,none) ∧ pair.derived.id = p.2.id ∧
    pair.source.number ≤ scope.number

def Refused (p : Hazard) : Prop :=
  match db.source p.1 p.2.id with
  | .ok source => scope.number < source.number
  | .error .future =>
    (db.candidate p.1).2 ≠ none ∨
    (db.candidate p.1).1.derived.number = p.2.number ∧ (db.candidate p.1).1.derived.id ≠ p.2.id ∨
    scope.number < (db.candidate p.1).1.source.number
  | .error _ => True

def OffFrontier (p : Hazard) : Prop :=
  db.source p.1 p.2.id = .error .future ∧ (db.candidate p.1).1.derived.number ≠ p.2.number

variable {db scope}

theorem frontierVerdict_ok_iff (p : Hazard) :
    frontierVerdict db scope p = .ok () ↔ ¬ Refused db scope p := by
  unfold frontierVerdict Refused
  split
  · split
    · rename_i hlt
      simp [hlt]
    · rename_i hlt
      simp [hlt]
  · split
    · rename_i herr
      simp [herr]
    · rename_i herr
      simp [herr]
    rename_i herr
    split
    · rename_i hid
      simp [hid]
    rename_i hid
    split
    · rename_i hlt
      simp [hlt]
    · rename_i hlt
      simp [herr,hid,hlt]
  · simp

theorem frontierVerdict_within {p : Hazard} (h : frontierVerdict db scope p = .ok ()) :
    WithinFrontier db scope p ↔ ¬ OffFrontier db p := by
  rw [frontierVerdict_ok_iff] at h
  unfold Refused at h
  constructor
  · rintro (⟨source,hsrc,_⟩ | ⟨pair,hpair,hid,_⟩) ⟨hfut,hne⟩
    · simp [hsrc] at hfut
    · rw [hpair] at hne
      exact hne (congrArg BlockID.number hid)
  intro hoff
  split at h
  · rename_i source hsrc
    exact .inl ⟨source,hsrc,UInt64.not_lt.mp h⟩
  · rename_i hfut
    simp only [not_or,not_and,not_not] at h
    obtain ⟨hno,hid,hlt⟩ := h
    have hnum : (db.candidate p.1).1.derived.number = p.2.number := by
      by_contra hne
      exact hoff ⟨hfut,hne⟩
    exact .inr ⟨(db.candidate p.1).1,Prod.ext rfl hno,hid hnum,UInt64.not_lt.mp hlt⟩
  · exact absurd trivial h

/-- What the check accepts is cross-safe or next to become so, iff it stops at some hazard or each
one that is not cross-safe has the height of its chain's candidate. -/
theorem frontier_respected_iff (db : Databases) (scope : BlockID) (hazards : HazardEntries) :
    (db.read (hazardSafeFrontierChecks scope hazards) = .ok () →
      ∀ p ∈ hazards,WithinFrontier db scope p) ↔
    (∃ p ∈ hazards,Refused db scope p) ∨ ∀ p ∈ hazards,¬ OffFrontier db p := by
  rw [read_hazardSafeFrontierChecks,inTurn_ok_iff]
  by_cases href : ∃ p ∈ hazards,Refused db scope p
  · refine iff_of_true ?_ (.inl href)
    intro hall
    obtain ⟨p,hp,hr⟩ := href
    exact absurd hr ((frontierVerdict_ok_iff p).mp (hall p hp))
  have hall : ∀ p ∈ hazards,frontierVerdict db scope p = .ok () := by
    intro p hp
    exact (frontierVerdict_ok_iff p).mpr fun hr => href ⟨p,hp,hr⟩
  constructor
  · intro h
    exact .inr fun p hp => (frontierVerdict_within (hall p hp)).mp (h hall p hp)
  rintro (h | h) _ p hp
  · exact absurd h href
  · exact (frontierVerdict_within (hall p hp)).mpr (h p hp)

end

/-- Of each chain the third block is the candidate, derived from the seventh of L1. -/
def thirdBlockNext : Databases where
  answer
    | .contains _ _ => .error .other
    | .crossDerivedToSource _ _ => .error .future
    | .openBlock _ _ => .error .other
    | .candidateCrossSafe _ => (⟨⟨.fill 32 7,7,.fill 32 6,70⟩,⟨.fill 32 3,3,.fill 32 2,30⟩⟩,none)
    | .nextSource _ _ => .error .other
    | .crossSafe _ => .error .other
    | .previousCrossDerived _ _ => .error .other

/-- The fifth block is accepted though the third and the fourth are not cross-safe. -/
theorem fifth_block_accepted :
    thirdBlockNext.read (hazardSafeFrontierChecks ⟨.fill 32 7,7⟩ [(2,⟨.fill 32 5,5,50⟩)]) = .ok () ∧
    ¬ WithinFrontier thirdBlockNext ⟨.fill 32 7,7⟩ (2,⟨.fill 32 5,5,50⟩) := by
  refine ⟨rfl,?_⟩
  rintro (⟨source,hsrc,_⟩ | ⟨pair,hpair,hid,_⟩)
  · cases hsrc
  · cases hpair
    exact absurd (congrArg BlockID.number hid) (by decide)

/-! The hazards of a candidate are found by a traversal. -/

section
variable (db : Databases) (linker : FullConfigSet) (scope : BlockID) {p q : Hazard}
  (order : Nat → ExecMsgs → ExecMsgs) (start : Hazard)

def openedMessages (p : Hazard) : Except DBError ExecMsgs := do
  let r ← db.block p.1 p.2.number
  if r.1.id ≠ p.2.id then .error .conflict
  else checkChainCanExecute linker p.1 p.2 r.2.2 >>= fun _ => .ok r.2.2

def messageNeeds (p : Hazard) (msg : UInt32 × ExecutingMessage) :
    Except DBError (Option Hazard) := do
  let h ← db.hash msg.2.chainID msg.2.query
  if msg.2.timestamp < p.2.timestamp then
    let source ← db.source msg.2.chainID ⟨h,msg.2.blockNum⟩
    if scope.number < source.number then .error .outOfScope else .ok none
  else if msg.2.timestamp = p.2.timestamp then
    .ok (some (msg.2.chainID,⟨h,msg.2.blockNum,msg.2.timestamp⟩))
  else .error .conflict

def hazardTraversal : Traversal ChainID BlockSeal (UInt32 × ExecutingMessage) DBError where
  items := openedMessages db linker
  examine := messageNeeds db scope
  same b b' := decide (b.id = b'.id)
  clash := .conflict

theorem read_addMessage (p : Hazard) (msg : UInt32 × ExecutingMessage)
    (s : HazardEntries × HazardEntries) :
    db.read (addMessage scope p.2 msg.2 s) = (hazardTraversal db linker scope).addItem p s msg := by
  simp only [addMessage,addItem,hazardTraversal,messageNeeds,read_bind,read_contains]
  cases db.hash msg.2.chainID msg.2.query with
  | error e => rfl
  | ok h =>
    have hid : (⟨h,msg.2.query.blockNum,msg.2.query.timestamp⟩ : BlockSeal).id
        = ⟨h,msg.2.blockNum⟩ := rfl
    simp only [ok_bind]
    split
    · simp only [isCrossValidBlock,read_bind,read_crossDerivedToSource,read_pure,hid]
      cases db.source msg.2.chainID ⟨h,msg.2.blockNum⟩ with
      | error e => rfl
      | ok source =>
        by_cases hlt : scope.number < source.number
        · simp [hlt]
        · simp [hlt]
    split
    · simp only [add,checkMessageWithCurrentTimestamp]
      cases s.1.lookup msg.2.chainID with
      | none => rfl
      | some existing =>
        by_cases heq : existing.id = ⟨h,msg.2.blockNum⟩
        · simp only [ne_eq,heq,hid]
          exact (if_pos (decide_eq_true rfl)).symm
        · simp only [ne_eq,heq,hid]
          exact (if_neg fun h => heq (of_decide_eq_true h)).symm
    · rfl

theorem read_addMessages (p : Hazard) (msgs : ExecMsgs) (s : HazardEntries × HazardEntries) :
    db.read (addMessages scope p.2 msgs s)
      = (hazardTraversal db linker scope).addItems p msgs s := by
  induction msgs generalizing s with
  | nil => rfl
  | cons msg rest ih =>
    simp only [addMessages,read_bind]
    rw [read_addMessage db linker scope p msg s]
    congr 1
    funext s'
    exact ih s'

theorem read_visitBlock (order : ExecMsgs → ExecMsgs) (p : Hazard)
    (s : HazardEntries × HazardEntries) : db.read (visitBlock linker scope order p.1 p.2 s)
      = (hazardTraversal db linker scope).visit order p s := by
  simp only [visitBlock,visit,read_bind,read_openBlock,read_ite]
  change _ = openedMessages db linker p >>= _
  unfold openedMessages
  cases db.block p.1 p.2.number with
  | error e => rfl
  | ok r =>
    simp only [ok_bind]
    split
    · rfl
    cases checkChainCanExecute linker p.1 p.2 r.2.2 with
    | error e => rfl
    | ok u => exact read_addMessages db linker scope p (order r.2.2) s

theorem read_build (fuel step : Nat)
    (entries stack : HazardEntries) : db.read (build linker scope order fuel step entries stack) =
      match loop ((hazardTraversal db linker scope).round order) fuel ⟨step,entries,stack⟩ with
      | some (.ok r) => r
      | _ => .error .other := by
  induction fuel generalizing step entries stack with
  | zero => rfl
  | succ fuel ih =>
    cases stack with
    | nil => rfl
    | cons p stack =>
      simp only [build,loop,Traversal.round,read_bind]
      rw [read_visitBlock db linker scope (order step) p (entries,stack)]
      cases (hazardTraversal db linker scope).visit (order step) p (entries,stack) with
      | error e => rfl
      | ok s => exact ih (step + 1) s.1 s.2

theorem read_crossSafeHazards : db.read (crossSafeHazards linker scope order start.1 start.2) =
    match (hazardTraversal db linker scope).run order (linker.chains.length + 2) start with
    | some (.ok r) => r
    | _ => .error .other :=
  read_build db linker scope order _ 0 [] [start]

theorem messageNeeds_some {msg : UInt32 × ExecutingMessage}
    (h : messageNeeds db scope p msg = .ok (some q)) :
    q.1 = msg.2.chainID ∧ q.2.timestamp = p.2.timestamp ∧ ∃ hash,
      db.hash msg.2.chainID msg.2.query = .ok hash ∧ msg.2.timestamp = p.2.timestamp ∧
      q = (msg.2.chainID,⟨hash,msg.2.blockNum,msg.2.timestamp⟩) := by
  obtain ⟨hash,hhs,h⟩ := of_bind_ok h
  split at h
  · obtain ⟨source,_,h⟩ := of_bind_ok h
    split at h
    · cases h
    · cases h
  split at h
  · rename_i ht
    cases h
    exact ⟨rfl,ht,hash,hhs,ht,rfl⟩
  · cases h

theorem openedMessages_ok {msgs : ExecMsgs} (h : openedMessages db linker p = .ok msgs) :
    (∃ ref logCount,db.block p.1 p.2.number = .ok (ref,logCount,msgs) ∧ ref.id = p.2.id) ∧
      ∀ msg ∈ msgs,linker.canExecute p.1 p.2.timestamp msg.2.chainID msg.2.timestamp = true := by
  obtain ⟨⟨ref,logCount,msgs'⟩,hbk,h⟩ := of_bind_ok h
  split at h
  · cases h
  rename_i hid
  obtain ⟨_,hcan,h⟩ := of_bind_ok h
  cases h
  refine ⟨⟨ref,logCount,hbk,not_not.mp hid⟩,?_⟩
  unfold checkChainCanExecute at hcan
  split at hcan
  · rename_i hall
    intro msg hmsg
    exact all_eq_true.mp hall msg hmsg
  · cases hcan

variable {db linker scope}

theorem canExecute_mem {cfg : FullConfigSet} {c d : ChainID} {t t' : UInt64}
    (h : cfg.canExecute c t d t' = true) : d ∈ cfg.chains.map fst := by
  unfold FullConfigSet.canExecute at h
  split at h
  · rename_i hlk
    exact mem_map_of_mem (mem_of_lookup hlk)
  · cases h

theorem leads_key (h : (hazardTraversal db linker scope).Leads p q) :
    q.1 ∈ linker.chains.map fst := by
  obtain ⟨msgs,hms,msg,hmsg,hq⟩ := h
  obtain ⟨hc,_⟩ := messageNeeds_some db scope hq
  rw [hc]
  exact canExecute_mem ((openedMessages_ok db linker hms).2 msg hmsg)

theorem leads_timestamp (h : (hazardTraversal db linker scope).Leads p q) :
    q.2.timestamp = p.2.timestamp := by
  obtain ⟨msgs,_,msg,_,hq⟩ := h
  exact (messageNeeds_some db scope hq).2.1

theorem reaches_timestamp {start : Hazard} (h : (hazardTraversal db linker scope).Reaches start p) :
    p.2.timestamp = start.2.timestamp := by
  induction h with
  | refl => rfl
  | tail _ hst ih => exact (leads_timestamp hst.2).trans ih

/-- All hazards are of the time of the candidate, so their numbers and hashes tell them apart. -/
theorem hazardTraversal_distinguishes : (hazardTraversal db linker scope).Distinguishes start := by
  intro x p q hx hq hp hkey
  have ht : p.2.timestamp = q.2.timestamp := by
    rw [leads_timestamp hq]
    rcases hp with hp | hp
    · rw [reaches_timestamp hp.to_reflTransGen,reaches_timestamp hx]
    · rw [leads_timestamp hp]
  change decide (p.2.id = q.2.id) = true ↔ _
  rw [decide_eq_true_iff]
  constructor
  · intro hid
    obtain ⟨c,h,n,t⟩ := p
    simp only [BlockSeal.id,BlockID.mk.injEq] at hid
    simp only at ht
    rw [hid.1,hid.2,ht]
  · intro heq
    rw [heq]

theorem crossSafeHazards_eq {order : Nat → ExecMsgs → ExecMsgs}
    (hperm : ∀ k l,(order k l).Perm l) (start : Hazard) :
    (∀ found,db.read (crossSafeHazards linker scope order start.1 start.2) = .ok found →
      (hazardTraversal db linker scope).Finds start found) ∧
    ∀ e,db.read (crossSafeHazards linker scope order start.1 start.2) = .error e →
      (hazardTraversal db linker scope).Meets start e := by
  obtain ⟨r,hrun,hok,herr⟩ := run_eq (hazardTraversal_distinguishes start)
    (fun p q => @leads_key db linker scope p q) hperm
    (show (linker.chains.map fst).length + 1 < linker.chains.length + 2 by simp)
  rw [read_crossSafeHazards,hrun]
  exact ⟨hok,herr⟩

end

/-! The logs of the hazards. -/

variable {db : Databases} {ts : UInt64} {entries entries' ps : HazardEntries} {ranges : MapRanges}

def Opens (db : Databases) (p : Hazard) : Prop :=
  ∃ ref logCount msgs,db.block p.1 p.2.number = .ok (ref,logCount,msgs) ∧ ref.id = p.2.id

def IndicesOk (db : Databases) (p : Hazard) : Prop :=
  ∀ ref logCount msgs,db.block p.1 p.2.number = .ok (ref,logCount,msgs) →
    ∀ msg ∈ msgs,msg.1 < logCount

def logsAt (db : Databases) (ts : UInt64) (p : Hazard) : ChainLogs :=
  match db.block p.1 p.2.number with
  | .ok (_,logCount,msgs) => ⟨p.1,logCount,msgs.filter fun (_,m) => m.timestamp = ts⟩
  | .error _ => ⟨p.1,0,[]⟩

@[simp] theorem logsAt_chainID (p : Hazard) : (logsAt db ts p).chainID = p.1 := by
  unfold logsAt
  split <;> rfl

theorem read_gatherLogs (hopen : ∀ p ∈ ps,Opens db p) :
    db.read (gatherLogs ts ps) = .ok (ps.map (logsAt db ts)) ∧ (∀ p ∈ ps,IndicesOk db p) ∨
    db.read (gatherLogs ts ps) = .error .conflict ∧ ∃ p ∈ ps,¬ IndicesOk db p := by
  induction ps with
  | nil => exact .inl ⟨rfl,fun p hp => absurd hp not_mem_nil⟩
  | cons p ps ih =>
    obtain ⟨ref,logCount,msgs,hbk,hid⟩ := hopen p mem_cons_self
    have hlg : logsAt db ts p = ⟨p.1,logCount,msgs.filter fun (_,m) => m.timestamp = ts⟩ := by
      unfold logsAt
      rw [hbk]
    have hrd : db.read (gatherLogs ts (p::ps)) =
        if (msgs.any fun (logIdx,_) => logCount ≤ logIdx) then .error .conflict
        else db.read (gatherLogs ts ps) >>= fun logs => .ok (logsAt db ts p :: logs) := by
      conv_lhs => unfold gatherLogs
      rw [read_bind,read_openBlock,hbk]
      change db.read (if ref.id ≠ p.2.id then _ else if _ then _ else _) = _
      simp [if_neg (not_not.mpr hid),hlg]
    rw [hrd]
    by_cases hany : (msgs.any fun (logIdx,_) => logCount ≤ logIdx) = true
    · rw [if_pos hany]
      refine .inr ⟨rfl,p,mem_cons_self,fun hok => ?_⟩
      obtain ⟨msg,hmsg,hle⟩ := any_eq_true.mp hany
      exact absurd (hok ref logCount msgs hbk msg hmsg)
        (UInt32.not_lt.mpr (of_decide_eq_true hle))
    rw [if_neg hany]
    have hp : IndicesOk db p := by
      intro ref' logCount' msgs' hbk' msg hmsg
      rw [hbk] at hbk'
      cases hbk'
      rw [Bool.not_eq_true,any_eq_false] at hany
      simpa using hany msg hmsg
    rcases ih fun q hq => hopen q (mem_cons_of_mem _ hq) with ⟨hrs,hall⟩ | ⟨hrs,q,hq,hno⟩
    · rw [hrs]
      refine .inl ⟨rfl,fun q hq => ?_⟩
      rcases mem_cons.mp hq with rfl | hq
      · exact hp
      · exact hall q hq
    · rw [hrs]
      exact .inr ⟨rfl,q,mem_cons_of_mem _ hq,hno⟩

structure CycleFree (db : Databases) (ts : UInt64) (entries : HazardEntries) : Prop where
  indices : ∀ p ∈ entries,IndicesOk db p
  initiating : ∀ p ∈ entries,∀ i m,(i,m) ∈ (logsAt db ts p).execMsgs →
    (∃ q ∈ entries,q.1 = m.chainID ∧ m.logIdx < (logsAt db ts q).logCount) ∧
    initiatingNode m ≠ (p.1,i)
  acyclic : ∀ a,¬ OnCycle (GraphEdge (entries.map (logsAt db ts))) a

theorem graphEdge_congr {logs logs' : List ChainLogs} (h : ∀ l,l ∈ logs ↔ l ∈ logs') :
    GraphEdge logs = GraphEdge logs' := by
  funext a b
  simp [GraphEdge,h]

theorem CycleFree.congr (h : CycleFree db ts entries) (hmem : ∀ p,p ∈ entries ↔ p ∈ entries') :
    CycleFree db ts entries' := by
  refine ⟨fun p hp => h.indices p ((hmem p).mpr hp),?_,?_⟩
  · intro p hp i m hm
    obtain ⟨⟨q,hq,hrs⟩,hsl⟩ := h.initiating p ((hmem p).mpr hp) i m hm
    exact ⟨⟨q,(hmem q).mp hq,hrs⟩,hsl⟩
  · rw [@graphEdge_congr _ (entries.map (logsAt db ts)) (by simp [hmem])]
    exact h.acyclic

theorem fits_iff (hnodup : (entries.map fst).Nodup) (hperm : ps.Perm entries) {p : Hazard}
    {i : UInt32} {m : ExecutingMessage} :
    Fits entries (logCountsOf (ps.map (logsAt db ts))) p.1 i m ↔
      (∃ q ∈ entries,q.1 = m.chainID ∧ m.logIdx < (logsAt db ts q).logCount) ∧
      initiatingNode m ≠ (p.1,i) := by
  constructor
  · rintro ⟨_,⟨n,hn,hlt⟩,hsl⟩
    refine ⟨?_,hsl⟩
    obtain ⟨l,hl,heq⟩ := mem_map.mp (mem_of_lookup hn)
    obtain ⟨q,hq,rfl⟩ := mem_map.mp hl
    rw [Prod.mk.injEq,logsAt_chainID] at heq
    rw [← heq.2] at hlt
    exact ⟨q,hperm.mem_iff.mp hq,heq.1,hlt⟩
  rintro ⟨⟨q,hq,hc,hlt⟩,hsl⟩
  refine ⟨⟨q.2,lookup_of_mem hnodup (hc ▸ hq)⟩,⟨_,lookup_of_mem ?_ ?_,hlt⟩,hsl⟩
  · simp only [List.map_map]
    have hkeys : (fst ∘ (fun l : ChainLogs => (l.chainID,l.logCount)) ∘ logsAt db ts) = fst := by
      funext q
      exact logsAt_chainID q
    rw [hkeys]
    exact (hperm.map _).nodup_iff.mpr hnodup
  · simp only [List.map_map]
    exact List.mem_map.mpr ⟨q,hperm.mem_iff.mpr hq,by simp [hc]⟩

theorem read_hazardCycleChecks (hnodup : (entries.map fst).Nodup)
    (hopen : ∀ p ∈ entries,Opens db p) :
    db.read (hazardCycleChecks ranges ts entries) = .ok () ∧ CycleFree db ts entries ∨
    db.read (hazardCycleChecks ranges ts entries) = .error .conflict ∧
      ¬ CycleFree db ts entries := by
  have hpm := ranges.perm _ 0 entries
  have hmem : ∀ p,p ∈ ranges.shuffle _ 0 entries ↔ p ∈ entries := fun p => hpm.mem_iff
  unfold hazardCycleChecks
  simp only [read_bind]
  rcases @read_gatherLogs db ts (ranges.shuffle _ 0 entries)
      (fun p hp => hopen p ((hmem p).mp hp)) with ⟨hlg,hindex⟩ | ⟨hlg,p,hp,hno⟩
  · rw [hlg]
    have hkeys :
        (((ranges.shuffle _ 0 entries).map (logsAt db ts)).map ChainLogs.chainID).Nodup := by
      have hfst : ChainLogs.chainID ∘ logsAt db ts = fst := by
        funext q
        exact logsAt_chainID q
      rw [List.map_map,hfst]
      exact (hpm.map _).nodup_iff.mpr hnodup
    have hed : GraphEdge ((ranges.shuffle _ 0 entries).map (logsAt db ts))
        = GraphEdge (entries.map (logsAt db ts)) :=
      graphEdge_congr (by simp [hmem])
    rcases @buildGraph_cases entries _ ranges hkeys with
      ⟨⟨g,hres,hiff,hstg⟩,hfi⟩ | ⟨hres,l,hl,i,m,hm,hno⟩
    · have hidx : ∀ l ∈ (ranges.shuffle _ 0 entries).map (logsAt db ts),∀ i m,
          (i,m) ∈ l.execMsgs → i < l.logCount := by
        intro l hl i m hm
        obtain ⟨p,hp,rfl⟩ := mem_map.mp hl
        obtain ⟨ref,logCount,msgs,hbk,_⟩ := hopen p ((hmem p).mp hp)
        have hp' := hindex p hp ref logCount msgs hbk
        unfold logsAt at hm ⊢
        rw [hbk] at hm ⊢
        exact hp' (i,m) (mem_filter.mp hm).1
      have hfree : (∀ a,¬ OnCycle (GraphEdge (entries.map (logsAt db ts))) a) →
          CycleFree db ts entries := by
        intro hacy
        refine ⟨fun p hp => hindex p ((hmem p).mpr hp),?_,hacy⟩
        intro p hp i m hm
        have hfit := hfi (logsAt db ts p) (mem_map_of_mem ((hmem p).mpr hp)) i m hm
        rw [logsAt_chainID] at hfit
        exact (fits_iff hnodup hpm).mp hfit
      simp only [read_done,hres,Except.mapError,ok_bind]
      rcases @checkGraph_cases g entries _ ranges hiff hstg hidx hfi with
        ⟨hck,hacy⟩ | ⟨hck,a,ha⟩
      · rw [hck]
        exact .inl ⟨rfl,hfree (hed ▸ hacy)⟩
      rw [hck]
      refine .inr ⟨rfl,fun h => ?_⟩
      rw [hed] at ha
      exact h.acyclic a ha
    · simp only [read_done,hres,ok_bind]
      refine .inr ⟨rfl,fun h => ?_⟩
      obtain ⟨p,hp,rfl⟩ := mem_map.mp hl
      rw [logsAt_chainID] at hno
      exact hno ((fits_iff hnodup hpm).mpr (h.initiating p ((hmem p).mp hp) i m hm))
  · rw [hlg]
    exact .inr ⟨rfl,fun h => hno (h.indices p ((hmem p).mp hp))⟩

section
variable (db : Databases) (linker : FullConfigSet) (chainID : ChainID)
  (candidate : DerivedBlockRefPair)

abbrev candidateTraversal := hazardTraversal db linker candidate.source.id

abbrev candidateHazard : Hazard := (chainID,blockSealFromRef candidate.derived)

def Hazardous (p : Hazard) : Prop :=
  TransGen (candidateTraversal db linker candidate).Through (candidateHazard chainID candidate) p

/-- The errors on the way to the hazards are of one class, and so are those of the hazards at the
frontier where there are none on the way. -/
structure OneClass : Prop where
  hazards : ∀ e e',
    (candidateTraversal db linker candidate).Meets (candidateHazard chainID candidate) e →
    (candidateTraversal db linker candidate).Meets (candidateHazard chainID candidate) e' →
    decisionOf (.error e) = decisionOf (.error e')
  frontier :
    (∀ e,¬ (candidateTraversal db linker candidate).Meets (candidateHazard chainID candidate) e) →
    ∀ p p' e e',Hazardous db linker chainID candidate p → Hazardous db linker chainID candidate p' →
      frontierVerdict db candidate.source.id p = .error e →
      frontierVerdict db candidate.source.id p' = .error e' →
      decisionOf (.error e) = decisionOf (.error e')

def SingleBlocks : Prop :=
  ∀ c q q' h h',db.hash c q = .ok h → db.hash c q' = .ok h' → q.timestamp = q'.timestamp →
    q.blockNum = q'.blockNum ∧ h = h'

variable {db linker chainID candidate}

theorem Finds.opens {start : Hazard} {scope : BlockID} {found : HazardEntries}
    (h : (hazardTraversal db linker scope).Finds start found) {p : Hazard} (hp : p ∈ found) :
    Opens db p := by
  obtain ⟨msgs,hms,_⟩ := h.clean p ((h.mem_iff p).mp hp).to_reflTransGen
  obtain ⟨⟨ref,logCount,hbk,hid⟩,_⟩ := openedMessages_ok db linker hms
  exact ⟨ref,logCount,msgs,hbk,hid⟩

theorem read_crossSafeChecks (orders : Orders) :
    (∃ e,db.read (crossSafeChecks linker orders chainID candidate) = .error e ∧
      (candidateTraversal db linker candidate).Meets (candidateHazard chainID candidate) e) ∨
    ∃ found,
      (candidateTraversal db linker candidate).Finds (candidateHazard chainID candidate) found ∧
      ((∃ e,db.read (crossSafeChecks linker orders chainID candidate) = .error e ∧
          ∃ p ∈ found,frontierVerdict db candidate.source.id p = .error e) ∨
        (∀ p ∈ found,frontierVerdict db candidate.source.id p = .ok ()) ∧
        (db.read (crossSafeChecks linker orders chainID candidate) = .ok () ∧
            CycleFree db candidate.derived.time found ∨
          db.read (crossSafeChecks linker orders chainID candidate) = .error .conflict ∧
            ¬ CycleFree db candidate.derived.time found)) := by
  obtain ⟨hok,herr⟩ := @crossSafeHazards_eq db linker candidate.source.id orders.messages
    orders.messages_perm (candidateHazard chainID candidate)
  simp only [crossSafeChecks,Databases.read_bind]
  cases hres : db.read (crossSafeHazards linker candidate.source.id orders.messages chainID
      (blockSealFromRef candidate.derived)) with
  | error e => exact .inl ⟨e,rfl,herr e hres⟩
  | ok found =>
    have hfi := hok found hres
    have hpm := orders.frontier_perm found
    refine .inr ⟨found,hfi,?_⟩
    simp only [ok_bind,read_hazardSafeFrontierChecks]
    cases hturn : inTurn (frontierVerdict db candidate.source.id) (orders.frontier found) with
    | error e =>
      obtain ⟨p,hp,hfa⟩ := inTurn_error hturn
      exact .inl ⟨e,rfl,p,hpm.mem_iff.mp hp,hfa⟩
    | ok u =>
      refine .inr ⟨fun p hp => inTurn_ok_iff.mp hturn p (hpm.mem_iff.mpr hp),?_⟩
      exact read_hazardCycleChecks hfi.nodup fun p hp => Finds.opens hfi hp

theorem SingleBlocks.not_clash (h : SingleBlocks db) {scope : BlockID} (start : Hazard) :
    ¬ (hazardTraversal db linker scope).Clashes start := by
  rintro ⟨x,p,q,hx,hq,hp,hkey,hne⟩
  have hled : ∀ {x q : Hazard},(hazardTraversal db linker scope).Reaches start x →
      (hazardTraversal db linker scope).Leads x q → ∃ query hash,db.hash q.1 query = .ok hash ∧
        query.timestamp = start.2.timestamp ∧ q.2 = ⟨hash,query.blockNum,start.2.timestamp⟩ := by
    rintro x q hx ⟨msgs,_,msg,_,hq⟩
    obtain ⟨_,_,hash,hhs,ht,rfl⟩ := messageNeeds_some db scope hq
    have ht' := ht.trans (reaches_timestamp hx)
    exact ⟨msg.2.query,hash,hhs,ht',by rw [ht']; rfl⟩
  obtain ⟨query,hash,hhs,ht,hqeq⟩ := hled hx hq
  obtain ⟨query',hash',hhs',ht',hpeq⟩ : ∃ query hash,db.hash p.1 query = .ok hash ∧
      query.timestamp = start.2.timestamp ∧ p.2 = ⟨hash,query.blockNum,start.2.timestamp⟩ := by
    rcases hp with hp | hp
    · obtain ⟨y,hy,hst⟩ := TransGen.tail'_iff.mp hp
      exact hled hy hst.2
    · exact hled hx hp
  rw [hkey] at hhs'
  obtain ⟨hnum,heq⟩ := h q.1 query' query hash' hash hhs' hhs (ht'.trans ht.symm)
  exact hne (by rw [hpeq,hqeq,hnum,heq])

/-- A decision that does not depend on the orders is made of errors of one class. -/
theorem oneClass_of_same (hsingle : SingleBlocks db)
    (hsame : ∀ o o',decisionOf (db.read (crossSafeChecks linker o chainID candidate))
      = decisionOf (db.read (crossSafeChecks linker o' chainID candidate))) :
    OneClass db linker chainID candidate := by
  classical
  constructor
  · have hrd : ∀ e,
        (candidateTraversal db linker candidate).Meets (candidateHazard chainID candidate) e →
        ∃ o,db.read (crossSafeChecks linker o chainID candidate) = .error e := by
      intro e he
      obtain ⟨order,hpm,hrun⟩ := he.exists_order (hazardTraversal_distinguishes _)
        (hsingle.not_clash _) (fun p q => @leads_key db linker candidate.source.id p q)
        (show (linker.chains.map Prod.fst).length + 1 < linker.chains.length + 2 by simp)
      refine ⟨{ Orders.stored with messages := order, messages_perm := hpm },?_⟩
      have hfst := read_crossSafeHazards db linker candidate.source.id order
        (candidateHazard chainID candidate)
      rw [hrun] at hfst
      simp only [crossSafeChecks]
      simp [hfst]
    intro e e' he he'
    obtain ⟨o,ho⟩ := hrd e he
    obtain ⟨o',ho'⟩ := hrd e' he'
    rw [← ho,← ho']
    exact hsame o o'
  intro hno
  have hrd : ∀ p e,Hazardous db linker chainID candidate p →
      frontierVerdict db candidate.source.id p = .error e →
      ∃ o,db.read (crossSafeChecks linker o chainID candidate) = .error e := by
    intro p e hp hvd
    refine ⟨{ Orders.stored with
      frontier := fun l => if p ∈ l then p :: l.erase p else l
      frontier_perm := fun l => ?_ },?_⟩
    · split
      · rename_i hmem
        exact (List.perm_cons_erase hmem).symm
      · exact .refl l
    obtain ⟨hok,herr⟩ := @crossSafeHazards_eq db linker candidate.source.id
      Orders.stored.messages Orders.stored.messages_perm (candidateHazard chainID candidate)
    simp only [crossSafeChecks,Databases.read_bind]
    cases hres : db.read (crossSafeHazards linker candidate.source.id Orders.stored.messages
        chainID (blockSealFromRef candidate.derived)) with
    | error e' => exact absurd (herr e' hres) (hno e')
    | ok found =>
      have hmem := ((hok found hres).mem_iff p).mpr hp
      simp [read_hazardSafeFrontierChecks,if_pos hmem,inTurn,hvd]
  intro p p' e e' hp hp' hvd hvd'
  obtain ⟨o,ho⟩ := hrd p e hp hvd
  obtain ⟨o',ho'⟩ := hrd p' e' hp' hvd'
  rw [← ho,← ho']
  exact hsame o o'

/-- Errors of one class make for one decision, in whatever orders the maps are ranged over. -/
theorem OneClass.same (h : OneClass db linker chainID candidate) (o o' : Orders) :
    decisionOf (db.read (crossSafeChecks linker o chainID candidate))
      = decisionOf (db.read (crossSafeChecks linker o' chainID candidate)) := by
  rcases @read_crossSafeChecks db linker chainID candidate o with
    ⟨e,hrd,he⟩ | ⟨found,hfi,hend⟩
  · rcases @read_crossSafeChecks db linker chainID candidate o' with
      ⟨e',hrd',he'⟩ | ⟨found',hfi',_⟩
    · rw [hrd,hrd']
      exact h.hazards e e' he he'
    · exact absurd he (hfi'.not_meets e)
  rcases @read_crossSafeChecks db linker chainID candidate o' with
    ⟨e',hrd',he'⟩ | ⟨found',hfi',hend'⟩
  · exact absurd he' (hfi.not_meets e')
  have hmem : ∀ p,p ∈ found ↔ p ∈ found' := fun p => (hfi.mem_iff p).trans (hfi'.mem_iff p).symm
  rcases hend with ⟨e,hrd,p,hp,hvd⟩ | ⟨hall,hend⟩
  · rcases hend' with ⟨e',hrd',p',hp',hvd'⟩ | ⟨hall',_⟩
    · rw [hrd,hrd']
      exact h.frontier hfi.not_meets p p' e e' ((hfi.mem_iff p).mp hp)
        ((hfi'.mem_iff p').mp hp') hvd hvd'
    · simp [hall' p ((hmem p).mp hp)] at hvd
  rcases hend' with ⟨e',_,p',hp',hvd'⟩ | ⟨_,hend'⟩
  · simp [hall p' ((hmem p').mpr hp')] at hvd'
  rcases hend with ⟨hrd,hfree⟩ | ⟨hrd,hno⟩
  · rcases hend' with ⟨hrd',_⟩ | ⟨_,hno'⟩
    · rw [hrd,hrd']
    · exact absurd (hfree.congr hmem) hno'
  rcases hend' with ⟨_,hfree'⟩ | ⟨hrd',_⟩
  · exact absurd (hfree'.congr fun p => (hmem p).symm) hno
  · rw [hrd,hrd']

end

/-- The decision does not depend on the orders of the maps if the errors in the data are of one
class, and only then where each chain has one block of a timestamp. -/
theorem decision_determined (db : Databases) (linker : FullConfigSet) (chainID : ChainID)
    (candidate : DerivedBlockRefPair) : (OneClass db linker chainID candidate →
      ∀ o o',decisionOf (db.read (crossSafeChecks linker o chainID candidate))
        = decisionOf (db.read (crossSafeChecks linker o' chainID candidate))) ∧
    (SingleBlocks db → (∀ o o',decisionOf (db.read (crossSafeChecks linker o chainID candidate))
        = decisionOf (db.read (crossSafeChecks linker o' chainID candidate))) →
      OneClass db linker chainID candidate) :=
  ⟨fun h => h.same,oneClass_of_same⟩

def Orders.backwards : Orders where
  messages _ l := l.reverse
  frontier l := l.reverse
  cycle := ⟨fun _ _ l => l.reverse,fun _ _ l => l.reverse_perm⟩
  messages_perm _ l := l.reverse_perm
  frontier_perm l := l.reverse_perm

def threeChains : FullConfigSet :=
  ⟨[(1,⟨2,some 0⟩),(2,⟨2,some 0⟩),(3,⟨2,some 0⟩)],3600⟩

/-- The tenth block of the first chain executes a message that the second chain does not have, and
one of the third chain, of which the block is not known yet. -/
def twoErrors : Databases where
  answer
    | .contains chain _ => .error (if chain = 2 then .conflict else .future)
    | .crossDerivedToSource _ _ => .error .other
    | .openBlock _ _ => .ok (⟨.fill 32 10,10,.fill 32 9,20⟩,2,
        [(0,⟨2,9,0,18,.fill 32 1⟩),(1,⟨3,9,0,18,.fill 32 2⟩)])
    | .candidateCrossSafe _ => (⟨⟨.fill 32 7,7,.fill 32 6,70⟩,⟨.fill 32 10,10,.fill 32 9,20⟩⟩,none)
    | .nextSource _ _ => .error .other
    | .crossSafe _ => .error .other
    | .previousCrossDerived _ _ => .error .other

/-- In one order the block is invalidated, in the other its dependency is waited for. -/
theorem order_decides : decisionOf (twoErrors.read (crossSafeChecks threeChains .stored 1
      ⟨⟨.fill 32 7,7,.fill 32 6,70⟩,⟨.fill 32 10,10,.fill 32 9,20⟩⟩)) = .conflict ∧
    decisionOf (twoErrors.read (crossSafeChecks threeChains .backwards 1
      ⟨⟨.fill 32 7,7,.fill 32 6,70⟩,⟨.fill 32 10,10,.fill 32 9,20⟩⟩)) = .future := by
  decide +kernel

end OpStack.Supervisor
