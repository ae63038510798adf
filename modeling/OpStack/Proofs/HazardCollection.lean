import OpStack.Proofs.CrossSafeDecision

namespace OpStack.Supervisor
open Lib Eth Interop Relation Databases Traversal List Nat

/-! The blocks that are opened to collect the hazards of a candidate. -/

def Query.opens : Query → Nat
  | .openBlock _ _ => 1
  | _ => 0

def Databases.opened {α : Type} (db : Databases) (x : Reading α) : Nat :=
  x.run.cost Query.opens db.answer

variable {db : Databases} {linker : FullConfigSet} {scope : BlockID} {α β : Type} {start p : Hazard}
  (b : BlockSeal)

theorem opened_bind {x : Reading α} {f : α → Reading β} {j k : Nat} (hx : db.opened x ≤ j)
    (hf : ∀ a,db.read x = .ok a → db.opened (f a) ≤ k) : db.opened (x >>= f) ≤ j + k := by
  refine Nat.le_trans (Nat.le_of_eq (Dialogue.cost_bind _ _ x.run (ExceptT.bindCont f))) ?_
  refine Nat.add_le_add hx ?_
  cases h : Dialogue.eval db.answer x.run with
  | error e => exact Nat.zero_le k
  | ok a => exact hf a h

theorem opened_addMessage (m : ExecutingMessage)
    (s : HazardEntries × HazardEntries) : db.opened (addMessage scope b m s) ≤ 0 := by
  -- none of the questions opens a block
  repeat' first
    | exact le_refl 0
    | split
    | refine opened_bind (j := 0) (k := 0) ?_ fun _ _ => ?_

theorem opened_addMessages (msgs : ExecMsgs) (s : HazardEntries × HazardEntries) :
    db.opened (addMessages scope b msgs s) ≤ 0 := by
  induction msgs generalizing s with
  | nil => exact le_refl 0
  | cons msg rest ih =>
    exact opened_bind (j := 0) (k := 0) (opened_addMessage b msg.2 s) fun s' _ => ih s'

theorem opened_visitBlock (order : ExecMsgs → ExecMsgs) (p : Hazard)
    (s : HazardEntries × HazardEntries) :
    db.opened (visitBlock linker scope order p.1 p.2 s) ≤ 1 := by
  refine opened_bind (j := 1) (k := 0) (le_refl 1) fun r _ => ?_
  change db.opened (if r.1.id ≠ p.2.id then _ else _) ≤ 0
  split
  · exact le_refl 0
  · exact opened_bind (j := 0) (k := 0) (le_refl 0) fun _ _ => opened_addMessages p.2 _ s

theorem opened_build {order : Nat → ExecMsgs → ExecMsgs}
    (hperm : ∀ k l,(order k l).Perm l) (fuel step : Nat) {entries stack : HazardEntries}
    (h : (hazardTraversal db linker scope).Explored (linker.chains.map Prod.fst) start
      ⟨step,entries,stack⟩) : db.opened (build linker scope order fuel step entries stack) ≤
      stack.length + (linker.chains.length - entries.length) := by
  induction fuel generalizing step entries stack with
  | zero => exact zero_le _
  | succ fuel ih =>
    cases stack with
    | nil => exact zero_le _
    | cons p stack =>
      refine le_trans (opened_bind (k := stack.length + (linker.chains.length - entries.length))
          (opened_visitBlock (order step) p (entries,stack)) fun s hs => ?_)
        (by rw [length_cons]; omega)
      rw [read_visitBlock] at hs
      obtain ⟨new,rfl,h'⟩ := h.visit (hazardTraversal_distinguishes start)
        (fun p q => @leads_key db linker scope p q) rfl (hperm step) hs
      have hle := h'.length_le
      have hrs := ih (step + 1) h'
      simp only [length_append,length_map] at hle hrs
      refine le_trans hrs ?_
      omega

/-! What is collected. -/

def Follows (db : Databases) (ts : UInt64) (p q : Hazard) : Prop :=
  ∃ ref logCount msgs,db.block p.1 p.2.number = .ok (ref,logCount,msgs) ∧
    ∃ msg ∈ msgs,msg.2.timestamp = ts ∧ ∃ hash,db.hash msg.2.chainID msg.2.query = .ok hash ∧
      q = (msg.2.chainID,⟨hash,msg.2.blockNum,msg.2.timestamp⟩)

/-- The block is that of the database, its messages may be executed and are included, and those
that are older in a block that is cross-valid. -/
def Checked (db : Databases) (linker : FullConfigSet) (scope : BlockID) (p : Hazard) : Prop :=
  ∃ ref logCount msgs,db.block p.1 p.2.number = .ok (ref,logCount,msgs) ∧ ref.id = p.2.id ∧
    ∀ msg ∈ msgs,linker.canExecute p.1 p.2.timestamp msg.2.chainID msg.2.timestamp = true ∧
      ∃ hash,db.hash msg.2.chainID msg.2.query = .ok hash ∧ (msg.2.timestamp < p.2.timestamp →
        db.read (isCrossValidBlock scope msg.2.chainID ⟨hash,msg.2.blockNum⟩) = .ok ())

theorem Clean.leads_iff (h : (hazardTraversal db linker scope).Clean p) (q : Hazard) :
    (hazardTraversal db linker scope).Leads p q ↔ Follows db p.2.timestamp p q := by
  constructor
  · rintro ⟨msgs,hms,msg,hmsg,hq⟩
    obtain ⟨⟨ref,logCount,hbk,_⟩,_⟩ := openedMessages_ok db linker hms
    obtain ⟨_,_,hash,hhs,ht,rfl⟩ := messageNeeds_some db scope hq
    exact ⟨ref,logCount,msgs,hbk,msg,hmsg,ht,hash,hhs,rfl⟩
  rintro ⟨ref,logCount,msgs,hbk,msg,hmsg,ht,hash,hhs,rfl⟩
  obtain ⟨msgs',hms,_⟩ := h
  obtain ⟨⟨ref',logCount',hbk',_⟩,_⟩ := openedMessages_ok db linker hms
  rw [hbk] at hbk'
  cases hbk'
  refine ⟨msgs,hms,msg,hmsg,?_⟩
  change messageNeeds db scope p msg = _
  simp [messageNeeds,hhs,ht]

theorem Clean.checked (h : (hazardTraversal db linker scope).Clean p) :
    Checked db linker scope p := by
  obtain ⟨msgs,hms,hnds⟩ := h
  obtain ⟨⟨ref,logCount,hbk,hid⟩,hcan⟩ := openedMessages_ok db linker hms
  refine ⟨ref,logCount,msgs,hbk,hid,fun msg hmsg => ⟨hcan msg hmsg,?_⟩⟩
  obtain ⟨r,hr⟩ := hnds msg hmsg
  obtain ⟨hash,hhs,hr⟩ := of_bind_ok hr
  refine ⟨hash,hhs,fun hlt => ?_⟩
  rw [if_pos hlt] at hr
  obtain ⟨source,hsrc,hr⟩ := of_bind_ok hr
  simp only [isCrossValidBlock,read_bind,read_crossDerivedToSource,hsrc,read_ite,read_throw]
  split at hr
  · cases hr
  · rename_i hscope
    exact if_neg hscope

theorem Finds.mem_iff_follows {found : HazardEntries}
    (h : (hazardTraversal db linker scope).Finds start found) (p : Hazard) :
    p ∈ found ↔ TransGen (Follows db start.2.timestamp) start p := by
  have hst : ∀ {x q},(hazardTraversal db linker scope).Reaches start x →
      ((hazardTraversal db linker scope).Through x q ↔ Follows db start.2.timestamp x q) := by
    intro x q hx
    have hcn := h.clean x hx
    rw [← reaches_timestamp hx]
    exact (and_iff_right hcn).trans (Clean.leads_iff hcn q)
  rw [h.mem_iff]
  constructor
  · intro hp
    induction hp with
    | single hs => exact .single ((hst .refl).mp hs)
    | tail hp hs ih => exact .tail ih ((hst hp.to_reflTransGen).mp hs)
  · intro hp
    induction hp with
    | single hs => exact .single ((hst .refl).mpr hs)
    | tail hp hs ih => exact .tail ih ((hst ih.to_reflTransGen).mpr hs)

/-- The collection opens at most one block more than there are chains and never runs out of rounds:
it ends with an error or with the blocks that the candidate leads to. Any function may stand for the
check of a cross-valid block, since the sources in the database are arbitrary. -/
theorem crossSafeHazards_exact (db : Databases) (linker : FullConfigSet) (scope : BlockID)
    (orders : Orders) (start : Hazard) :
    db.opened (crossSafeHazards linker scope orders.messages start.1 start.2)
      ≤ linker.chains.length + 1 ∧
    (∀ rounds,(hazardTraversal db linker scope).run orders.messages
        (linker.chains.length + 2 + rounds) start =
          some (.ok (db.read (crossSafeHazards linker scope orders.messages start.1 start.2))) ∧
      db.read (build linker scope orders.messages (linker.chains.length + 2 + rounds) 0 []
        [start]) = db.read (crossSafeHazards linker scope orders.messages start.1 start.2)) ∧
    ∀ found,db.read (crossSafeHazards linker scope orders.messages start.1 start.2) = .ok found →
      (∀ p,p ∈ found ↔ TransGen (Follows db start.2.timestamp) start p) ∧
      ∀ p,(p = start ∨ p ∈ found) → Checked db linker scope p := by
  refine ⟨?_,?_,?_⟩
  · exact le_trans (opened_build orders.messages_perm (linker.chains.length + 2) 0
      (.initial (hazardTraversal db linker scope) (linker.chains.map Prod.fst) start))
      (le_of_eq (add_comm 1 _))
  · intro rounds
    have hend : ∀ k,∃ r,(hazardTraversal db linker scope).run orders.messages
        (linker.chains.length + 2 + k) start = some (.ok r) := by
      intro k
      obtain ⟨r,hrun,_⟩ := run_eq (hazardTraversal_distinguishes start)
        (fun p q => @leads_key db linker scope p q) orders.messages_perm
        (show (linker.chains.map Prod.fst).length + 1 < linker.chains.length + 2 + k by
          rw [length_map]
          omega)
      exact ⟨r,hrun⟩
    obtain ⟨r,hr⟩ := hend rounds
    obtain ⟨r',hr'⟩ := hend 0
    cases loop_agree hr hr'
    have hread := read_crossSafeHazards db linker scope orders.messages start
    have hmore := read_build db linker scope orders.messages
      (linker.chains.length + 2 + rounds) 0 [] [start]
    rw [hr'] at hread
    rw [← Traversal.run,hr] at hmore
    exact ⟨hr.trans (congrArg _ (congrArg _ hread.symm)),hmore.trans hread.symm⟩
  intro found hfd
  have hfi := (crossSafeHazards_eq orders.messages_perm start).1 found hfd
  refine ⟨Finds.mem_iff_follows hfi,fun p hp => Clean.checked (hfi.clean p ?_)⟩
  rcases hp with rfl | hp
  · exact .refl
  · exact ((hfi.mem_iff p).mp hp).to_reflTransGen

/-! The logs of the hazards and of the candidate. -/

def InRange (db : Databases) (ts : UInt64) (found : HazardEntries) : Prop :=
  ∀ p ∈ found,IndicesOk db p ∧ ∀ i m,(i,m) ∈ (logsAt db ts p).execMsgs →
    ∃ q ∈ found,q.1 = m.chainID ∧ m.logIdx < (logsAt db ts q).logCount

/-- The edges between the logs of some blocks: to the next log of a block, and from the log that
initiates a message of the timestamp, in the block that contains it. -/
def BlockEdge (db : Databases) (ts : UInt64) (ps : HazardEntries) (a b : Hazard × UInt32) : Prop :=
  b.1 ∈ ps ∧ (a.1 = b.1 ∧ a.2.toNat + 1 = b.2.toNat ∧ b.2 < (logsAt db ts b.1).logCount ∨
    ∃ m hash,(b.2,m) ∈ (logsAt db ts b.1).execMsgs ∧ db.hash m.chainID m.query = .ok hash ∧
      a = ((m.chainID,⟨hash,m.blockNum,m.timestamp⟩),m.logIdx))

variable {found : HazardEntries} {ts : UInt64} {a b : Hazard × UInt32}

theorem cycleFree_iff : CycleFree db ts found ↔
    InRange db ts found ∧ ∀ a,¬ OnCycle (GraphEdge (found.map (logsAt db ts))) a := by
  constructor
  · intro h
    exact ⟨fun p hp => ⟨h.indices p hp,fun i m hm => (h.initiating p hp i m hm).1⟩,h.acyclic⟩
  rintro ⟨hrange,hacy⟩
  refine ⟨fun p hp => (hrange p hp).1,fun p hp i m hm => ⟨(hrange p hp).2 i m hm,?_⟩,hacy⟩
  -- a message that executes itself is an edge from a log to itself
  intro hsl
  refine hacy (p.1,i) (.single (.inr ⟨_,mem_map_of_mem hp,i,m,hm,?_⟩))
  rw [hsl,logsAt_chainID]

theorem BlockEdge.graphEdge (h : BlockEdge db ts found a b) :
    GraphEdge (found.map (logsAt db ts)) (a.1.1,a.2) (b.1.1,b.2) := by
  obtain ⟨hb,⟨hbk,hnx,hlt⟩ | ⟨m,-,hm,_,rfl⟩⟩ := h
  · refine .inl ⟨_,mem_map_of_mem hb,b.2.toNat,by omega,UInt32.lt_iff_toNat_lt.mp hlt,?_⟩
    have hbef : a.2 = .ofNat (b.2.toNat - 1) := by simp [← hnx]
    rw [logsAt_chainID,hbk,hbef,UInt32.ofNat_toNat]
  · exact .inr ⟨_,mem_map_of_mem hb,b.2,m,hm,by rw [logsAt_chainID]; rfl⟩

/-- A candidate that is not a hazard initiates no message, so its logs lead on to later ones. -/
theorem blockEdge_leaves (h : (hazardTraversal db linker scope).Finds start found)
    (hnot : start ∉ found) (ha : a.1 = start)
    (hedge : BlockEdge db start.2.timestamp (start::found) a b) :
    b.1 = start ∧ a.2.toNat < b.2.toNat := by
  obtain ⟨hb,⟨hbk,hnx,_⟩ | ⟨m,hash,hm,hhs,rfl⟩⟩ := hedge
  · exact ⟨hbk ▸ ha,by omega⟩
  refine absurd ((Finds.mem_iff_follows h start).mpr ?_) hnot
  have hst : Follows db start.2.timestamp b.1 start := by
    unfold logsAt at hm
    split at hm
    · rename_i hbk
      obtain ⟨hmsg,ht⟩ := mem_filter.mp hm
      exact ⟨_,_,_,hbk,_,hmsg,of_decide_eq_true ht,hash,hhs,ha.symm⟩
    · cases hm
  rcases mem_cons.mp hb with hb | hb
  · exact .single (hb ▸ hst)
  · exact ((Finds.mem_iff_follows h b.1).mp hb).tail hst

/-- Once the hazards are collected, their checks pass iff the logs of the hazards have no cycle, and
then the logs of the candidate are on none either. -/
theorem hazardCycleChecks_iff (db : Databases) (linker : FullConfigSet) (scope : BlockID)
    (orders : Orders) (start : Hazard) : Ends (fun found =>
        (db.read (hazardCycleChecks orders.cycle start.2.timestamp found) = .ok () ↔
          InRange db start.2.timestamp found ∧
            ∀ a,¬ OnCycle (GraphEdge (found.map (logsAt db start.2.timestamp))) a) ∧
        (db.read (hazardCycleChecks orders.cycle start.2.timestamp found) = .ok () →
          ∀ i,¬ OnCycle (BlockEdge db start.2.timestamp (start::found)) (start,i)))
      (fun _ => True) (db.read (crossSafeHazards linker scope orders.messages start.1 start.2)) := by
  apply Ends.of_forall
  intro found hfd
  have hfi := (crossSafeHazards_eq orders.messages_perm start).1 found hfd
  have hiff : db.read (hazardCycleChecks orders.cycle start.2.timestamp found) = .ok () ↔
      CycleFree db start.2.timestamp found := by
    rcases @read_hazardCycleChecks db start.2.timestamp found orders.cycle hfi.nodup
        (fun p hp => Finds.opens hfi hp) with ⟨hok,hfree⟩ | ⟨herr,hno⟩
    · exact iff_of_true hok hfree
    · exact iff_of_false (by simp [herr]) hno
  refine ⟨hiff.trans cycleFree_iff,fun hok i hcyc => ?_⟩
  by_cases hmem : start ∈ found
  · have hedge : ∀ a b,BlockEdge db start.2.timestamp (start::found) a b →
        GraphEdge (found.map (logsAt db start.2.timestamp)) (a.1.1,a.2) (b.1.1,b.2) := by
      intro a b h
      exact BlockEdge.graphEdge ⟨(mem_cons.mp h.1).elim (fun heq => heq ▸ hmem) id,h.2⟩
    exact (hiff.mp hok).acyclic (start.1,i) (TransGen.lift _ hedge _ _ hcyc)
  have hla : ∀ {b},TransGen (BlockEdge db start.2.timestamp (start::found)) (start,i) b →
      b.1 = start ∧ i.toNat < b.2.toNat := by
    intro b hb
    induction hb with
    | single h => exact blockEdge_leaves hfi hmem rfl h
    | tail _ h ih =>
      obtain ⟨hbk,hlt⟩ := blockEdge_leaves hfi hmem ih.1 h
      exact ⟨hbk,ih.2.trans hlt⟩
  exact lt_irrefl _ (hla hcyc).2

end OpStack.Supervisor
