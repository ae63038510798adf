import OpStack.Interop.HazardSet
import OpStack.Lib.Traversal

namespace OpStack.Interop
open Lib Eth Relation Traversal TransGen

/-! The set of hazards is what a block depends on through messages of its own timestamp, whatever
order the messages come in and whatever was cached before. -/

variable {keccak256 : Bytes → Hash} {blocks : Hash → Block} {deps : CheckDeps}
  {cache : ExecMessageCache} {msgs : ExecMsgs}

def CacheSound (blocks : Hash → Block) (cache : ExecMessageCache) : Prop :=
  ∀ h entry,cache h = some entry → receiptsToExecutingMessages (blocks h).receipts = some entry

def opens (blocks : Hash → Block) (deps : CheckDeps) (chainID : ChainID) (blockNum : UInt64) :
    Except HazardError (BlockID × ExecMessageCacheEntry) := do
  let h ← canonBlockByNumber blocks deps blockNum chainID
  let entry ← orFail .other (receiptsToExecutingMessages (blocks h).receipts)
  pure ((blockSeal blocks h).id,entry)

theorem openBlock_eq (hsound : CacheSound blocks cache) (chainID : ChainID) (blockNum : UInt64) :
    ∃ cache',openBlock blocks deps chainID blockNum cache
        = (cache',opens blocks deps chainID blockNum) ∧ CacheSound blocks cache' := by
  unfold openBlock opens
  cases hcan : canonBlockByNumber blocks deps blockNum chainID with
  | error e => exact ⟨cache,rfl,hsound⟩
  | ok h =>
    simp only [ok_bind]
    cases hca : cache h with
    | some entry =>
      exact ⟨cache,by simp only [hsound h entry hca,orFail_some,ok_bind,pure_eq_ok],hsound⟩
    | none =>
      cases hrd : receiptsToExecutingMessages (blocks h).receipts with
      | none => exact ⟨cache,rfl,hsound⟩
      | some entry =>
        refine ⟨Function.update cache h (some entry),rfl,?_⟩
        intro h' entry' hen'
        by_cases heq : h' = h
        · subst heq
          rw [Function.update_self] at hen'
          rw [hrd,hen']
        · rw [Function.update_of_ne heq] at hen'
          exact hsound h' entry' hen'

abbrev Hazard := ChainID × BlockSeal

def Messages (blocks : Hash → Block) (deps : CheckDeps) (p : Hazard) (msgs : ExecMsgs) : Prop :=
  ∃ logCount,opens blocks deps p.1 p.2.number = .ok (p.2.id,⟨msgs,logCount⟩)

def Needs (keccak256 : Bytes → Hash) (blocks : Hash → Block) (deps : CheckDeps)
    (p q : Hazard) : Prop :=
  ∃ msgs i m,Messages blocks deps p msgs ∧ (i,m) ∈ msgs ∧ m.timestamp = p.2.timestamp ∧
    m.chainID = q.1 ∧ contains keccak256 blocks deps m.chainID m.query = .ok q.2

structure MessageOk (keccak256 : Bytes → Hash) (blocks : Hash → Block) (deps : CheckDeps)
    (p : Hazard) (m : ExecutingMessage) : Prop where
  canExecute : deps.linker.canExecute p.1 p.2.timestamp m.chainID m.timestamp = true
  contained : ∃ b,contains keccak256 blocks deps m.chainID m.query = .ok b

def BlockOk (keccak256 : Bytes → Hash) (blocks : Hash → Block) (deps : CheckDeps)
    (p : Hazard) : Prop :=
  ∃ msgs,Messages blocks deps p msgs ∧ ∀ i m,(i,m) ∈ msgs → MessageOk keccak256 blocks deps p m

theorem Messages.unique {p : Hazard} {msgs' : ExecMsgs} (h : Messages blocks deps p msgs)
    (h' : Messages blocks deps p msgs') : msgs = msgs' := by
  obtain ⟨n,h⟩ := h
  obtain ⟨n',h'⟩ := h'
  rw [h] at h'
  cases h'
  rfl

variable {chainID : ChainID} {query : ContainsQuery} {b : BlockSeal} {ranges : MapRanges}

theorem contains_ok_iff : contains keccak256 blocks deps chainID query = .ok b ↔
    ∃ h log,canonBlockByNumber blocks deps query.blockNum chainID = .ok h ∧
      (blocks h).time = query.timestamp ∧
      findLog query.logIdx 0 (blocks h).receipts = some log ∧
      ChecksumArgs.checksum keccak256
        ⟨query.blockNum,query.logIdx,query.timestamp,chainID,log.logHash⟩ = query.checksum ∧
      b = blockSeal blocks h := by
  constructor
  · intro h
    obtain ⟨hash,hcan,h⟩ := of_bind_ok h
    split at h
    · cases h
    rename_i htm
    obtain ⟨log,hlog,h⟩ := of_bind_ok h
    simp only at h
    split at h
    · cases h
    rename_i hsum
    cases h
    exact ⟨hash,log,hcan,not_not.mp htm,of_orFail_ok hlog,not_not.mp hsum,rfl⟩
  · rintro ⟨h,log,hcan,htm,hlog,hsum,rfl⟩
    unfold contains
    simp [hcan,htm,hlog,hsum]

theorem contains_seal (h : contains keccak256 blocks deps chainID query = .ok b) :
    b = blockSeal blocks b.hash := by
  obtain ⟨h,_,_,_,_,_,rfl⟩ := contains_ok_iff.mp h
  rfl

theorem seal_ext {s t : BlockSeal} (hs : s = blockSeal blocks s.hash)
    (ht : t = blockSeal blocks t.hash) (hid : s.id = t.id) : s = t := by
  rw [hs,ht,show s.hash = t.hash from congrArg BlockID.hash hid]

theorem canExecute_le {cfg : FullConfigSet} {c d : ChainID} {t t' : UInt64}
    (h : cfg.canExecute c t d t' = true) : t' ≤ t := by
  unfold FullConfigSet.canExecute at h
  split at h
  · simp only [Bool.and_eq_true,Bool.not_eq_true',decide_eq_false_iff_not] at h
    exact UInt64.not_lt.mp h.1.2
  · cases h

structure EntriesOk (blocks : Hash → Block) (entries : HazardEntries) : Prop where
  nodup : (entries.map Prod.fst).Nodup
  seals : ∀ p ∈ entries,p.2 = blockSeal blocks p.2.hash

/-- The whole set of hazards, each block of which is valid. -/
structure HazardsOf (keccak256 : Bytes → Hash) (blocks : Hash → Block) (deps : CheckDeps)
    (start : Hazard) (entries : HazardEntries) : Prop where
  ok : EntriesOk blocks entries
  mem_iff : ∀ p,p ∈ entries ↔ TransGen (Needs keccak256 blocks deps) start p
  blocks : ∀ p,ReflTransGen (Needs keccak256 blocks deps) start p → BlockOk keccak256 blocks deps p

theorem contains_head (h : contains keccak256 blocks deps chainID query = .ok b) :
    chainID ∈ deps.canonBlocks.map Prod.fst := by
  obtain ⟨_,_,hcan,_⟩ := contains_ok_iff.mp h
  obtain ⟨head,hhd,_⟩ := of_bind_ok hcan
  exact List.mem_map_of_mem (mem_of_lookup (of_orFail_ok hhd))

def hazards (keccak256 : Bytes → Hash) (blocks : Hash → Block) (deps : CheckDeps) :
    Traversal ChainID BlockSeal (UInt32 × ExecutingMessage) HazardError where
  items p := do
    let (opened,entry) ← opens blocks deps p.1 p.2.number
    if opened ≠ p.2.id then .error .conflict
    else do
      checkChainCanExecute deps p.1 p.2 entry.execMsgs
      pure entry.execMsgs
  examine p msg := do
    let includedIn ← contains keccak256 blocks deps msg.2.chainID msg.2.query
    if msg.2.timestamp < p.2.timestamp then pure none
    else if msg.2.timestamp = p.2.timestamp then pure (some (msg.2.chainID,includedIn))
    else throw .conflict
  same b b' := b.id = b'.id
  clash := .conflict

theorem addMessages_eq {p : Hazard} {s : HazardEntries × HazardEntries} :
    addMessages keccak256 blocks deps p.2 msgs s =
      (hazards keccak256 blocks deps).addItems p msgs s := by
  induction msgs generalizing s with
  | nil => rfl
  | cons msg rest ih =>
    have hone : addMessage keccak256 blocks deps p.2 msg.2 s =
        (hazards keccak256 blocks deps).addItem p s msg := by
      simp only [addMessage,addItem,add,hazards]
      cases contains keccak256 blocks deps msg.2.chainID msg.2.query with
      | error e => rfl
      | ok b =>
        simp only [ok_bind]
        split
        · rfl
        split
        · simp only [checkMessageWithCurrentTimestamp,pure_eq_ok]
          cases s.1.lookup msg.2.chainID with
          | none => rfl
          | some existing =>
            by_cases hid : existing.id = b.id
            · simp [hid]
            · simp [hid]
        · rfl
    unfold addMessages
    rw [hone]
    exact congrArg _ (funext fun s' => ih)

theorem visitBlock_eq {step : Nat} {p : Hazard} {s : HazardEntries × HazardEntries}
    (hsound : CacheSound blocks cache) :
    ∃ cache',visitBlock keccak256 blocks deps ranges step p.1 p.2 cache s =
        (cache',(hazards keccak256 blocks deps).visit (ranges.shuffle _ step) p s) ∧
      CacheSound blocks cache' := by
  obtain ⟨cache',hop,hsound'⟩ := openBlock_eq hsound p.1 p.2.number
  refine ⟨cache',?_,hsound'⟩
  unfold visitBlock
  rw [hop]
  change _ = (cache',((opens blocks deps p.1 p.2.number >>= _) >>= _))
  cases opens blocks deps p.1 p.2.number with
  | error e => rfl
  | ok r =>
    simp only [ok_bind,addMessages_eq]
    split
    · rfl
    cases checkChainCanExecute deps p.1 p.2 r.2.execMsgs with
    | error e => rfl
    | ok u => rfl

theorem loop_buildStep {fuel : Nat} {s : BuildState} (hsound : CacheSound blocks s.cache) :
    ∃ cache',loop (buildStep keccak256 blocks deps ranges) fuel s =
        (loop ((hazards keccak256 blocks deps).round fun k => ranges.shuffle _ k) fuel
          ⟨s.step,s.entries,s.stack⟩).map (.map fun r => (cache',r)) ∧
      CacheSound blocks cache' := by
  induction fuel generalizing s with
  | zero => exact ⟨s.cache,rfl,hsound⟩
  | succ fuel ih =>
    obtain ⟨step,cache,entries,stack⟩ := s
    unfold loop buildStep Traversal.round
    cases stack with
    | nil => exact ⟨cache,rfl,hsound⟩
    | cons p stack =>
      obtain ⟨cache',hvs,hsound'⟩ := @visitBlock_eq keccak256 blocks deps cache ranges step p
        (entries,stack) hsound
      simp only [hvs]
      cases (hazards keccak256 blocks deps).visit (ranges.shuffle _ step) p (entries,stack) with
      | error e => exact ⟨cache',rfl,hsound'⟩
      | ok s' => exact @ih ⟨step + 1,cache',s'.1,s'.2⟩ hsound'

section
variable {start p q : Hazard}

theorem items_ok_iff {msgs : ExecMsgs} : (hazards keccak256 blocks deps).items p = .ok msgs ↔
    Messages blocks deps p msgs ∧ ∀ i m,(i,m) ∈ msgs →
      deps.linker.canExecute p.1 p.2.timestamp m.chainID m.timestamp = true := by
  constructor
  · intro h
    obtain ⟨⟨opened,entry⟩,hop,h⟩ := of_bind_ok h
    simp only at h
    split at h
    · cases h
    case isFalse hid =>
      obtain ⟨u,hcan,h⟩ := of_bind_ok h
      cases h
      unfold checkChainCanExecute at hcan
      split at hcan
      case isTrue hall =>
        refine ⟨⟨entry.logCount,by rw [hop,not_not.mp hid]⟩,?_⟩
        intro i m hm
        exact List.all_eq_true.mp hall (i,m) hm
      · cases hcan
  · rintro ⟨⟨n,hop⟩,hcan⟩
    have hall : checkChainCanExecute deps p.1 p.2 msgs = .ok () := by
      unfold checkChainCanExecute
      rw [if_pos]
      exact List.all_eq_true.mpr fun x hx => hcan x.1 x.2 hx
    unfold hazards
    simp [hop,hall]

theorem examine_some_iff {msg : UInt32 × ExecutingMessage} :
    (hazards keccak256 blocks deps).examine p msg = .ok (some q) ↔
      msg.2.timestamp = p.2.timestamp ∧ msg.2.chainID = q.1 ∧
        contains keccak256 blocks deps msg.2.chainID msg.2.query = .ok q.2 := by
  constructor
  · intro h
    obtain ⟨b,hb,h⟩ := of_bind_ok h
    split at h
    · cases h
    split at h
    case isTrue ht =>
      cases h
      exact ⟨ht,rfl,hb⟩
    · cases h
  · obtain ⟨c,b⟩ := q
    rintro ⟨ht,rfl,hb⟩
    unfold hazards
    simp [hb,ht]

theorem clean_iff : (hazards keccak256 blocks deps).Clean p ↔ BlockOk keccak256 blocks deps p := by
  constructor
  · rintro ⟨msgs,hit,hcn⟩
    obtain ⟨hms,hcan⟩ := items_ok_iff.mp hit
    refine ⟨msgs,hms,fun i m hm => ⟨hcan i m hm,?_⟩⟩
    obtain ⟨r,hr⟩ := hcn (i,m) hm
    obtain ⟨b,hb,-⟩ := of_bind_ok hr
    exact ⟨b,hb⟩
  rintro ⟨msgs,hms,hok⟩
  refine ⟨msgs,items_ok_iff.mpr ⟨hms,fun i m hm => (hok i m hm).canExecute⟩,?_⟩
  intro msg hmsg
  obtain ⟨hcan,b,hb⟩ := hok msg.1 msg.2 hmsg
  unfold hazards
  simp only [hb,ok_bind]
  split
  · exact ⟨_,rfl⟩
  case isFalse hlt =>
    rw [if_pos (UInt64.le_antisymm (canExecute_le hcan) (UInt64.not_lt.mp hlt))]
    exact ⟨_,rfl⟩

theorem Needs.of_leads (h : (hazards keccak256 blocks deps).Leads p q) :
    Needs keccak256 blocks deps p q := by
  obtain ⟨msgs,hit,msg,hmsg,hq⟩ := h
  exact ⟨msgs,msg.1,msg.2,(items_ok_iff.mp hit).1,hmsg,examine_some_iff.mp hq⟩

theorem through_of_needs (hok : BlockOk keccak256 blocks deps p)
    (h : Needs keccak256 blocks deps p q) : (hazards keccak256 blocks deps).Through p q := by
  have hcn := clean_iff.mpr hok
  refine ⟨hcn,?_⟩
  obtain ⟨msgs,hit,-⟩ := hcn
  obtain ⟨msgs',i,m,hms',hm,hq⟩ := h
  cases hms'.unique (items_ok_iff.mp hit).1
  exact ⟨msgs,hit,(i,m),hm,examine_some_iff.mpr hq⟩

theorem leads_contains (h : (hazards keccak256 blocks deps).Leads p q) :
    q.1 ∈ deps.canonBlocks.map Prod.fst ∧ q.2 = blockSeal blocks q.2.hash := by
  obtain ⟨_,_,_,_,_,_,hch,hb⟩ := Needs.of_leads h
  exact ⟨hch ▸ contains_head hb,contains_seal hb⟩

theorem hazards_distinguishes : (hazards keccak256 blocks deps).Distinguishes start := by
  intro x p q _ hq hp _
  have hseal : p.2 = blockSeal blocks p.2.hash := by
    obtain hp | hp := hp
    · obtain ⟨_,_,hst⟩ := tail'_iff.mp hp
      exact (leads_contains hst.2).2
    · exact (leads_contains hp).2
  constructor
  · intro hid
    exact seal_ext hseal (leads_contains hq).2 (of_decide_eq_true hid)
  · intro heq
    exact decide_eq_true (congrArg BlockSeal.id heq)

theorem finds_iff {entries : HazardEntries} : (hazards keccak256 blocks deps).Finds start entries ↔
    HazardsOf keccak256 blocks deps start entries := by
  have hnds : (hazards keccak256 blocks deps).Through ≤ Needs keccak256 blocks deps :=
    fun _ _ hst => Needs.of_leads hst.2
  constructor
  · intro h
    have hrch : ∀ p,ReflTransGen (Needs keccak256 blocks deps) start p →
        (hazards keccak256 blocks deps).Reaches start p := by
      intro p hp
      induction hp with
      | refl => exact .refl
      | tail _ hst ih => exact ih.tail (through_of_needs (clean_iff.mp (h.clean _ ih)) hst)
    refine ⟨⟨h.nodup,?_⟩,?_,fun p hp => clean_iff.mp (h.clean p (hrch p hp))⟩
    · intro p hp
      obtain ⟨_,_,hst⟩ := tail'_iff.mp ((h.mem_iff p).mp hp)
      exact (leads_contains hst.2).2
    intro p
    rw [h.mem_iff]
    constructor
    · exact mono hnds _ _
    intro hp
    obtain ⟨x,hx,hst⟩ := tail'_iff.mp hp
    have hx' := hrch x hx
    exact tail' hx' (through_of_needs (clean_iff.mp (h.clean x hx')) hst)
  · intro h
    refine ⟨h.ok.nodup,?_,fun p hp => clean_iff.mpr (h.blocks p (ReflTransGen.mono hnds _ _ hp))⟩
    intro p
    rw [h.mem_iff]
    constructor
    · intro hp
      induction hp with
      | single hst => exact .single (through_of_needs (h.blocks _ .refl) hst)
      | tail hp hst ih => exact ih.tail (through_of_needs (h.blocks _ hp.to_reflTransGen) hst)
    · exact mono hnds _ _

end

/-- The loop over the stack ends. Without an error its entries are the hazards of the block, and
with one they are not all valid. -/
theorem newHazardSet_eq {start : Hazard} (hsound : CacheSound blocks cache) :
    ∃ cache' result,newHazardSet keccak256 blocks deps ranges start.1 start.2 cache
        = some (.ok (cache',result)) ∧ CacheSound blocks cache' ∧
      (∀ entries,result = .ok entries → HazardsOf keccak256 blocks deps start entries) ∧
      (∀ e,result = .error e → ¬ ∃ entries,HazardsOf keccak256 blocks deps start entries) := by
  obtain ⟨cache',hlp,hsound'⟩ := @loop_buildStep keccak256 blocks deps ranges
    (deps.canonBlocks.length + 2) ⟨0,cache,[],[start]⟩ hsound
  obtain ⟨result,hrun,hok,her⟩ := @run_eq _ _ _ _ (hazards keccak256 blocks deps)
    start (deps.canonBlocks.map Prod.fst) _ (fun k => ranges.shuffle _ k) hazards_distinguishes
    (fun p q h => (leads_contains h).1) (fun k l => ranges.perm _ k l)
    (deps.canonBlocks.length + 2) (by simp)
  refine ⟨cache',result,?_,hsound',fun entries h => finds_iff.mp (hok entries h),?_⟩
  · unfold newHazardSet
    rw [hlp]
    exact congrArg _ hrun
  · rintro e h ⟨entries,hall⟩
    exact (finds_iff.mpr hall).not_meets e (her e h)

end OpStack.Interop
