import OpStack.Proofs.Config
import OpStack.Supernode.RewindPlan

namespace OpStack.Supernode
open Lib Eth Interop BlockSeal List InteropStores StoreStep UInt64 Function
open OpStack.Proofs.Config (hashOf)

abbrev Ascends {α : Type} (key : α → UInt64) (l : List α) : Prop :=
  l.Pairwise fun a b => key a < key b

section
variable {α : Type} {key : α → UInt64} {l : List α} {x y : α}

theorem Ascends.le_last (h : Ascends key l) (hlast : l.getLast? = some x) (hy : y ∈ l) :
    key y ≤ key x := by
  obtain ⟨init,rfl⟩ := getLast?_eq_some_iff.mp hlast
  rw [Ascends,pairwise_append] at h
  obtain hy | hy := mem_append.mp hy
  · exact UInt64.le_of_lt (h.2.2 y hy x mem_cons_self)
  · rw [mem_singleton.mp hy]
    exact UInt64.le_refl _

theorem Ascends.snoc (h : Ascends key l) (hlast : ∀ x ∈ l.getLast?,key x < key y) :
    Ascends key (l ++ [y]) := by
  rw [Ascends,pairwise_append]
  refine ⟨h,pairwise_singleton _ _,?_⟩
  intro a ha b hb
  rw [mem_singleton.mp hb]
  obtain ⟨x,hx⟩ := Option.isSome_iff_exists.mp (getLast?_isSome.mpr (ne_nil_of_mem ha))
  exact UInt64.lt_of_le_of_lt (h.le_last hx ha) (hlast x hx)

theorem Ascends.last_eq (h : Ascends key l) (hx : x ∈ l) (hmax : ∀ y ∈ l,key y ≤ key x) :
    l.getLast? = some x := by
  obtain ⟨z,hz⟩ := Option.isSome_iff_exists.mp (getLast?_isSome.mpr (ne_nil_of_mem hx))
  obtain ⟨init,rfl⟩ := getLast?_eq_some_iff.mp hz
  rw [Ascends,pairwise_append] at h
  obtain hx | hx := mem_append.mp hx
  · have hlt := h.2.2 x hx z mem_cons_self
    exact absurd hlt (UInt64.not_lt.mpr (hmax z (mem_of_getLast? hz)))
  · rw [hz,mem_singleton.mp hx]

end

theorem toNat_pred {n : UInt64} (h : 0 < n) : (n - 1).toNat + 1 = n.toNat := by
  have hone : (1 : UInt64) ≤ n := UInt64.le_iff_toNat_le.mpr h
  rw [UInt64.toNat_sub_of_le _ _ hone]
  exact Nat.succ_pred_eq_of_pos h

structure InteropStores.Ordered (s : InteropStores) : Prop where
  results : Ascends VerifiedResult.timestamp s.verifiedDB
  blocks : ∀ c,Ascends BlockSeal.number (s.logsDBs c)

section
variable {db db' : SealedBlocks} {block : BlockSeal} {parentHash : Hash} {plan : RewindPlan}
  {c : ChainID}

theorem sealBlock_ascends {parent : Hash} {upd : BlockSeal} (h : Ascends number db)
    (hlast : ∀ last ∈ db.getLast?,last.number < upd.number)
    (hseal : db.sealBlock parent upd = .ok db') : Ascends number db' := by
  unfold SealedBlocks.sealBlock at hseal
  split at hseal
  · cases hseal
    exact pairwise_singleton _ _
  split_ifs at hseal
  cases hseal
  exact h.snoc hlast

theorem processBlockLogs_ascends {isFirst : Bool} (h : Ascends number db)
    (hfirst : isFirst = true → db = []) (hlast : ∀ last ∈ db.getLast?,last.number < block.number)
    (hok : db.processBlockLogs block parentHash isFirst = .ok db') : Ascends number db' := by
  obtain ⟨mid,hmid,hseal⟩ := of_bind_ok hok
  split_ifs at hmid with hpos
  · rw [Bool.and_eq_true,decide_eq_true_eq] at hpos
    cases hfirst hpos.1
    cases hmid
    refine sealBlock_ascends (pairwise_singleton _ _) ?_ hseal
    intro last hlast
    cases hlast
    rw [lt_iff_toNat_lt,← toNat_pred hpos.2]
    exact Nat.lt_succ_self _
  · cases hmid
    exact sealBlock_ascends h hlast hseal

theorem verifyCanAddTimestamp_latest {s : InteropStores} {ts blockTime : UInt64}
    {isBackfill : Bool} {latest : Option BlockSeal}
    (h : s.verifyCanAddTimestamp db ts blockTime isBackfill = .ok latest) :
    db.getLast? = latest := by
  unfold verifyCanAddTimestamp at h
  split at h
  · split_ifs at h <;> cases h <;> assumption
  · split_ifs at h <;> cases h <;> assumption

theorem sealBlockData_ascends {s : InteropStores} {ts blockTime : UInt64} {isBackfill : Bool}
    (h : Ascends number db)
    (hok : s.sealBlockDataIntoLogsDB db block parentHash ts blockTime isBackfill = .ok db') :
    Ascends number db' := by
  obtain ⟨latest,hcan,hok⟩ := of_bind_ok hok
  have hlat := verifyCanAddTimestamp_latest hcan
  cases latest with
  | none =>
    refine processBlockLogs_ascends h (fun _ => getLast?_eq_none_iff.mp hlat) ?_ hok
    rw [hlat]
    nofun
  | some latest =>
    dsimp only at hok
    split_ifs at hok with hgt heq hhs hpar
    · split at hok
      · split_ifs at hok
        cases hok
        exact h
      · cases hok
    · cases hok
      exact h
    refine processBlockLogs_ascends h (fun hf => Bool.noConfusion hf) ?_ hok
    rw [hlat]
    intro last hls
    cases hls
    rw [UInt64.not_lt] at hgt
    exact UInt64.lt_of_le_of_ne hgt heq

theorem rewind_eq {head : BlockID} (h : Ascends number db)
    (hok : db.rewind head = .ok db') : db' = db.filter (·.number ≤ head.number) := by
  unfold SealedBlocks.rewind at hok
  split at hok
  · split_ifs at hok
    cases hok
    rfl
  split at hok
  · rename_i first hfst
    split_ifs at hok with hlt
    cases hok
    obtain ⟨rest,rfl⟩ := head?_eq_some_iff.mp hfst
    symm
    rw [filter_eq_nil_iff]
    intro b hb
    rw [decide_eq_true_eq,UInt64.not_le]
    obtain rfl | hb := mem_cons.mp hb
    · exact hlt
    · exact UInt64.lt_trans hlt (rel_of_pairwise_cons h hb)
  · cases hok

/-- What applying a plan does to a logs database, where it returns no error. -/
theorem rewindLogs_cases (h : Ascends number db) (hok : rewindLogs plan c db = .ok db') :
    (plan.targetHeads = none ∧ db' = []) ∨ ∃ heads,plan.targetHeads = some heads ∧
      ((heads.lookup c = none ∧ db' = db) ∨
        ∃ head,heads.lookup c = some head ∧ db' = db.filter (·.number ≤ head.number)) := by
  unfold rewindLogs at hok
  split at hok
  · cases hok
    exact .inl ⟨‹_›,rfl⟩
  rename_i heads hhds
  refine .inr ⟨heads,hhds,?_⟩
  split at hok
  · rename_i head latest hhd hlat
    refine .inr ⟨head,hhd,?_⟩
    split_ifs at hok with hsk
    · cases hok
      symm
      rw [filter_eq_self]
      intro b hb
      rw [decide_eq_true_eq]
      refine UInt64.le_trans (h.le_last hlat hb) ?_
      obtain ⟨-,heq⟩ | hlt := hsk
      · rw [heq]
        exact UInt64.le_refl _
      · exact UInt64.le_of_lt hlt
    · exact rewind_eq h hok
  · rename_i hne
    cases hok
    cases hhd : heads.lookup c with
    | none => exact .inl ⟨rfl,rfl⟩
    | some head =>
      cases hlat : db.getLast? with
      | some latest => exact (hne head latest hhd hlat).elim
      | none =>
        rw [getLast?_eq_none_iff.mp hlat]
        exact .inr ⟨head,rfl,rfl⟩

end

theorem commit_ascends {db db' : VerifiedDB} {r : VerifiedResult}
    (h : Ascends VerifiedResult.timestamp db) (htime : ∀ last ∈ db.lastTimestamp,last < last + 1)
    (hcommit : db.commit r = .ok db') : Ascends VerifiedResult.timestamp db' := by
  unfold VerifiedDB.commit at hcommit
  split at hcommit
  · rename_i hno
    cases hcommit
    refine h.snoc ?_
    rw [Option.map_eq_none_iff.mp hno]
    nofun
  rename_i last hls
  split_ifs at hcommit with hnx
  · cases hcommit
    refine h.snoc ?_
    intro x hx
    have heq : x.timestamp = last := by
      rw [VerifiedDB.lastTimestamp,hx] at hls
      exact Option.some.inj hls
    rw [heq,hnx]
    exact htime last hls
  · split at hcommit
    · cases hcommit
    split_ifs at hcommit
    cases hcommit
    exact h

namespace InteropStores
variable {s s' : InteropStores} {plan : RewindPlan} {lastTS : UInt64}

theorem Ordered.update (h : s.Ordered) {chainID : ChainID} {db : SealedBlocks}
    (hdb : Ascends BlockSeal.number db) :
    { s with logsDBs := Function.update s.logsDBs chainID db }.Ordered := by
  refine ⟨h.results,?_⟩
  intro c
  change Ascends _ (Function.update s.logsDBs chainID db c)
  obtain rfl | hne := eq_or_ne c chainID
  · rw [update_self]
    exact hdb
  · rw [update_of_ne hne]
    exact h.blocks c

theorem Ordered.step (h : s.Ordered) (hstep : StoreStep s s') : s'.Ordered := by
  cases hstep with
  | seals hseal => exact h.update (sealBlockData_ascends (h.blocks _) hseal)
  | stops hfst hpos hpar =>
    refine h.update (sealBlock_ascends (h.blocks _) ?_ hpar)
    rw [verifyCanAddTimestamp_latest hfst]
    nofun
  | commits hnx htm hsealed hcommit => exact ⟨commit_ascends h.results htm hcommit,h.blocks⟩
  | restarts => exact ⟨h.results,h.blocks⟩
  | @rewinds _ _ plan =>
    refine ⟨h.results.filter _,?_⟩
    intro c
    change Ascends _ ((rewindLogs plan c (s.logsDBs c)).toOption.getD (s.logsDBs c))
    cases hlg : rewindLogs plan c (s.logsDBs c) with
    | error e => exact h.blocks c
    | ok db =>
      obtain ⟨-,rfl⟩ | ⟨_,-,⟨-,rfl⟩ | ⟨_,-,rfl⟩⟩ := rewindLogs_cases (h.blocks c) hlg
      · exact .nil
      · exact h.blocks c
      · exact (h.blocks c).filter _

theorem Ordered.of_reaches {activationTimestamp : UInt64} {chains : List ChainID}
    (hreach : Reaches StoreStep (fresh activationTimestamp chains) s) : s.Ordered :=
  hreach.invariant ⟨.nil,fun _ => .nil⟩ fun _ _ => Ordered.step

theorem buildRewindPlan_cases (h : s.buildRewindPlan lastTS = .ok plan) :
    plan.rewindAtOrAfter = lastTS ∧
      ((lastTS ≤ s.firstVerifiableTimestamp ∧ plan.targetHeads = none) ∨
        (s.firstVerifiableTimestamp < lastTS ∧ ∃ prev,s.verifiedDB.get (lastTS - 1) = some prev ∧
          plan.targetHeads = some prev.l2Heads)) := by
  unfold buildRewindPlan at h
  split_ifs at h with hle
  · cases h
    exact ⟨rfl,.inl ⟨hle,rfl⟩⟩
  split at h
  · cases h
  rename_i prev hpv
  cases h
  exact ⟨rfl,.inr ⟨UInt64.not_le.mp hle,prev,hpv,rfl⟩⟩

theorem Ordered.newest (h : s.Ordered) {prev : VerifiedResult} (hpos : 0 < lastTS)
    (hprev : s.verifiedDB.get (lastTS - 1) = some prev) :
    (s.verifiedDB.rewind lastTS).getLast? = some prev := by
  have hts : prev.timestamp = lastTS - 1 := by simpa using find?_some hprev
  have hnat := toNat_pred hpos
  rw [← hts] at hnat
  refine Ascends.last_eq (h.results.filter _) ?_ ?_
  · refine mem_filter.mpr ⟨mem_of_find?_eq_some hprev,?_⟩
    rw [decide_eq_true_eq,lt_iff_toNat_lt]
    omega
  intro r hr
  have hlt := (mem_filter.mp hr).2
  rw [decide_eq_true_eq,lt_iff_toNat_lt] at hlt
  rw [le_iff_toNat_le]
  omega

theorem applyRewindPlan_ok {chainsFail : Bool}
    (h : s.applyRewindPlan plan chainsFail = (s',false)) :
    s'.verifiedDB = s.verifiedDB.rewind plan.rewindAtOrAfter ∧
      ∀ c ∈ s.chains,rewindLogs plan c (s.logsDBs c) = .ok (s'.logsDBs c) := by
  obtain ⟨hs,herr⟩ := Prod.mk.inj h
  rw [Bool.or_eq_false_iff,any_eq_false] at herr
  subst hs
  refine ⟨rfl,?_⟩
  intro c hc
  have hok := herr.2 c hc
  cases hlg : rewindLogs plan c (s.logsDBs c) with
  | error e =>
    rw [hlg] at hok
    exact absurd rfl hok
  | ok db =>
    change _ = Except.ok ((rewindLogs plan c (s.logsDBs c)).toOption.getD (s.logsDBs c))
    rw [hlg]
    rfl

def RewoundTo (s s' : InteropStores) (lastTS : UInt64) : Prop :=
  s'.verifiedDB = s.verifiedDB.filter (·.timestamp < lastTS) ∧
    ∀ newest ∈ s'.verifiedDB.getLast?,∀ c ∈ s.chains,∀ head ∈ newest.l2Heads.lookup c,
      s'.logsDBs c = (s.logsDBs c).filter (·.number ≤ head.number)

/-- No logs database has a block that the results before the timestamp cover. -/
def NothingCovered (s : InteropStores) (lastTS : UInt64) : Prop :=
  ∀ newest ∈ (s.verifiedDB.rewind lastTS).getLast?,∀ c ∈ s.chains,
    ∀ head ∈ newest.l2Heads.lookup c,∀ b ∈ s.logsDBs c,head.number < b.number

/-- The stores agree exactly where the plan has a result to go back to, or a full clear could lose
nothing. The plan may come from a process that has backfilled to another end. -/
theorem rewound_stores_agree_iff {activationTimestamp backfillEndTimestamp : UInt64}
    {chains : List ChainID} {chainsFail : Bool}
    (hreach : Reaches StoreStep (fresh activationTimestamp chains) s)
    (hplan : { s with backfillEndTimestamp }.buildRewindPlan lastTS = .ok plan)
    (happly : s.applyRewindPlan plan chainsFail = (s',false)) : RewoundTo s s' lastTS ↔
      { s with backfillEndTimestamp }.firstVerifiableTimestamp < lastTS ∨
        NothingCovered s lastTS := by
  have hord := Ordered.of_reaches hreach
  obtain ⟨hdb,hlg⟩ := applyRewindPlan_ok happly
  obtain ⟨rfl,⟨hle,hno⟩ | ⟨hlt,prev,hpv,hhds⟩⟩ := buildRewindPlan_cases hplan
  · have hclr : ∀ c ∈ s.chains,s'.logsDBs c = [] := by
      intro c hc
      obtain ⟨-,hnil⟩ | ⟨heads,hhds,-⟩ := rewindLogs_cases (hord.blocks c) (hlg c hc)
      · exact hnil
      · simp [hno] at hhds
    rw [or_iff_right (UInt64.not_lt.mpr hle),RewoundTo,hdb]
    refine Iff.trans (and_iff_right rfl) ?_
    refine forall₄_congr fun newest _ c hc => forall₂_congr fun head _ => ?_
    rw [hclr c hc,eq_comm]
    simp [decide_eq_true_eq]
  refine iff_of_true ⟨hdb,?_⟩ (.inl hlt)
  have hpos : 0 < plan.rewindAtOrAfter := by exact Nat.zero_lt_of_lt hlt
  rw [hdb,hord.newest hpos hpv]
  intro newest hnewest c hc head hhd
  cases hnewest
  obtain ⟨hno,-⟩ | ⟨heads,hhds',hcs⟩ := rewindLogs_cases (hord.blocks c) (hlg c hc)
  · simp [hhds] at hno
  rw [hhds] at hhds'
  cases hhds'
  obtain ⟨hno,-⟩ | ⟨head',hhd',heq⟩ := hcs
  · simp [hno] at hhd
  rw [hhd'] at hhd
  cases hhd
  exact heq

def sampleSeal (n : Nat) : BlockSeal := ⟨hashOf n,.ofNat n,.ofNat n⟩

def sampleVerified (n : Nat) : VerifiedResult :=
  ⟨.ofNat n,.zero,[(1,⟨hashOf n,.ofNat n⟩)]⟩

def sampleStores (backfillEndTimestamp : UInt64) : InteropStores where
  activationTimestamp := 10
  backfillEndTimestamp
  chains := [1]
  verifiedDB := [sampleVerified 11,sampleVerified 12]
  logsDBs := update (fun _ => []) 1
    [⟨hashOf 9,9,10⟩,sampleSeal 10,sampleSeal 11,sampleSeal 12]

theorem sampleStores_reached {backfillEndTimestamp : UInt64} (h : 10 ≤ backfillEndTimestamp) :
    Reaches StoreStep (fresh 10 [1]) (sampleStores backfillEndTimestamp) := by
  have hbk : Reaches StoreStep (fresh 10 [1]) _ :=
    .single (@seals _ 1 (sampleSeal 10) (hashOf 9) 10 1 true _ rfl)
  have hsta := hbk.tail (@restarts _ 10 (.inr (by decide)))
  have h11 := hsta.tail (@seals _ 1 (sampleSeal 11) (hashOf 10) 11 1 false _ rfl)
  have h11 := h11.tail (@commits _ (sampleVerified 11) _ rfl nofun (by decide) rfl)
  have h12 := h11.tail (@seals _ 1 (sampleSeal 12) (hashOf 11) 12 1 false _ rfl)
  have h12 := h12.tail (@commits _ (sampleVerified 12) _ rfl
    (by rintro _ ⟨⟩; decide) (by decide) rfl)
  have hend := h12.tail (@restarts _ backfillEndTimestamp (.inr h))
  simp only [update_idem] at hend
  exact hend

/-- Rounds, restarts, backfills and rewinds keep both kinds of stores in strict order. -/
theorem stores_ascend {activationTimestamp : UInt64} {chains : List ChainID}
    (h : Reaches StoreStep (fresh activationTimestamp chains) s) :
    (s.verifiedDB.Pairwise fun a b => a.timestamp < b.timestamp) ∧
      ∀ c,(s.logsDBs c).Pairwise fun a b => a.number < b.number :=
  ⟨(Ordered.of_reaches h).results,(Ordered.of_reaches h).blocks⟩

theorem stores_ascend_sample :
    ((sampleStores 10).verifiedDB.Pairwise fun a b => a.timestamp < b.timestamp) ∧
      ∀ c,((sampleStores 10).logsDBs c).Pairwise fun a b => a.number < b.number :=
  stores_ascend (sampleStores_reached (by decide))

/-- In the process that has verified them, the last timestamp is taken back. -/
theorem rewound_stores_agree_running : RewoundTo (sampleStores 10)
    ((sampleStores 10).applyRewindPlan ⟨12,some 11,some (sampleVerified 11).l2Heads⟩ false).1
    12 :=
  (@rewound_stores_agree_iff _ _ _ _ 10 10 [1] false (sampleStores_reached (by decide)) rfl
    rfl).mpr (.inl (by decide))

/-- After a restart the backfill ends at the last verified block. A rewind then clears all logs,
with a verified result left. -/
theorem restarted_rewind_clears_logs : Reaches StoreStep (fresh 10 [1]) (sampleStores 12) ∧
    (sampleStores 12).buildRewindPlan 12 = .ok ⟨12,none,none⟩ ∧
    ∃ s',(sampleStores 12).applyRewindPlan ⟨12,none,none⟩ false = (s',false) ∧
      s'.verifiedDB = [sampleVerified 11] ∧ s'.logsDBs 1 = [] ∧
      ¬ RewoundTo (sampleStores 12) s' 12 := by
  refine ⟨sampleStores_reached (by decide),rfl,_,rfl,rfl,rfl,?_⟩
  intro h
  have hlg := h.2 (sampleVerified 11) rfl 1 mem_cons_self ⟨hashOf 11,11⟩ rfl
  exact absurd (congrArg length hlg) (by decide)

end InteropStores

end OpStack.Supernode
