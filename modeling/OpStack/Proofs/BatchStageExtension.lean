import OpStack.Proofs.BatchStage
import OpStack.Proofs.Config

namespace OpStack.Proofs.BatchStageExtension
open Lib Eth Rollup Derive BatchStage Derive.BatchStage List Option UInt64

structure L1Chain where
  block : Nat → L1BlockRef
  number_eq : ∀ n,n < 2 ^ 64 → (block n).number.toNat = n

structure StageState where
  stage : Derive.BatchStage
  parent : L2BlockRef

variable {π : Type} (cfg : Config) (chain : L1Chain) (prev : NextBatchProvider π)

def canonical (number : UInt64) : L1BlockRef := chain.block number.toNat

structure ValidExtension (parent : L2BlockRef) (b : SingularBatch) : Prop where
  parent_hash : b.parentHash = parent.hash
  timestamp : b.timestamp.toNat = parent.time.toNat + cfg.blockTime.toNat
  epoch : b.epochNum = parent.l1Origin.number ∨
    b.epochNum.toNat = parent.l1Origin.number.toNat + 1
  epoch_hash : b.epochHash = (canonical chain b.epochNum).hash
  epoch_time : (canonical chain b.epochNum).time ≤ b.timestamp

def Extends (parent child : L2BlockRef) (b : SingularBatch) : Prop :=
  child.parentHash = parent.hash ∧ child.number = parent.number + 1 ∧ child.time = b.timestamp ∧
  child.l1Origin = b.epoch

/-- One call in a state of the previous stage: the origin it reports is that of the last call or
the next L1 block. -/
def OriginAdvances (s : StageState) (p : π) : Prop :=
  prev.origin p = s.stage.origin ∨
  (s.stage.origin.number.toNat + 1 < 2 ^ 64 ∧
    prev.origin p = chain.block (s.stage.origin.number.toNat + 1))

/-- Every call meets `ok`. The previous stage may be in any state at a call, and a returned batch
may or may not become the next parent. -/
inductive Step (ok : StageState → π → Prop) : StageState → StageState → Prop
  | call (s : StageState) (p : π) (fetch : UInt64 → Option L2BlockRef)
      (ha : OriginAdvances chain prev s p) (hok : ok s p) :
      Step ok s ⟨(Derive.BatchStage.nextBatch cfg prev fetch (s.stage,p) s.parent).1.1,s.parent⟩
  | emit (s : StageState) (p : π) (fetch : UInt64 → Option L2BlockRef) (b : SingularBatch)
      (c : Bool) (child : L2BlockRef) (ha : OriginAdvances chain prev s p) (hok : ok s p)
      (h : (Derive.BatchStage.nextBatch cfg prev fetch (s.stage,p) s.parent).2 = .batch b c)
      (hc : Extends s.parent child b) :
      Step ok s ⟨(Derive.BatchStage.nextBatch cfg prev fetch (s.stage,p) s.parent).1.1,child⟩
  | flush (s : StageState) : Step ok s ⟨{ s.stage with nextSpan := [] },s.parent⟩

def resetAt (parent : L2BlockRef) : StageState :=
  ⟨.reset (canonical chain parent.l1Origin.number),parent⟩

structure SafeParent (parent : L2BlockRef) : Prop where
  origin : parent.l1Origin = (canonical chain parent.l1Origin.number).id
  time : (canonical chain parent.l1Origin.number).time ≤ parent.time

/-- The buffered L1 blocks are those from number `a` to the origin. -/
structure Window (bs : Derive.BatchStage) (parent : L2BlockRef) (a : Nat) : Prop where
  origin : bs.origin = canonical chain bs.origin.number
  blocks : bs.l1Blocks = (List.range' a (bs.origin.number.toNat + 1 - a)).map chain.block
  front_le : a ≤ bs.origin.number.toNat
  parent_le : parent.l1Origin.number.toNat ≤ bs.origin.number.toNat
  front : a ≤ parent.l1Origin.number.toNat ∨
    (a = parent.l1Origin.number.toNat + 1 ∧ (chain.block a).time ≤ parent.time + cfg.blockTime)

structure Tracks (s : StageState) : Prop where
  parent : SafeParent chain s.parent
  window : ∃ a,Window cfg chain s.stage s.parent a

variable {cfg : Config} {chain : L1Chain} {prev : NextBatchProvider π}

variable {s : StageState} {parent : L2BlockRef} {a : Nat} {bs : Derive.BatchStage}
  {b : SingularBatch} {p : π} {k : Nat} {fetch : UInt64 → Option L2BlockRef}

theorem Step.call_eq {ok : StageState → π → Prop} {stage' : Derive.BatchStage}
    (fetch : UInt64 → Option L2BlockRef) (ha : OriginAdvances chain prev s p) (hok : ok s p)
    (h : (nextBatch cfg prev fetch (s.stage,p) s.parent).1.1 = stage') :
    Step cfg chain prev ok s ⟨stage',s.parent⟩ :=
  h ▸ .call s p fetch ha hok

theorem canonical_number (chain : L1Chain) (n : UInt64) : (canonical chain n).number = n := by
  rw [← UInt64.toNat_inj]
  exact chain.number_eq n.toNat n.toNat_lt

theorem resetAt_tracks (h : SafeParent chain parent) : Tracks cfg chain (resetAt chain parent) := by
  have hn := canonical_number chain parent.l1Origin.number
  refine ⟨h,parent.l1Origin.number.toNat,?_,?_,?_,?_,.inl le_rfl⟩
  · simp [resetAt,reset,hn]
  · simp only [resetAt,reset,hn]
    simp [canonical]
  · simp [resetAt,reset,hn]
  · simp [resetAt,reset,hn]

theorem dropWhile_window (chain : L1Chain) {p : Nat} (ha : a ≤ p) (hp : p < a + k)
    (hk : a + k ≤ 2 ^ 64) :
    ((range' a k).map chain.block).dropWhile (fun l1 => l1.number ≠ ofNat p) =
      (range' p (a + k - p)).map chain.block := by
  induction k generalizing a with
  | zero => omega
  | succ k ih =>
    have hnum := chain.number_eq a (by omega)
    rw [range'_succ,map_cons]
    by_cases he : a = p
    · subst he
      have hx : (chain.block a).number = ofNat a := by
        rw [← UInt64.toNat_inj,UInt64.toNat_ofNat']
        omega
      have hl : a + (k + 1) - a = k + 1 := by omega
      rw [dropWhile_cons_of_neg (by simp [hx]),hl,range'_succ,map_cons]
    have hx : (chain.block a).number ≠ ofNat p := by
      intro hx
      rw [← UInt64.toNat_inj,UInt64.toNat_ofNat'] at hx
      omega
    have hi := ih (a := a + 1) (by omega) (by omega) (by omega)
    rw [dropWhile_cons_of_pos (by simpa using hx),hi]
    congr 2
    omega

theorem pruneOrigins_window (chain : L1Chain) {p : UInt64} (hk : 0 < k)
    (hb : a + k ≤ 2 ^ 64) (hp : p.toNat < a + k) : pruneOrigins p ((range' a k).map chain.block) =
      (range' (max a p.toNat) (a + k - max a p.toNat)).map chain.block := by
  obtain ⟨k,rfl⟩ : ∃ j,k = j + 1 := ⟨k - 1,by omega⟩
  have hnum := chain.number_eq a (by omega)
  have hcs : (range' a (k + 1)).map chain.block =
      chain.block a::(range' (a + 1) k).map chain.block := by
    rw [range'_succ,map_cons]
  by_cases hlt : a < p.toNat
  · have hd := dropWhile_window chain (le_of_lt hlt) hp hb
    rw [UInt64.ofNat_toNat] at hd
    have hfro : (chain.block a).number < p := by
      rw [lt_iff_toNat_lt,hnum]
      exact hlt
    have hmax : max a p.toNat = p.toNat := by omega
    rw [hmax]
    rw [hcs] at hd ⊢
    simp only [pruneOrigins,hfro,↓reduceIte,hd]
    obtain ⟨j,hj⟩ : ∃ j,a + (k + 1) - p.toNat = j + 1 := ⟨a + k - p.toNat,by omega⟩
    rw [hj,range'_succ,map_cons]
  · have hfro : ¬ (chain.block a).number < p := by
      rw [lt_iff_toNat_lt,hnum]
      exact hlt
    have hmax : max a p.toNat = a := by omega
    have hlen : a + (k + 1) - a = k + 1 := by omega
    rw [hmax,hlen,hcs]
    simp [pruneOrigins,hfro]

/-- The window after `updateOrigins`: it reaches up to the new origin and starts at the parent's
origin or one past it. -/
theorem updateOrigins_window {o : L1BlockRef} (hs : Tracks cfg chain s)
    (ho : o = s.stage.origin ∨ (s.stage.origin.number.toNat + 1 < 2 ^ 64 ∧
      o = chain.block (s.stage.origin.number.toNat + 1))) :
    ∃ a,Window cfg chain (s.stage.updateOrigins o s.parent) s.parent a ∧
      s.parent.l1Origin.number.toNat ≤ a := by
  obtain ⟨a,hw⟩ := hs.window
  have hfro := hw.front_le
  have hpar := hw.parent_le
  -- the buffer before pruning, in both cases a window up to the new origin
  have hgr : ∃ bs : Derive.BatchStage,s.stage.updateOrigins o s.parent =
      { bs with l1Blocks := pruneOrigins s.parent.l1Origin.number bs.l1Blocks } ∧
      bs.origin = canonical chain bs.origin.number ∧
      bs.l1Blocks = (range' a (bs.origin.number.toNat + 1 - a)).map chain.block ∧
      s.stage.origin.number.toNat ≤ bs.origin.number.toNat := by
    rcases ho with rfl | ⟨hlt,rfl⟩
    · exact ⟨s.stage,by simp [updateOrigins],hw.origin,hw.blocks,le_rfl⟩
    have hnum := chain.number_eq _ hlt
    have hne : s.stage.origin ≠ chain.block (s.stage.origin.number.toNat + 1) := by
      intro he
      rw [← he] at hnum
      omega
    have hbh : ¬ (chain.block (s.stage.origin.number.toNat + 1)).number <
        s.parent.l1Origin.number := by
      rw [lt_iff_toNat_lt]
      omega
    refine ⟨{ s.stage with
        origin := chain.block (s.stage.origin.number.toNat + 1)
        l1Blocks := s.stage.l1Blocks ++ [chain.block (s.stage.origin.number.toNat + 1)] },
      by simp [updateOrigins,hne,hbh],?_,?_,?_⟩
    · simp [canonical,hnum]
    · have hlen : (chain.block (s.stage.origin.number.toNat + 1)).number.toNat + 1 - a =
          (s.stage.origin.number.toNat + 1 - a) + 1 := by omega
      have hend : a + 1 * (s.stage.origin.number.toNat + 1 - a) =
          s.stage.origin.number.toNat + 1 := by omega
      simp only [hw.blocks,hlen]
      rw [range'_concat,map_append,hend,map_singleton]
    · simp [hnum]
  obtain ⟨bs,hu,hcan,hbs,hle⟩ := hgr
  have hlt64 := bs.origin.number.toNat_lt
  have hprune := pruneOrigins_window chain (a := a) (k := bs.origin.number.toNat + 1 - a)
    (p := s.parent.l1Origin.number) (by omega) (by omega) (by omega)
  refine ⟨max a s.parent.l1Origin.number.toNat,?_,le_max_right _ _⟩
  rw [hu]
  constructor
  · exact hcan
  · simp only [hbs,hprune]
    congr 2
    omega
  · simp only
    omega
  · simp only
    omega
  rcases hw.front with hf | ⟨hf,ht⟩
  · omega
  right
  have hm : max a s.parent.l1Origin.number.toNat = a := by omega
  rw [hm]
  exact ⟨hf,ht⟩

theorem window_zero (hw : Window cfg chain bs parent a) :
    bs.l1Blocks[0]? = some (chain.block a) := by
  have hf := hw.front_le
  rw [hw.blocks,getElem?_map,getElem?_range' (by omega)]
  simp

theorem window_one {l1 : L1BlockRef} (hw : Window cfg chain bs parent a)
    (h : bs.l1Blocks[1]? = some l1) :
    l1 = chain.block (a + 1) ∧ a + 1 ≤ bs.origin.number.toNat := by
  by_cases hlt : 1 < bs.origin.number.toNat + 1 - a
  · rw [hw.blocks,getElem?_map,getElem?_range' hlt] at h
    simp only [map_some,some.injEq] at h
    exact ⟨h.symm,by omega⟩
  · rw [hw.blocks,getElem?_eq_none (by simp; omega)] at h
    cases h

/-- The L2 time does not overflow, and once the stage has moved its L1 blocks one past the parent's
origin, no batch for the epoch after that is next in line at the next timestamp. -/
structure KeepsEpochs (cfg : Config) (prev : NextBatchProvider π) (s : StageState) (p : π) :
    Prop where
  no_overflow : s.parent.time.toNat + cfg.blockTime.toNat < 2 ^ 64
  no_skip : ∀ epoch,(s.stage.updateOrigins (prev.origin p) s.parent).l1Blocks[0]? = some epoch →
    epoch.number = s.parent.l1Origin.number + 1 →
    ¬ Offers s.stage.nextSpan (prev.nextBatch p).2 (s.parent.time + cfg.blockTime)
      (epoch.number + 1)

theorem updateOrigins_nextSpan (bs : Derive.BatchStage) (o : L1BlockRef) (parent : L2BlockRef) :
    (bs.updateOrigins o parent).nextSpan = bs.nextSpan := by
  unfold updateOrigins
  split
  · split <;> rfl
  · rfl

private theorem block_number {n : UInt64} (hn : n = (chain.block a).number) (ha : a < 2 ^ 64) :
    n.toNat = a := by
  rw [hn]
  exact chain.number_eq a ha

/-- A batch on a canonical block between the front of the window and the next extends the parent
validly, unless it skips an epoch. -/
theorem valid_on_block {n : Nat} (hov : parent.time.toNat + cfg.blockTime.toNat < 2 ^ 64)
    (hts : b.timestamp = parent.time + cfg.blockTime) (hph : b.parentHash = parent.hash)
    (hn : b.epochNum.toNat = n) (hh : b.epochHash = (chain.block n).hash)
    (ht : (chain.block n).time ≤ b.timestamp)
    (hp : n = parent.l1Origin.number.toNat ∨ n = parent.l1Origin.number.toNat + 1) :
    ValidExtension cfg chain parent b := by
  have hcan : canonical chain b.epochNum = chain.block n := by rw [canonical,hn]
  refine ⟨hph,?_,?_,by rw [hcan,hh],by rw [hcan]; exact ht⟩
  · rw [hts,UInt64.toNat_add,Nat.mod_eq_of_lt hov]
  rcases hp with hp | hp
  · left
    rw [← UInt64.toNat_inj,hn,hp]
  · right
    rw [hn,hp]

theorem emits_valid (hs : Tracks cfg chain s) (ha : OriginAdvances chain prev s p)
    (hk : KeepsEpochs cfg prev s p)
    (he : Emits cfg (s.stage.updateOrigins (prev.origin p) s.parent) (prev.nextBatch p).2 s.parent
      b) :
    ValidExtension cfg chain s.parent b := by
  obtain ⟨a,hw,hle⟩ := updateOrigins_window hs ha
  have hfro := window_zero hw
  have ha64 := lt_of_le_of_lt hw.front_le (toNat_lt _)
  have hov := hk.no_overflow
  have hnx : s.parent.time ≤ s.parent.time + cfg.blockTime := by
    rw [UInt64.le_iff_toNat_le,UInt64.toNat_add]
    omega
  -- the front of the window is at or one past the parent's origin
  have hcs : a = s.parent.l1Origin.number.toNat ∨ a = s.parent.l1Origin.number.toNat + 1 := by
    rcases hw.front with hf | ⟨hf,-⟩
    · omega
    · exact .inr hf
  have hfrontTime : (chain.block a).time ≤ s.parent.time + cfg.blockTime := by
    rcases hw.front with hf | ⟨-,ht⟩
    · have hp : a = s.parent.l1Origin.number.toNat := by omega
      rw [hp]
      exact UInt64.le_trans hs.parent.time hnx
    · exact ht
  cases he with
  | empty epoch he hb =>
    rw [hfro,some.injEq] at he
    subst he hb
    exact valid_on_block hov rfl rfl (chain.number_eq a ha64) rfl hfrontTime hcs
  | accepted hv ho =>
    obtain ⟨epoch,origin,he,hts,hph,hor,hh,ht⟩ := checkSingularBatch_accept hv
    rw [hfro,some.injEq] at he
    subst he
    rcases hor with ⟨hn,rfl⟩ | ⟨hn,hgt,h1⟩
    · exact valid_on_block hov hts hph (block_number hn ha64) hh ht hcs
    obtain ⟨rfl,hle1⟩ := window_one hw h1
    have hn1 : b.epochNum.toNat = a + 1 := by
      have hnum := chain.number_eq a ha64
      rw [UInt64.lt_iff_toNat_lt,hn,UInt64.toNat_add,hnum] at hgt
      rw [hn,UInt64.toNat_add]
      simp only [reduceToNat] at hgt ⊢
      omega
    rcases hcs with hp | hp
    · exact valid_on_block hov hts hph hn1 hh ht (.inr (by omega))
    -- the window had moved on: the batch would skip the epoch in between
    refine absurd ?_ (hk.no_skip _ hfro ?_)
    · rw [updateOrigins_nextSpan,hts,hn] at ho
      exact ho
    rw [← UInt64.toNat_inj,chain.number_eq a ha64,UInt64.toNat_add]
    simp only [reduceToNat]
    omega

theorem nextBatch_emits {c : Bool}
    (hs : Tracks cfg chain s) (ha : OriginAdvances chain prev s p) (hk : KeepsEpochs cfg prev s p)
    (h : (nextBatch cfg prev fetch (s.stage,p) s.parent).2 = .batch b c) :
    ValidExtension cfg chain s.parent b := by
  obtain ⟨-,⟨-,hb⟩ | ⟨-,hr⟩⟩ := nextBatch_spec cfg prev fetch s.stage p s.parent
  · exact emits_valid hs ha hk (hb b c h)
  · exact absurd h (hr b c)

theorem safe_child {child : L2BlockRef} (hv : ValidExtension cfg chain parent b)
    (hc : Extends parent child b) : SafeParent chain child := by
  obtain ⟨-,-,ht,ho⟩ := hc
  have hnum : child.l1Origin.number = b.epochNum := by rw [ho]; rfl
  have hcan := canonical_number chain b.epochNum
  refine ⟨?_,?_⟩
  · rw [ho,SingularBatch.epoch,L1BlockRef.id,hv.epoch_hash,hcan]
  · rw [hnum,ht]
    exact hv.epoch_time

theorem call_window (hs : Tracks cfg chain s)
    (ha : OriginAdvances chain prev s p) : ∃ a,Window cfg chain
      (nextBatch cfg prev fetch (s.stage,p) s.parent).1.1 s.parent a := by
  obtain ⟨a,hw,hle⟩ := updateOrigins_window hs ha
  obtain ⟨ho,⟨hl,-⟩ | ⟨⟨epoch,next,rest,hb,hb',ht,hne⟩,-⟩⟩ :=
    nextBatch_spec cfg prev fetch s.stage p s.parent
  · refine ⟨a,?_,?_,?_,?_,hw.front⟩
    · rw [ho]
      exact hw.origin
    · rw [ho,hl]
      exact hw.blocks
    · rw [ho]
      exact hw.front_le
    · rw [ho]
      exact hw.parent_le
  -- the front moves on only from the parent's own origin
  have h0 := window_zero hw
  rw [hb,getElem?_cons_zero,some.injEq] at h0
  have h1 : (s.stage.updateOrigins (prev.origin p) s.parent).l1Blocks[1]? = some next := by
    simp [hb]
  obtain ⟨rfl,hle1⟩ := window_one hw h1
  have ha64 := lt_of_le_of_lt hw.front_le (toNat_lt _)
  have hfro : a = s.parent.l1Origin.number.toNat := by
    rcases hw.front with hf | ⟨hf,-⟩
    · omega
    refine absurd ?_ hne
    rw [h0,← UInt64.toNat_inj,chain.number_eq a ha64,UInt64.toNat_add]
    simp only [reduceToNat]
    omega
  refine ⟨a + 1,?_,?_,?_,?_,.inr ⟨by omega,ht⟩⟩
  · rw [ho]
    exact hw.origin
  · have hbs := hw.blocks
    obtain ⟨k,hk⟩ : ∃ k,
        (s.stage.updateOrigins (prev.origin p) s.parent).origin.number.toNat + 1 - a = k + 1 :=
      Nat.exists_eq_succ_of_ne_zero (by omega)
    rw [hk,range'_succ,map_cons,hb,cons.injEq] at hbs
    rw [ho,hb',hbs.2]
    congr 2
    omega
  · rw [ho]
    exact hle1
  · rw [ho]
    exact hw.parent_le

theorem emits_window {answer : Except StageError Batch} (hw : Window cfg chain bs parent a)
    (he : Emits cfg bs answer parent b) :
    a ≤ b.epochNum.toNat ∧ b.epochNum.toNat ≤ bs.origin.number.toNat := by
  have hfro := window_zero hw
  have ha64 := lt_of_le_of_lt hw.front_le (toNat_lt _)
  have hnum := chain.number_eq a ha64
  cases he with
  | empty epoch he hb =>
    rw [hfro,some.injEq] at he
    subst he hb
    simp only [hnum]
    exact ⟨le_rfl,hw.front_le⟩
  | accepted hv ho =>
    obtain ⟨epoch,origin,he,-,-,hor,-⟩ := checkSingularBatch_accept hv
    rw [hfro,some.injEq] at he
    subst he
    rcases hor with ⟨hn,-⟩ | ⟨hn,hgt,h1⟩
    · rw [hn,hnum]
      exact ⟨le_rfl,hw.front_le⟩
    obtain ⟨-,hle1⟩ := window_one hw h1
    rw [lt_iff_toNat_lt] at hgt
    have hup : b.epochNum.toNat ≤ a + 1 := by
      rw [hn,UInt64.toNat_add,hnum]
      exact Nat.mod_le _ _
    omega

theorem step_tracks {s' : StageState} (hs : Tracks cfg chain s)
    (h : Step cfg chain prev (KeepsEpochs cfg prev) s s') : Tracks cfg chain s' := by
  cases h with
  | call p fetch ha hok => exact ⟨hs.parent,call_window hs ha⟩
  | emit p fetch b c child ha hok hn hc =>
    have hv := nextBatch_emits hs ha hok hn
    obtain ⟨a,hw,-⟩ := updateOrigins_window hs ha
    obtain ⟨ho,⟨hl,hb⟩ | ⟨-,hr⟩⟩ := nextBatch_spec cfg prev fetch s.stage p s.parent
    · obtain ⟨hlo,hhi⟩ := emits_window hw (hb b c hn)
      have hnum : child.l1Origin.number = b.epochNum := by rw [hc.2.2.2]; rfl
      refine ⟨safe_child hv hc,a,?_,?_,?_,?_,.inl (by rw [hnum]; exact hlo)⟩
      · rw [ho]
        exact hw.origin
      · rw [ho,hl]
        exact hw.blocks
      · rw [ho]
        exact hw.front_le
      · rw [ho,hnum]
        exact hhi
    · exact absurd hn (hr b c)
  | flush =>
    obtain ⟨a,hw⟩ := hs.window
    exact ⟨hs.parent,a,hw.origin,hw.blocks,hw.front_le,hw.parent_le,hw.front⟩

/-- In every run of calls that keep the epochs, from a reset at the parent's origin, a returned
batch is a valid extension of the parent of its call. -/
theorem next_batch_extends_parent {parent : L2BlockRef} {s : StageState} {p : π}
    (fetch : UInt64 → Option L2BlockRef) {b : SingularBatch} {c : Bool}
    (hp : SafeParent chain parent)
    (hr : Reaches (Step cfg chain prev (KeepsEpochs cfg prev)) (resetAt chain parent) s)
    (ha : OriginAdvances chain prev s p) (hk : KeepsEpochs cfg prev s p)
    (h : (Derive.BatchStage.nextBatch cfg prev fetch (s.stage,p) s.parent).2 = .batch b c) :
    ValidExtension cfg chain s.parent b :=
  nextBatch_emits (hr.invariant (resetAt_tracks hp) fun _ _ => step_tracks) ha hk h

open Config

def scripted : NextBatchProvider (L1BlockRef × Except StageError Batch) :=
  ⟨Prod.fst,fun p => (p,p.2),id⟩

def sampleChain : L1Chain where
  block n := ⟨hashOf n,ofNat n,hashOf (n - 1),ofNat (n + 10)⟩
  number_eq n h := by
    simp only [toNat_ofNat']
    omega

def sampleParent : L2BlockRef :=
  ⟨hashOf 100,0,hashOf 99,20,(sampleChain.block 0).id,0⟩

theorem sampleParent_safe : SafeParent sampleChain sampleParent := ⟨rfl,by decide⟩

def batchOnEpoch (n : Nat) : SingularBatch :=
  ⟨hashOf 100,ofNat n,hashOf n,22,[]⟩

def sampleChild : L2BlockRef := ⟨hashOf 101,1,hashOf 100,22,(sampleChain.block 0).id,1⟩

def sampleNext : SingularBatch := ⟨hashOf 101,1,hashOf 1,24,[]⟩

/-- While the first buffered L1 block is the parent's origin, no epoch is skipped. -/
theorem keepsEpochs_of_front {p : L1BlockRef × Except StageError Batch}
    (hov : s.parent.time.toNat + sampleConfig.blockTime.toNat < 2 ^ 64)
    (hfront : (s.stage.updateOrigins p.1 s.parent).l1Blocks[0]? = some (sampleChain.block 0))
    (horigin : s.parent.l1Origin.number = 0) : KeepsEpochs sampleConfig scripted s p := by
  refine ⟨hov,?_⟩
  intro epoch he hn
  rw [some.inj (he.symm.trans hfront),horigin] at hn
  exact absurd hn (by decide)

/-- The batch of the first call becomes a block, and the batch of the second call extends it on the
next epoch. -/
theorem next_batch_extends_parent_sample :
    ValidExtension sampleConfig sampleChain sampleChild sampleNext := by
  have hfirst : Step sampleConfig sampleChain scripted (KeepsEpochs sampleConfig scripted)
      (resetAt sampleChain sampleParent) ⟨_,sampleChild⟩ :=
    .emit _ (sampleChain.block 1,.ok (.singular (batchOnEpoch 0))) (fun _ => none) (batchOnEpoch 0)
      true sampleChild (.inr ⟨by decide,rfl⟩) (keepsEpochs_of_front (by decide) rfl rfl)
      (by decide +kernel) ⟨rfl,rfl,rfl,rfl⟩
  exact next_batch_extends_parent (p := (sampleChain.block 1,.ok (.singular sampleNext)))
    (fun _ => none) (c := true) sampleParent_safe (.single hfirst) (.inl (by decide +kernel))
    (keepsEpochs_of_front (by decide) (by decide +kernel) rfl) (by decide +kernel)

/-- Window size 2. At origin 2 the window of epoch 0 has expired and the stage moves its L1 blocks
on to epoch 1; at origin 3 it accepts a batch for epoch 2 on the parent of epoch 0, so epoch 1 stays
without a block. -/
theorem next_batch_skips_epoch :
    ∃ s,Reaches (Step sampleConfig sampleChain scripted fun _ _ => True)
        (resetAt sampleChain sampleParent) s ∧
      OriginAdvances sampleChain scripted s (sampleChain.block 3,.ok (.singular (batchOnEpoch 2))) ∧
      (Derive.BatchStage.nextBatch sampleConfig scripted (fun _ => none)
        (s.stage,(sampleChain.block 3,.ok (.singular (batchOnEpoch 2)))) s.parent).2 =
          .batch (batchOnEpoch 2) true ∧
      ¬ ValidExtension sampleConfig sampleChain s.parent (batchOnEpoch 2) := by
  let stage1 : Derive.BatchStage :=
    ⟨sampleChain.block 1,[sampleChain.block 0,sampleChain.block 1],[]⟩
  let stage2 : Derive.BatchStage :=
    ⟨sampleChain.block 2,[sampleChain.block 1,sampleChain.block 2],[]⟩
  have h1 : Step sampleConfig sampleChain scripted (fun _ _ => True)
      (resetAt sampleChain sampleParent) ⟨stage1,sampleParent⟩ :=
    Step.call_eq (p := (sampleChain.block 1,.error .eof)) (fun _ => none) (.inr ⟨by decide,rfl⟩)
      trivial (by decide +kernel)
  have h2 : Step sampleConfig sampleChain scripted (fun _ _ => True)
      ⟨stage1,sampleParent⟩ ⟨stage2,sampleParent⟩ :=
    Step.call_eq (p := (sampleChain.block 2,.error .eof)) (fun _ => none) (.inr ⟨by decide,rfl⟩)
      trivial (by decide +kernel)
  refine ⟨⟨stage2,sampleParent⟩,.tail (.single h1) h2,.inr ⟨by decide,rfl⟩,by decide +kernel,?_⟩
  rintro ⟨-,-,he,-⟩
  revert he
  decide

end OpStack.Proofs.BatchStageExtension
