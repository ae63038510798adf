import OpStack.Proofs.SyncStart

namespace OpStack.Proofs.SyncLineage
open Lib Eth Rollup Sync Proofs.Config SyncHeads SyncStart

/-- A hash-linked L2 chain by height. Nothing is known of how the L1 origins of its blocks relate to
each other. -/
structure Lineage (t : L1Tree) where
  first : Nat
  last : Nat
  block : Nat → L2BlockRef
  origin : Nat → L1BlockRef
  number : ∀ {k},first ≤ k → k ≤ last → (block k).number.toNat = k
  nonzero : ∀ {k},first ≤ k → k ≤ last → (block k).hash ≠ .fill 32 0
  unique : ∀ {j k},first ≤ j → j ≤ last → first ≤ k → k ≤ last →
    (block j).hash = (block k).hash → j = k
  linked : ∀ {k},first ≤ k → k < last → (block (k + 1)).parentHash = (block k).hash
  origin_block : ∀ {k},first ≤ k → k ≤ last → t.block (origin k)
  origin_id : ∀ {k},first ≤ k → k ≤ last → (block k).l1Origin = (origin k).id

namespace Lineage
variable {t : L1Tree} (chain : Lineage t)

def Canonical (k : Nat) : Prop := chain.origin k ∈ t.canon

def Ahead (k : Nat) : Prop := t.canon.length ≤ (chain.origin k).number.toNat

/-- L1 has another block at the height of the origin. -/
def Orphan (k : Nat) : Prop := ¬ chain.Canonical k ∧ ¬ chain.Ahead k

variable {chain} {j k : Nat}

theorem block_ne_zero (hfirst : chain.first ≤ k) (hlast : k ≤ chain.last) :
    chain.block k ≠ .zero := by
  intro h
  exact chain.nonzero hfirst hlast (congrArg L2BlockRef.hash h)

theorem number_inj (hj : chain.first ≤ j) (hjl : j ≤ chain.last) (hk : chain.first ≤ k)
    (hkl : k ≤ chain.last) : (chain.block j).number = (chain.block k).number ↔ j = k := by
  constructor
  · intro h
    rw [← chain.number hj hjl,← chain.number hk hkl,h]
  · intro h
    rw [h]

theorem Ahead.not_canonical (h : chain.Ahead k) : ¬ chain.Canonical k := by
  intro hc
  have hlen := (List.getElem?_eq_some_iff.mp (t.getElem?_number hc)).1
  unfold Ahead at h
  omega

def upTo (chain : Lineage t) {last : Nat} (h : last ≤ chain.last) : Lineage t where
  first := chain.first
  last := last
  block := chain.block
  origin := chain.origin
  number hf hk := chain.number hf (hk.trans h)
  nonzero hf hk := chain.nonzero hf (hk.trans h)
  unique hfj hj hfk hk := chain.unique hfj (hj.trans h) hfk (hk.trans h)
  linked hf hk := chain.linked hf (hk.trans_le h)
  origin_block hf hk := chain.origin_block hf (hk.trans h)
  origin_id hf hk := chain.origin_id hf (hk.trans h)

def ofSegment (seg : L2Segment t)
    (nonzero : ∀ {k},seg.first ≤ k → k ≤ seg.last → (seg.block k).hash ≠ .fill 32 0)
    (unique : ∀ {j k},seg.first ≤ j → j ≤ seg.last → seg.first ≤ k → k ≤ seg.last →
      (seg.block j).hash = (seg.block k).hash → j = k) : Lineage t where
  first := seg.first
  last := seg.last
  block := seg.block
  origin := seg.origin
  number := seg.number
  nonzero := nonzero
  unique := unique
  linked := seg.linked
  origin_block := seg.origin_block
  origin_id := seg.origin_id

end Lineage

def ServesL2 {t : L1Tree} (l2 : L2Chain) (chain : Lineage t) : Prop :=
  ∀ {k b},chain.first ≤ k → k ≤ chain.last →
    l2.l2BlockRefByHash (chain.block k).hash = .found b → b = chain.block k

section rounds
variable {t : L1Tree} {chain : Lineage t} {cfg : Config} {l1 : L1Chain} {l2 : L2Chain}
  {syncCfg : SyncConfig} {heads : FindHeadsResult} {k : Nat} {s s' : Search}

theorem SeenAt.unique {o a b : L1BlockRef} {ahead ahead' : Bool} (h : SeenAt t o a ahead)
    (h' : SeenAt t o b ahead') : a = b ∧ ahead = ahead' := by
  rcases h with ⟨ha,hb⟩ | ⟨ha,hb,hn⟩
  · rcases h' with ⟨ha',hb'⟩ | ⟨-,-,hn'⟩
    · exact ⟨Option.some.inj (hb.symm.trans hb'),ha.trans ha'.symm⟩
    · simp [hn'] at hb
  rcases h' with ⟨-,hb'⟩ | ⟨ha',hb',-⟩
  · simp [hn] at hb'
  · exact ⟨hb.trans hb'.symm,ha.trans ha'.symm⟩

def refill (unsafeHead n : L2BlockRef) : L2BlockRef :=
  if unsafeHead = .zero then n else unsafeHead

def TooDeep (cfg : Config) (prevUnsafe n : L2BlockRef) : Prop :=
  n.l1Origin.number + maxReorgSeqWindows * cfg.syncLookback < prevUnsafe.l1Origin.number

theorem usableUnsafe_ok_iff {prevUnsafe unsafeHead n b : L2BlockRef} :
    usableUnsafe cfg prevUnsafe unsafeHead n = .ok b ↔
      (unsafeHead = .zero → ¬ TooDeep cfg prevUnsafe n) ∧ b = refill unsafeHead n := by
  unfold usableUnsafe refill TooDeep
  by_cases hz : unsafeHead = .zero
  · rw [if_neg (not_not.mpr hz)]
    split
    · rename_i hdeep
      simp [hz,hdeep]
    · rename_i hdeep
      simp [hdeep,eq_comm]
  · simp [hz,eq_comm]

structure Looked (chain : Lineage t) (cfg : Config) (heads : FindHeadsResult) (k : Nat)
    (s s' : Search) : Prop where
  n : s'.n = chain.block k
  seen : SeenAt t (chain.origin k) s'.l1Block s'.ahead
  genesis : checkGenesis cfg (chain.block k) s'.l1Block s'.ahead = .ok ()
  depth : s.unsafeHead = .zero → ¬ TooDeep cfg heads.unsafeHead (chain.block k)
  canonical : chain.Canonical k → s'.unsafeHead = refill s.unsafeHead (chain.block k) ∧
    s'.highestL2WithCanonicalL1Origin = refill s.highestL2WithCanonicalL1Origin (chain.block k)
  ahead : chain.Ahead k → s'.unsafeHead = refill s.unsafeHead (chain.block k)
  orphan : chain.Orphan k → s'.unsafeHead = .zero
  cleared : ¬ chain.Canonical k → s'.highestL2WithCanonicalL1Origin = .zero
  ready : s'.ready = (s.ready || windowSeen cfg heads.safe (chain.block k)
    s'.highestL2WithCanonicalL1Origin)

section
variable (hfirst : chain.first ≤ k) (hlast : k ≤ chain.last)
include hfirst hlast

theorem candidates_seen {l1Block : L1BlockRef} {ahead : Bool}
    (hseen : SeenAt t (chain.origin k) l1Block ahead) (unsafeHead highest : L2BlockRef) :
    let result := candidates (chain.block k) l1Block ahead unsafeHead highest
    (chain.Canonical k → result.1 = unsafeHead ∧ result.2 = refill highest (chain.block k)) ∧
      (chain.Ahead k → result.1 = unsafeHead) ∧
      (chain.Orphan k → result.1 = .zero) ∧
      (¬ chain.Canonical k → result.2 = .zero) := by
  have hiff := hseen.mem_iff (chain.origin_block hfirst hlast)
  have hhs : (chain.block k).l1Origin.hash = (chain.origin k).hash := by
    rw [chain.origin_id hfirst hlast]
    rfl
  unfold candidates
  rw [hhs]
  cases ahead with
  | true =>
    have hah : chain.Ahead k := hseen.isAhead
    exact ⟨fun hc => absurd hc hah.not_canonical,fun _ => rfl,fun ho => absurd hah ho.2,
      fun _ => rfl⟩
  | false =>
    have hnot := hseen.not_ahead
    rw [if_neg (by simp)]
    split
    · rename_i heq
      have hc := hiff.mp heq
      exact ⟨fun _ => ⟨rfl,rfl⟩,fun ha => absurd ha hnot,fun ho => absurd hc ho.1,
        fun hne => absurd hc hne⟩
    · rename_i hne
      exact ⟨fun hc => absurd (hiff.mpr hc) hne,fun ha => absurd ha hnot,fun _ => rfl,fun _ => rfl⟩

theorem look_looked (hl1 : ServesL1 l1 t) (hn : s.n = chain.block k)
    (hkept : Kept t s.l1Block s.ahead)
    (h : s.look cfg l1 heads = .ok s') : Looked chain cfg heads k s s' := by
  have hbk := chain.origin_block hfirst hlast
  have hid := chain.origin_id hfirst hlast
  unfold Search.look at h
  rw [hn] at h
  obtain ⟨⟨l1Block,ahead⟩,hft,h⟩ := of_bind_ok h
  obtain ⟨_,hgen,h⟩ := of_bind_ok h
  obtain ⟨_,-,h⟩ := of_bind_ok h
  obtain ⟨b,hb,h⟩ := of_bind_ok h
  obtain ⟨hdp,rfl⟩ := usableUnsafe_ok_iff.mp hb
  have hsn := (fetchL1Block_seenAt hl1 hbk hid hkept).of_eq hft
  obtain ⟨hcanonical,hah,horp,hclr⟩ := candidates_seen hfirst hlast hsn
    (refill s.unsafeHead (chain.block k)) s.highestL2WithCanonicalL1Origin
  cases h
  exact ⟨rfl,hsn,hgen,hdp,hcanonical,hah,horp,hclr,rfl⟩

theorem refill_ne_zero {unsafeHead : L2BlockRef} : refill unsafeHead (chain.block k) ≠ .zero := by
  unfold refill
  split
  · exact Lineage.block_ne_zero hfirst hlast
  · assumption

theorem Looked.cleared_iff (h : Looked chain cfg heads k s s') :
    s'.unsafeHead = .zero ↔ chain.Orphan k := by
  constructor
  · intro hz
    constructor
    · intro hc
      exact refill_ne_zero hfirst hlast ((h.canonical hc).1 ▸ hz)
    · intro ha
      exact refill_ne_zero hfirst hlast (h.ahead ha ▸ hz)
  · exact h.orphan

theorem Looked.no_jump (h : Looked chain cfg heads k s s') (hc : ¬ chain.Canonical k) :
    s'.highestL2WithCanonicalL1Origin.hash ≠ (chain.block k).hash := by
  rw [h.cleared hc]
  exact (chain.nonzero hfirst hlast).symm

end

theorem Looked.unsafeHead_eq (h : Looked chain cfg heads k s s') (hk : ¬ chain.Orphan k) :
    s'.unsafeHead = refill s.unsafeHead (chain.block k) := by
  by_cases hc : chain.Canonical k
  · exact (h.canonical hc).1
  refine h.ahead ?_
  by_contra ha
  exact hk ⟨hc,ha⟩

theorem Looked.ready_eq (h : Looked chain cfg heads k s s') (hc : ¬ chain.Canonical k) :
    s'.ready = s.ready := by
  have hnot : windowSeen cfg heads.safe (chain.block k) .zero = false := by
    refine decide_eq_false ?_
    rintro ⟨-,hlt,-⟩
    exact Nat.not_lt_zero _ hlt
  rw [h.ready,h.cleared hc,hnot,Bool.or_false]

/-- What a round does at height `k`: it ends at the finalized height, it jumps to the old safe head,
or it goes to the parent, where it may end too. -/
theorem round_cases (hl1 : ServesL1 l1 t) (hl2 : ServesL2 l2 chain) (hfirst : chain.first ≤ k)
    (hlast : k ≤ chain.last) (hn : s.n = chain.block k) (hkept : Kept t s.l1Block s.ahead)
    (hbottom : k = chain.first → (chain.block k).number = heads.finalized.number ∨
      ∀ b,l2.l2BlockRefByHash (chain.block k).parentHash ≠ .found b)
    {x : Search ⊕ FindHeadsResult} (h : s.round cfg l1 l2 syncCfg heads = .ok x) :
    ∃ s',s.look cfg l1 heads = .ok s' ∧ Looked chain cfg heads k s s' ∧
      (((chain.block k).number = heads.finalized.number ∧
        x = .inr ⟨s'.unsafeHead,chain.block k,heads.finalized⟩) ∨
      ((chain.block k).number ≠ heads.finalized.number ∧ ((syncCfg.skipSyncStartCheck = true ∧
          s'.highestL2WithCanonicalL1Origin.hash = (chain.block k).hash ∧
          x = .inl { s' with n := heads.safe }) ∨
        ¬ (syncCfg.skipSyncStartCheck = true ∧
          s'.highestL2WithCanonicalL1Origin.hash = (chain.block k).hash) ∧
        ∃ j,k = j + 1 ∧ chain.first ≤ j ∧
          checkParent (chain.block k) (chain.block j) s'.l1Block = .ok () ∧
          ((s'.ready = true ∧ x = .inr ⟨s'.unsafeHead,chain.block j,heads.finalized⟩) ∨
            (s'.ready = false ∧ x = .inl { s' with n := chain.block j }))))) := by
  obtain ⟨s',hlk,hmv⟩ := of_bind_ok h
  have hlkd := look_looked hfirst hlast hl1 hn hkept hlk
  refine ⟨s',hlk,hlkd,?_⟩
  unfold Search.moveOn at hmv
  rw [hlkd.n] at hmv
  split at hmv
  · rename_i hfin
    exact .inl ⟨hfin,(Except.ok.inj hmv).symm⟩
  rename_i hfin
  refine .inr ⟨hfin,?_⟩
  split at hmv
  · rename_i hsk
    exact .inl ⟨hsk.1,hsk.2,(Except.ok.inj hmv).symm⟩
  rename_i hsk
  split at hmv
  · rename_i parent hpar
    have hk : k ≠ chain.first := by
      intro hk
      exact (hbottom hk).elim hfin fun hno => hno parent hpar
    obtain ⟨j,rfl⟩ : ∃ j,k = j + 1 := ⟨k - 1,by omega⟩
    rw [chain.linked (by omega) hlast] at hpar
    obtain rfl := hl2 (by omega) (by omega) hpar
    obtain ⟨_,hck,hmv⟩ := of_bind_ok hmv
    refine .inr ⟨hsk,j,rfl,by omega,hck,?_⟩
    split at hmv
    · rename_i hrdy
      exact .inl ⟨hrdy,(Except.ok.inj hmv).symm⟩
    · rename_i hrdy
      exact .inr ⟨by simpa using hrdy,(Except.ok.inj hmv).symm⟩
  · cases hmv

end rounds

def Recovers (cfg : Config) (heads : FindHeadsResult) : Prop :=
  syncedWithoutFinality cfg heads ∨ unsafeBehind heads

def pairL2 (high : Bool) (finalized : Nat) : L2Chain := l2UpTo high 1 fun
  | .finalized => .found finalized
  | _ => .found 1

def pairHeads (high : Bool) : FindHeadsResult := ⟨l2At high 1,l2At high 1,l2At high 0⟩

theorem l2Hash_nonzero : ∀ k ≤ 7,hashOf (4 * k + 2) ≠ .fill 32 0 := by decide +kernel

theorem l2Hash_unique :
    ∀ j ≤ 7,∀ k ≤ 7,hashOf (4 * j + 2) = hashOf (4 * k + 2) → j = k := by decide +kernel

def sampleChain (high : Bool) : Lineage (sampleTree high) :=
  .ofSegment (sampleSegment high) (fun {k} _ hk => l2Hash_nonzero k hk)
    fun {j k} _ hj _ hk => l2Hash_unique j hj k hk

def pairChain (high : Bool) : Lineage (sampleTree high) :=
  (sampleChain high).upTo (show 1 ≤ 7 by decide)

end OpStack.Proofs.SyncLineage
