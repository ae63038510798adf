import Mathlib.Data.List.Nodup
import OpStack.Proofs.Config
import OpStack.Proofs.SyncHeads

namespace OpStack.Proofs.SyncStart
open Lib Eth Rollup Sync Proofs.Config SyncHeads L2Segment List UInt64 Nat

/-- The node serves the canonical chain by number, and by hash any block it knows. -/
structure ServesL1 (l1 : L1Chain) (t : L1Tree) : Prop where
  found : ∀ {n b},l1.l1BlockRefByNumber n = .found b → t.canon[n.toNat]? = some b
  notFound : ∀ {n},l1.l1BlockRefByNumber n = .notFound → t.canon[n.toNat]? = none
  byHash : ∀ {h b},l1.l1BlockRefByHash h = .found b → t.block b ∧ b.hash = h

structure Serves {t : L1Tree} (l1 : L1Chain) (l2 : L2Chain) (heads : FindHeadsResult)
    (seg : L2Segment t) (safe : Nat) : Prop where
  l1 : ServesL1 l1 t
  l2 : ∀ {k b},seg.first ≤ k → k ≤ seg.last →
    l2.l2BlockRefByHash (seg.block k).hash = .found b → b = seg.block k
  heads : heads = ⟨seg.block seg.last,seg.block safe,seg.block seg.first⟩
  first_le : seg.first ≤ safe
  le_last : safe ≤ seg.last

variable {t : L1Tree} {l1 : L1Chain} {n : L2BlockRef} {o l1Block : L1BlockRef} {ahead : Bool}

def SeenAt (t : L1Tree) (o l1Block : L1BlockRef) (ahead : Bool) : Prop :=
  (ahead = false ∧ t.canon[o.number.toNat]? = some l1Block) ∨
    (ahead = true ∧ l1Block = .zero ∧ t.canon[o.number.toNat]? = none)

def Kept (t : L1Tree) (l1Block : L1BlockRef) (ahead : Bool) : Prop :=
  l1Block = .zero ∨ (ahead = false ∧ l1Block ∈ t.canon)

variable {s : Search} {lookback : Nat}

theorem SeenAt.kept (h : SeenAt t o l1Block ahead) : Kept t l1Block ahead := by
  rcases h with ⟨hah,hb⟩ | ⟨-,hz,-⟩
  · exact .inr ⟨hah,mem_of_getElem? hb⟩
  · exact .inl hz

/-- By number, by hash or kept from the blocks above: it is the L1 block at the origin's height. -/
theorem fetchL1Block_seenAt (hl1 : ServesL1 l1 t) (ho : t.block o) (hid : n.l1Origin = o.id)
    (h : Kept t l1Block ahead) :
    Ends (fun r => SeenAt t o r.1 r.2) (fun _ => True) (fetchL1Block l1 n l1Block ahead) := by
  have hcan : o ∈ t.canon → SeenAt t o o false := fun hmem => .inl ⟨rfl,t.getElem?_number hmem⟩
  have hhs : n.l1Origin.hash = o.hash := by
    rw [hid]
    rfl
  have hnum : n.l1Origin.number = o.number := by
    rw [hid]
    rfl
  unfold fetchL1Block
  rw [hhs,hnum]
  split
  · rename_i hpar
    split
    · rename_i b hb
      obtain ⟨hbb,hbh⟩ := hl1.byHash hb
      obtain rfl : b = o := t.unique hbb ho hbh
      rcases h with hz | ⟨-,hmem⟩
      · rw [hz] at hpar
        exact absurd hpar (t.nonzero ho)
      · exact hcan (t.parent_mem hmem ho hpar.symm)
    · trivial
  split
  · split
    · rename_i b hb
      exact .inl ⟨rfl,hl1.found hb⟩
    · rename_i hb
      exact .inr ⟨rfl,rfl,hl1.notFound hb⟩
    · trivial
  rename_i hkp
  obtain ⟨hne,hkeptHash⟩ := not_or.mp hkp
  rcases h with hz | ⟨hah,hmem⟩
  · exact absurd hz hne
  obtain rfl := t.eq_of_hash hmem ho (not_not.mp hkeptHash)
  rw [hah]
  exact hcan hmem

theorem SeenAt.isAhead (h : SeenAt t o l1Block true) : t.canon.length ≤ o.number.toNat := by
  rcases h with ⟨hfa,-⟩ | ⟨-,-,hno⟩
  · cases hfa
  · exact getElem?_eq_none_iff.mp hno

theorem SeenAt.not_ahead (h : SeenAt t o l1Block false) : ¬ t.canon.length ≤ o.number.toNat := by
  rcases h with ⟨-,hb⟩ | ⟨htrue,-⟩
  · exact not_le.mpr (List.getElem?_eq_some_iff.mp hb).1
  · cases htrue

theorem SeenAt.eq_of_mem (h : SeenAt t o l1Block ahead) (ho : o ∈ t.canon) : l1Block = o := by
  rcases h with ⟨-,hb⟩ | ⟨-,-,hno⟩
  · exact (Option.some.inj ((t.getElem?_number ho).symm.trans hb)).symm
  · simp [t.getElem?_number ho] at hno

theorem SeenAt.mem_iff (ho : t.block o) (h : SeenAt t o l1Block ahead) :
    l1Block.hash = o.hash ↔ o ∈ t.canon := by
  constructor
  · intro hhs
    rcases h with ⟨-,hb⟩ | ⟨-,hz,-⟩
    · have hmem := mem_of_getElem? hb
      rwa [t.eq_of_hash hmem ho hhs.symm]
    · rw [hz] at hhs
      exact absurd hhs.symm (t.nonzero ho)
  · intro hmem
    rw [h.eq_of_mem hmem]

theorem checkParent_mem {parent : L2BlockRef} {p : L1BlockRef} (hp : t.block p)
    (hid : n.l1Origin = o.id) (hpid : parent.l1Origin = p.id) (hseen : SeenAt t o l1Block ahead) :
    Ends (fun _ => o ∈ t.canon → p ∈ t.canon) (fun _ => True) (checkParent n parent l1Block) := by
  have hhs : parent.l1Origin.hash = p.hash := by
    rw [hpid]
    rfl
  have hhs' : n.l1Origin.hash = o.hash := by
    rw [hid]
    rfl
  unfold checkParent
  split
  · split
    · trivial
    split
    · trivial
    split
    · trivial
    rename_i hck
    intro hc
    obtain rfl := hseen.eq_of_mem hc
    have hlink : l1Block.parentHash = parent.l1Origin.hash := by
      by_contra hne
      exact hck ⟨hhs'.symm,hne⟩
    rw [hhs] at hlink
    exact t.parent_mem hc hp hlink
  · rename_i hsm
    split
    · trivial
    intro hc
    have hor : p.hash = o.hash := by rw [← hhs,← hhs',not_not.mp hsm]
    rwa [t.eq_of_hash hc hp hor]

section walk
variable {seg : L2Segment t} {cfg : Config} {l2 : L2Chain} {syncCfg : SyncConfig}
  {heads : FindHeadsResult} {safe k : Nat}

def UnsafeAt (seg : L2Segment t) (low : Nat) (b : L2BlockRef) : Prop :=
  (b = .zero ∧ low ≤ seg.last ∧ ¬ seg.Plausible low) ∨
    ∃ u,low ≤ u + 1 ∧ seg.UnsafeFrom low u ∧ b = seg.block u

def HighestAt (seg : L2Segment t) (low : Nat) (b : L2BlockRef) : Prop :=
  (b = .zero ∧ ∀ j,low ≤ j → j ≤ seg.last → ¬ seg.Canonical j) ∨
    ∃ h,seg.TopCanonical low h ∧ b = seg.block h

theorem block_ne_zero (hfirst : seg.first ≤ k) (hlast : k ≤ seg.last) (hpos : 0 < k) :
    seg.block k ≠ .zero := by
  intro hz
  have hnum := seg.number hfirst hlast
  rw [hz] at hnum
  have h0 : L2BlockRef.zero.number.toNat = 0 := rfl
  omega

theorem usableUnsafe_from (hfirst : seg.first ≤ k) (hlast : k ≤ seg.last) (prev : L2BlockRef)
    {b : L2BlockRef} (h : UnsafeAt seg (k + 1) b) :
    Ends (fun b' => ∃ u,k ≤ u ∧ seg.UnsafeFrom (k + 1) u ∧ b' = seg.block u) (fun _ => True)
      (usableUnsafe cfg prev b (seg.block k)) := by
  unfold usableUnsafe
  split
  · rename_i hne
    rcases h with ⟨hz,-⟩ | ⟨u,hu,hfm,hb⟩
    · exact absurd hz hne
    · exact ⟨u,by omega,hfm,hb⟩
  rename_i hz
  split
  · trivial
  rcases h with ⟨-,hle,hsp⟩ | ⟨u,hu,hfm,hb⟩
  · exact ⟨k,le_refl k,⟨hlast,by omega,.inr hsp⟩,rfl⟩
  have hu0 : ¬ 0 < u := by
    intro hpos
    exact block_ne_zero (by omega) hfm.le hpos (hb ▸ not_not.mp hz)
  obtain rfl : u = k := by omega
  exact ⟨u,le_refl u,hfm,rfl⟩

theorem candidates_at (hfirst : seg.first ≤ k) (hlast : k ≤ seg.last)
    (hseen : SeenAt t (seg.origin k) l1Block ahead)
    (hparent : k < seg.last → seg.Canonical (k + 1) → seg.Canonical k) {u : Nat} (hku : k ≤ u)
    (hu : seg.UnsafeFrom (k + 1) u) {highest : L2BlockRef} (hh : HighestAt seg (k + 1) highest) :
    UnsafeAt seg k (candidates (seg.block k) l1Block ahead (seg.block u) highest).1 ∧
      HighestAt seg k (candidates (seg.block k) l1Block ahead (seg.block u) highest).2 := by
  unfold candidates
  cases ahead with
  | true =>
    have hah : seg.Ahead k := hseen.isAhead
    refine ⟨.inr ⟨u,by omega,hu.cons (.inr hah),rfl⟩,.inl ⟨rfl,?_⟩⟩
    intro j hj hjl
    exact (hah.mono hfirst hj hjl).not_canonical
  | false =>
    have hiff := hseen.mem_iff (seg.origin_block hfirst hlast)
    rw [if_neg (by simp),origin_hash hfirst hlast]
    split
    · rename_i hhs
      have hc := hiff.mp hhs
      refine ⟨.inr ⟨u,by omega,hu.cons (.inl hc),rfl⟩,.inr ?_⟩
      rcases hh with ⟨hz,hno⟩ | ⟨h,htop,hb⟩
      · refine ⟨k,⟨le_refl k,hlast,?_,hno⟩,if_pos hz⟩
        intro j hj hjk
        obtain rfl : j = k := by omega
        exact hc
      have hne : highest ≠ .zero := by
        have hlow := htop.low_le
        exact hb ▸ block_ne_zero (by omega) htop.le (by omega)
      exact ⟨h,htop.cons hc,(if_neg hne).trans hb⟩
    rename_i hhs
    have hc : ¬ seg.Canonical k := fun hc => hhs (hiff.mpr hc)
    refine ⟨.inl ⟨rfl,hlast,not_or.mpr ⟨hc,hseen.not_ahead⟩⟩,.inl ⟨rfl,?_⟩⟩
    intro j hj hjl hcj
    -- a canonical origin above would have been checked to be a child of this one
    rcases hh with ⟨-,hno⟩ | ⟨h,htop,-⟩
    · by_cases hjk : j = k
      · exact hc (hjk ▸ hcj)
      · exact hno j (by omega) hjl hcj
    have hlow := htop.low_le
    have hle := htop.le
    exact hc (hparent (by omega) (htop.canonical (k + 1) (le_refl _) hlow))

section window
variable (hsafe : safe ≤ seg.last)
  (hbound : (seg.origin safe).number.toNat + cfg.syncLookback.toNat < 2 ^ 64)
include hsafe hbound

theorem windowSeen_iff (hfs : seg.first ≤ safe) (hfirst : seg.first ≤ k) (hlast : k ≤ seg.last)
    {h : Nat} (hh : seg.first ≤ h) (hhl : h ≤ seg.last) :
    windowSeen cfg (seg.block safe) (seg.block k) (seg.block h) = true ↔
      k ≤ safe ∧ seg.Confirmed cfg.syncLookback.toNat h k := by
  unfold windowSeen
  rw [decide_eq_true_iff,le_iff_toNat_le,seg.number hfirst hlast,seg.number hfs hsafe,
    UInt64.lt_iff_toNat_lt,seg.origin_id hfirst hlast,seg.origin_id hh hhl]
  change k ≤ safe ∧ ((seg.origin k).number.toNat + cfg.syncLookback.toNat) % 2 ^ 64 <
    (seg.origin h).number.toNat ∧ _ ↔ _
  constructor
  · rintro ⟨hks,hlt,hseq⟩
    have hmono := origin_mono hfirst hks hsafe
    rw [mod_eq_of_lt (by omega)] at hlt
    exact ⟨hks,hseq,hlt⟩
  rintro ⟨hks,hseq,hlt⟩
  have hmono := origin_mono hfirst hks hsafe
  rw [mod_eq_of_lt (by omega)]
  exact ⟨hks,hlt,hseq⟩

theorem windowSeen_at (hfs : seg.first ≤ safe) (hfirst : seg.first ≤ k) (hlast : k ≤ seg.last)
    {highest : L2BlockRef} (hh : HighestAt seg k highest) :
    (windowSeen cfg (seg.block safe) (seg.block k) highest = true →
      k ≤ safe ∧ ∃ h,seg.TopCanonical k h ∧ seg.Confirmed cfg.syncLookback.toNat h k) ∧
    (windowSeen cfg (seg.block safe) (seg.block k) highest = false → k ≤ safe →
      ∀ h,seg.first ≤ h → h ≤ seg.last → seg.Canonical h →
        ¬ seg.Confirmed cfg.syncLookback.toNat h k) := by
  rcases hh with ⟨hz,hno⟩ | ⟨top,htop,hb⟩
  · constructor
    · intro hw
      rw [hz] at hw
      obtain ⟨-,hlt,-⟩ := of_decide_eq_true hw
      exact absurd hlt (not_lt_zero _)
    intro _ _ h hhf hhl hc hconf
    have hhk : h ≤ k := by
      by_contra hlt
      exact hno h (by omega) hhl hc
    have hmono := origin_mono hhf hhk hlast
    have hlt := hconf.2
    omega
  have hlow := htop.low_le
  have hiff := windowSeen_iff hsafe hbound hfs hfirst hlast (h := top) (by omega) htop.le
  rw [← hb] at hiff
  constructor
  · intro hw
    obtain ⟨hks,hconf⟩ := hiff.mp hw
    exact ⟨hks,top,htop,hconf⟩
  intro hw hks h hhf hhl hc hconf
  have hle : h ≤ top := by
    by_contra hlt
    exact htop.above h (by omega) hhl hc
  have hmono := origin_mono hhf hle htop.le
  have hsn := hiff.mpr ⟨hks,hconf.1,lt_of_lt_of_le hconf.2 hmono⟩
  simp [hw] at hsn

end window

def NoneConfirmed (seg : L2Segment t) (lookback safe low : Nat) : Prop :=
  ∀ m h,low ≤ m → m ≤ safe → seg.first ≤ h → h ≤ seg.last → seg.Canonical h →
    ¬ seg.Confirmed lookback h m

structure Visiting (seg : L2Segment t) (lookback safe k : Nat) (s : Search) : Prop where
  first_le : seg.first ≤ k
  le_last : k ≤ seg.last
  n : s.n = seg.block k
  ready : s.ready = false
  kept : Kept t s.l1Block s.ahead
  unsafeHead : UnsafeAt seg (k + 1) s.unsafeHead
  highest : HighestAt seg (k + 1) s.highestL2WithCanonicalL1Origin
  parent : k < seg.last → seg.Canonical (k + 1) → seg.Canonical k
  notConfirmed : NoneConfirmed seg lookback safe (k + 1)

structure Visited (seg : L2Segment t) (lookback safe k : Nat) (s : Search) : Prop where
  first_le : seg.first ≤ k
  le_last : k ≤ seg.last
  n : s.n = seg.block k
  seen : SeenAt t (seg.origin k) s.l1Block s.ahead
  unsafeHead : UnsafeAt seg k s.unsafeHead
  highest : HighestAt seg k s.highestL2WithCanonicalL1Origin
  notConfirmed : NoneConfirmed seg lookback safe (k + 1)
  ready : s.ready = true →
    k ≤ safe ∧ ∃ h,seg.TopCanonical k h ∧ seg.Confirmed lookback h k
  notReady : s.ready = false → NoneConfirmed seg lookback safe k

section
variable (hs : Serves l1 l2 heads seg safe)
include hs

theorem start_visiting (lookback : Nat) :
    Visiting seg lookback safe seg.last (Search.start heads.unsafeHead) := by
  have hle := le_trans hs.first_le hs.le_last
  rw [hs.heads]
  refine ⟨hle,le_refl _,rfl,rfl,.inl rfl,.inr ⟨seg.last,le_refl _,?_,rfl⟩,
    .inl ⟨rfl,by omega⟩,by omega,?_⟩
  · exact ⟨le_refl _,by omega,.inl rfl⟩
  intro m h hm hms
  have := hs.le_last
  omega

theorem look_visited (hbound : (seg.origin safe).number.toNat + cfg.syncLookback.toNat < 2 ^ 64)
    (h : Visiting seg cfg.syncLookback.toNat safe k s) :
    Ends (Visited seg cfg.syncLookback.toNat safe k) (fun _ => True) (s.look cfg l1 heads) := by
  unfold Search.look
  rw [h.n,h.ready,hs.heads]
  refine .bind (fetchL1Block_seenAt hs.l1 (seg.origin_block h.first_le h.le_last)
    (seg.origin_id h.first_le h.le_last) h.kept) ?_
  rintro ⟨l1Block,ahead⟩ hsn
  refine .bind (.any _) fun _ _ => ?_
  refine .bind (.any _) fun _ _ => ?_
  refine .bind (usableUnsafe_from h.first_le h.le_last _ h.unsafeHead) ?_
  rintro _ ⟨u,hku,hu,rfl⟩
  obtain ⟨hhd,hhi⟩ := candidates_at h.first_le h.le_last hsn h.parent hku hu h.highest
  obtain ⟨hrdy,hnot⟩ := windowSeen_at hs.le_last hbound hs.first_le h.first_le h.le_last hhi
  refine ⟨h.first_le,h.le_last,rfl,hsn,hhd,hhi,h.notConfirmed,hrdy,?_⟩
  intro hw m top hm hms
  by_cases hmk : m = k
  · exact hmk ▸ hnot hw (hmk ▸ hms) top
  · exact h.notConfirmed m top (by omega) hms

theorem Visited.rightHeads (hfin : seg.Canonical seg.first)
    (h : Visited seg lookback safe seg.first s) :
    seg.RightHeads lookback safe ⟨s.unsafeHead,seg.block seg.first,seg.block seg.first⟩ := by
  obtain ⟨u,hu,hfm,hb⟩ : ∃ u,seg.first ≤ u ∧ seg.UnsafeFrom seg.first u ∧
      s.unsafeHead = seg.block u := by
    rcases h.unsafeHead with ⟨-,-,hsp⟩ | ⟨u,hu,hfm,hb⟩
    · exact absurd (.inl hfin) hsp
    refine ⟨u,?_,hfm,hb⟩
    rcases hfm.stop with hls | hsp
    · exact hls ▸ h.le_last
    by_contra hlt
    obtain hu1 : u + 1 = seg.first := by omega
    exact hsp (hu1 ▸ .inl hfin)
  rcases h.highest with ⟨-,hno⟩ | ⟨top,htop,-⟩
  · exact absurd hfin (hno seg.first (le_refl _) h.le_last)
  · rw [hb]
    exact rightHeads_of (le_refl _) hs.first_le hu hfm htop (.inl rfl)

end

theorem Visited.rightHeads_parent (h : Visited seg lookback safe (k + 1) s) (hfirst : seg.first ≤ k)
    (hready : s.ready = true) (hparent : seg.Canonical (k + 1) → seg.Canonical k) :
    seg.RightHeads lookback safe ⟨s.unsafeHead,seg.block k,seg.block seg.first⟩ := by
  obtain ⟨hsafe,top,htop,hconf⟩ := h.ready hready
  have hc := htop.canonical (k + 1) (le_refl _) htop.low_le
  have htopk := htop.cons (hparent hc)
  have hlow := htop.low_le
  have htopc := htop.canonical top hlow (le_refl _)
  rcases h.unsafeHead with ⟨-,-,hsp⟩ | ⟨u,hu,hfm,hb⟩
  · exact absurd (.inl hc) hsp
  rw [hb]
  have hfromk := hfm.cons (.inl (hparent hc))
  refine rightHeads_of hfirst (by omega) (by omega) hfromk htopk (.inr ?_)
  refine ⟨⟨by omega,hsafe,hconf⟩,?_⟩
  rintro m ⟨-,hm,hmconf⟩
  by_contra hlt
  exact h.notConfirmed m top (by omega) hm (by omega) htop.le htopc hmconf

theorem moveOn_rounds (hs : Serves l1 l2 heads seg safe) (hfin : seg.Canonical seg.first)
    (hskip : syncCfg.skipSyncStartCheck = false) (h : Visited seg lookback safe k s) :
    Ends (Rounds (Visiting seg lookback safe) (seg.RightHeads lookback safe) k) (fun _ => True)
      (s.moveOn l2 syncCfg heads) := by
  have hle := le_trans hs.first_le hs.le_last
  unfold Search.moveOn
  rw [h.n,hs.heads,hskip]
  split
  · rename_i hnum
    have hk : k = seg.first := by
      rw [← seg.number h.first_le h.le_last,← seg.number (le_refl _) hle,hnum]
    subst hk
    exact h.rightHeads hs hfin
  rename_i hnum
  have hk : k ≠ seg.first := fun hk => hnum (by rw [hk])
  obtain ⟨j,rfl⟩ : ∃ j,k = j + 1 := ⟨k - 1,by have := h.first_le; omega⟩
  have hj : seg.first ≤ j := by have := h.first_le; omega
  rw [if_neg (by simp),seg.linked hj h.le_last]
  split
  · rename_i parent hpar
    obtain rfl := hs.l2 hj (le_of_lt h.le_last) hpar
    refine Ends.bind (checkParent_mem (seg.origin_block hj (le_of_lt h.le_last))
      (seg.origin_id h.first_le h.le_last) (seg.origin_id hj (le_of_lt h.le_last)) h.seen) ?_
    intro _ hcan
    split
    · rename_i hrdy
      exact h.rightHeads_parent hj hrdy hcan
    rename_i hrdy
    have hrdy : s.ready = false := by simpa using hrdy
    exact ⟨j,lt_succ_self j,hj,le_of_lt h.le_last,rfl,hrdy,h.seen.kept,h.unsafeHead,
      h.highest,fun _ => hcan,h.notReady hrdy⟩
  · trivial

end walk

/-- An input on which the search walks down the chain: no recovery, the sanity check not skipped,
and the finalized block on the canonical L1 chain. -/
structure Walks {t : L1Tree} (cfg : Config) (l1 : L1Chain) (l2 : L2Chain) (syncCfg : SyncConfig)
    (heads : FindHeadsResult) (seg : L2Segment t) (safe : Nat) : Prop where
  current : currentHeads cfg l2 = .ok heads
  serves : Serves l1 l2 heads seg safe
  finalized : seg.Canonical seg.first
  noSkip : syncCfg.skipSyncStartCheck = false
  noRecovery : syncedWithoutFinality cfg heads = false ∧ unsafeBehind heads = false

/-- The search finds the right heads whenever it succeeds, and it always returns, as long as the
sums with the window do not overflow. -/
theorem findL2Heads_right {t : L1Tree} (seg : L2Segment t) (cfg : Config) (l1 : L1Chain)
    (l2 : L2Chain) (syncCfg : SyncConfig) (heads : FindHeadsResult) (safe : Nat)
    (hw : Walks cfg l1 l2 syncCfg heads seg safe)
    (hbound : (seg.origin safe).number.toNat + cfg.syncLookback.toNat < 2 ^ 64) (fuel : Nat) :
    (∀ result,findL2Heads cfg l1 l2 syncCfg fuel = some (.ok result) →
      seg.RightHeads cfg.syncLookback.toNat safe result) ∧
    (seg.last < fuel → (findL2Heads cfg l1 l2 syncCfg fuel).isSome = true) := by
  have hfd : findL2Heads cfg l1 l2 syncCfg fuel =
      loop (Search.round cfg l1 l2 syncCfg heads) fuel (Search.start heads.unsafeHead) := by
    unfold findL2Heads
    rw [hw.current]
    exact if_neg (by simp [hw.noRecovery])
  have hrn : ∀ k s,Visiting seg cfg.syncLookback.toNat safe k s →
      Ends (Rounds (Visiting seg cfg.syncLookback.toNat safe)
        (seg.RightHeads cfg.syncLookback.toNat safe) k) (fun _ => True)
        (Search.round cfg l1 l2 syncCfg heads s) := by
    intro k s hv
    refine .bind (look_visited hw.serves hbound hv) ?_
    intro s' hv'
    exact moveOn_rounds hw.serves hw.finalized hw.noSkip hv'
  have hsta := start_visiting hw.serves cfg.syncLookback.toNat
  rw [hfd]
  constructor
  · intro result hres
    exact loop_ends hrn hsta hres
  · intro hfuel
    exact loop_returns hrn hsta hfuel

def l1At (k : Nat) : L1BlockRef :=
  ⟨hashOf (4 * k + 1),ofNat k,hashOf (4 * k - 3),ofNat k⟩

def orphanAt (k : Nat) : L1BlockRef := { l1At k with hash := hashOf (4 * k + 3) }

def sampleCanon : List L1BlockRef := (range 7).map l1At

def orphanHeight (high : Bool) : Nat := if high then 6 else 1

/-- The high orphan has a child above the L1 tip. -/
def branchAt (high : Bool) (k : Nat) : L1BlockRef :=
  if high ∧ k = 7 then { l1At 7 with parentHash := (orphanAt 6).hash } else l1At k

def sampleBlocks (high : Bool) : List L1BlockRef :=
  orphanAt (orphanHeight high)::(range 8).map (branchAt high)

variable {α : Type} {x : Option α} {cfg : Config} {k : Nat}

theorem branchAt_mem (high : Bool) (hk : k < 8) : branchAt high k ∈ sampleBlocks high :=
  mem_cons_of_mem _ (mem_map_of_mem (mem_range.mpr hk))

def sampleTree (high : Bool) : L1Tree where
  block b := b ∈ sampleBlocks high
  canon := sampleCanon
  unique := by
    intro a b ha hb
    have hnodup : ((sampleBlocks high).map L1BlockRef.hash).Nodup := by
      cases high <;> decide +kernel
    exact inj_on_of_nodup_map hnodup ha hb
  nonzero := by
    intro a ha
    have hall : ∀ a ∈ sampleBlocks high,a.hash ≠ .fill 32 0 := by
      cases high <;> decide +kernel
    exact hall a ha
  canon_block := by
    intro b hb
    obtain ⟨k,hk,rfl⟩ := mem_map.mp hb
    have hk7 := mem_range.mp hk
    have hbr : branchAt high k = l1At k := if_neg (by omega)
    exact hbr ▸ branchAt_mem high (by omega)
  number := by
    intro k b hb
    obtain ⟨hk,rfl⟩ := List.getElem?_eq_some_iff.mp hb
    have hk7 : k < 7 := by simpa [sampleCanon] using hk
    simp only [sampleCanon,getElem_map,getElem_range,l1At,toNat_ofNat']
    omega
  linked := by
    intro k a b ha hb
    obtain ⟨hk,rfl⟩ := List.getElem?_eq_some_iff.mp ha
    obtain ⟨hk',rfl⟩ := List.getElem?_eq_some_iff.mp hb
    simp only [sampleCanon,getElem_map,getElem_range,l1At]
    congr 1
  first := by
    intro a b hb ha
    cases hb
    have hall : ∀ a ∈ sampleBlocks high,(l1At 0).parentHash ≠ a.hash := by
      cases high <;> decide +kernel
    exact hall a ha

def originAt (high : Bool) (k : Nat) : L1BlockRef :=
  if k = orphanHeight high then orphanAt k else branchAt high k

theorem originAt_number (high : Bool) (k : Nat) : (originAt high k).number = ofNat k := by
  unfold originAt branchAt
  split
  · rfl
  split
  · rename_i htop
    exact congrArg ofNat htop.2.symm
  · rfl

def l2At (high : Bool) (k : Nat) : L2BlockRef :=
  ⟨hashOf (4 * k + 2),ofNat k,hashOf (4 * k - 2),ofNat k,(originAt high k).id,0⟩

def sampleSegment (high : Bool) : L2Segment (sampleTree high) where
  first := 0
  last := 7
  block := l2At high
  origin := originAt high
  number {k} _ hk := by
    change (ofNat k).toNat = k
    rw [toNat_ofNat']
    omega
  linked {k} _ _ := by
    change hashOf (4 * (k + 1) - 2) = hashOf (4 * k + 2)
    congr 1
  origin_block {k} _ hk := by
    unfold originAt
    split
    · rename_i heq
      exact heq ▸ mem_cons_self
    · exact branchAt_mem high (by omega)
  origin_id _ _ := rfl
  advance {k} _ hk := by
    rw [originAt_number,originAt_number,toNat_ofNat',toNat_ofNat']
    omega

def answer {α : Type} : Option α → Fetched α
  | some a => .found a
  | none => .notFound

theorem answer_found {a : α} (h : answer x = .found a) : x = some a := by
  cases x with
  | none => cases h
  | some b => rw [Fetched.found.inj h]

theorem answer_notFound (h : answer x = .notFound) : x = none := by
  cases x with
  | none => rfl
  | some b => cases h

def sampleL1 (high : Bool) : L1Chain where
  l1BlockRefByNumber n := answer sampleCanon[n.toNat]?
  l1BlockRefByHash h := answer ((sampleBlocks high).find? fun b => b.hash = h)

/-- An engine that has the blocks up to `last`, with the labels at some of them. -/
def l2UpTo (high : Bool) (last : Nat) (label : BlockLabel → Fetched Nat) : L2Chain where
  l2BlockRefByHash h :=
    answer (((range (last + 1)).find? fun k => hashOf (4 * k + 2) = h).map (l2At high))
  l2BlockRefByLabel l := match label l with
    | .found k => .found (l2At high k)
    | .notFound => .notFound
    | .failed => .failed
  l2BlockRefByNumber n := answer (if n.toNat ≤ last then some (l2At high n.toNat) else none)

def sampleL2 (high : Bool) : L2Chain := l2UpTo high 7 fun
  | .latest => .found 7
  | .safe => .found 4
  | .finalized => .notFound

def sampleHeads (high : Bool) : FindHeadsResult := ⟨l2At high 7,l2At high 4,l2At high 0⟩

theorem l2At_found (high : Bool) {last : Nat} (hlast : last ≤ 7)
    (label : BlockLabel → Fetched Nat) (hk : k ≤ last) :
    (l2UpTo high last label).l2BlockRefByHash (l2At high k).hash = .found (l2At high k) := by
  have hall : ∀ last ≤ 7,∀ k ≤ last,(range (last + 1)).find?
      (fun j => hashOf (4 * j + 2) = hashOf (4 * k + 2)) = some k := by
    decide +kernel
  exact congrArg (fun x => answer (x.map (l2At high))) (hall last hlast k hk)

theorem sample_serves (high : Bool) :
    Serves (sampleL1 high) (sampleL2 high) (sampleHeads high) (sampleSegment high) 4 where
  l1 := by
    constructor
    case found => exact answer_found
    case notFound => exact answer_notFound
    case byHash =>
      intro hash b h
      have hb := answer_found h
      exact ⟨mem_of_find?_eq_some hb,by simpa using find?_some hb⟩
  l2 := by
    intro k b _ hk h
    exact (Fetched.found.inj ((l2At_found high (le_refl 7) _ hk).symm.trans h)).symm
  heads := rfl
  first_le := zero_le 4
  le_last := (by decide : 4 ≤ 7)

theorem sample_heads (hgenesis : cfg.genesis.l2.hash = hashOf 2) (high : Bool) :
    currentHeads cfg (sampleL2 high) = .ok (sampleHeads high) := by
  have hfst : (sampleL2 high).l2BlockRefByHash (hashOf 2) = .found (l2At high 0) :=
    l2At_found high (le_refl 7) _ (zero_le 7)
  unfold currentHeads
  rw [hgenesis]
  rfl

theorem sample_walks (hgenesis : cfg.genesis.l2.hash = hashOf 2) (high : Bool) :
    Walks cfg (sampleL1 high) (sampleL2 high) ⟨false,0⟩ (sampleHeads high) (sampleSegment high)
      4 where
  current := sample_heads hgenesis high
  serves := sample_serves high
  finalized := by
    change originAt high 0 ∈ sampleCanon
    cases high <;> decide +kernel
  noSkip := rfl
  noRecovery := by
    have hsafe : (sampleHeads high).safe.hash ≠ hashOf 2 := by cases high <;> decide +kernel
    have hbh : unsafeBehind (sampleHeads high) = false := by cases high <;> decide +kernel
    refine ⟨?_,hbh⟩
    unfold syncedWithoutFinality
    rw [hgenesis]
    exact decide_eq_false fun h => hsafe h.2.1

/-- The origins are linked: block 6 has the orphan and block 7 its child above the L1 tip. -/
theorem findL2Heads_right_sample :
    findL2Heads sampleConfig (sampleL1 true) (sampleL2 true) ⟨false,0⟩ 8 =
      some (.ok ⟨l2At true 5,l2At true 1,l2At true 0⟩) ∧
    (sampleSegment true).OriginsLinked ∧
    (sampleSegment true).RightHeads 2 4 ⟨l2At true 5,l2At true 1,l2At true 0⟩ := by
  have hlinked : ∀ k < 7,originAt true (k + 1) = originAt true k ∨
      (originAt true (k + 1)).parentHash = (originAt true k).hash := by
    decide +kernel
  have hrun : findL2Heads sampleConfig (sampleL1 true) (sampleL2 true) ⟨false,0⟩ 8 =
      some (.ok ⟨l2At true 5,l2At true 1,l2At true 0⟩) := by
    decide +kernel
  exact ⟨hrun,fun k _ hk => hlinked k hk,
    (findL2Heads_right (sampleSegment true) sampleConfig (sampleL1 true) (sampleL2 true)
      ⟨false,0⟩ (sampleHeads true) 4 (sample_walks rfl true) (by decide +kernel) 8).1 _ hrun⟩

/-- A window so long that its sums wrap around: `Check` accepts it. -/
def wrappingConfig : Config := { sampleConfig with seqWindowSize := 18446744073709551615 }

/-- Where the sum with the window wraps around, a block right below the old safe head passes for
confirmed. Where the origins advance in number only, the walk does not see an orphan below the new
safe head. -/
theorem findL2Heads_other_heads : (wrappingConfig.check = .ok () ∧
      Walks wrappingConfig (sampleL1 false) (sampleL2 false) ⟨false,0⟩ (sampleHeads false)
        (sampleSegment false) 4 ∧
      findL2Heads wrappingConfig (sampleL1 false) (sampleL2 false) ⟨false,0⟩ 8 =
        some (.ok ⟨l2At false 7,l2At false 3,l2At false 0⟩) ∧
      ¬ (sampleSegment false).RightHeads wrappingConfig.syncLookback.toNat 4
        ⟨l2At false 7,l2At false 3,l2At false 0⟩) ∧
    (Walks sampleConfig (sampleL1 false) (sampleL2 false) ⟨false,0⟩ (sampleHeads false)
        (sampleSegment false) 4 ∧
      findL2Heads sampleConfig (sampleL1 false) (sampleL2 false) ⟨false,0⟩ 8 =
        some (.ok ⟨l2At false 7,l2At false 2,l2At false 0⟩) ∧
      ¬ (sampleSegment false).HighestPlausible 0 7) := by
  refine ⟨⟨by decide +kernel,sample_walks rfl false,by decide +kernel,?_⟩,
    sample_walks rfl false,by decide +kernel,?_⟩
  · rintro ⟨u,s,h,hres,-,-,-,-,-,hs4,hend⟩
    have hs3 : s = 3 := by
      have hall : ∀ s ≤ 4,l2At false 3 = l2At false s → s = 3 := by decide +kernel
      exact hall s hs4 (FindHeadsResult.mk.inj hres).2.1
    subst hs3
    rcases hend with hfst | ⟨⟨-,-,-,hlt⟩,-⟩
    · cases hfst
    have hlk : wrappingConfig.syncLookback.toNat = 18446744073709551615 := by decide +kernel
    have hbound := ((sampleSegment false).origin h).number.toNat_lt
    omega
  · rintro ⟨⟨-,-,hplaus⟩,-⟩
    rcases hplaus 1 (by decide) (by decide) with hc | hah
    · have horp : originAt false 1 ∉ sampleCanon := by decide +kernel
      exact horp hc
    · have hbe : ¬ sampleCanon.length ≤ (originAt false 1).number.toNat := by decide +kernel
      exact hbe hah

end OpStack.Proofs.SyncStart
