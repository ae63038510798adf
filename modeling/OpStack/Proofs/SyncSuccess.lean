import OpStack.Proofs.SyncLineage

namespace OpStack.Proofs.SyncSuccess
open Lib Eth Rollup Sync Proofs.Config SyncHeads SyncStart SyncLineage Lineage UInt64 Nat

/-- The unsafe, safe and finalized head are at the heights `u`, `s` and `f` in any order. Where the
engine or the L1 node answer, they do so from their chains. -/
structure Labelled {t : L1Tree} (cfg : Config) (l1 : L1Chain) (l2 : L2Chain) (chain : Lineage t)
    (u s f : Nat) : Prop where
  servesL1 : ServesL1 l1 t
  engine : ServesL2 l2 chain
  bottom : ∀ b,l2.l2BlockRefByHash (chain.block chain.first).parentHash ≠ .found b
  byNumber : ∀ {n b},l2.l2BlockRefByNumber n = .found b →
    chain.first ≤ n.toNat ∧ n.toNat ≤ chain.last ∧ b = chain.block n.toNat
  current : currentHeads cfg l2 = .ok ⟨chain.block u,chain.block s,chain.block f⟩
  first_le : chain.first ≤ u ∧ chain.first ≤ s ∧ chain.first ≤ f
  le_last : u ≤ chain.last ∧ s ≤ chain.last ∧ f ≤ chain.last

section heads
variable {t : L1Tree} (chain : Lineage t)

structure Sound (r : FindHeadsResult) : Prop where
  block : ∃ k,chain.first ≤ k ∧ k ≤ chain.last ∧ r.unsafeHead = chain.block k
  safe : r.safe.number ≤ r.unsafeHead.number
  finalized : r.finalized.number ≤ r.safe.number

def NoCanonical (low high : Nat) : Prop := ∀ j,low < j → j ≤ high → ¬ chain.Canonical j

/-- Below the old safe head there is a canonical origin, and an orphan above it. -/
def Cut (s f : Nat) : Prop := ∃ d j,f < d ∧ d < j ∧ j ≤ s ∧ chain.Canonical d ∧
  NoCanonical chain d s ∧ chain.Orphan j

def JumpsWell (syncCfg : SyncConfig) (u s f : Nat) : Prop :=
  syncCfg.skipSyncStartCheck = false ∨ (f ≤ s ∨ NoCanonical chain f u) ∧ ¬ Cut chain s f

/-- The candidate after a walk from `top` down to `k`: the highest block from `k` on with no orphan
up to it, or none right below an orphan. -/
def Tracked (top k : Nat) (b : L2BlockRef) : Prop :=
  (b = .zero ∧ chain.Orphan (k + 1)) ∨ ∃ v,k ≤ v ∧ v ≤ chain.last ∧
    b = chain.block v ∧ (∀ j,k < j → j ≤ v → j ≤ top → ¬ chain.Orphan j) ∧
    (top ≤ v ∨ chain.Orphan (v + 1))

/-- The candidate is left from a walk that came further down before a jump back. -/
def Stale (s f k : Nat) (b : L2BlockRef) : Prop := ∃ d v,f < d ∧ d ≤ v ∧ v < k ∧
  b = chain.block v ∧ chain.Orphan (v + 1) ∧ chain.Canonical d ∧ NoCanonical chain d s

variable {chain} {cfg : Config} {l1 : L1Chain} {l2 : L2Chain} {syncCfg : SyncConfig}
  {u s f k v top : Nat} {b : L2BlockRef} {x x' : Search} {d j : Nat} {r : FindHeadsResult}

theorem sound_of (hfirst : chain.first ≤ f) (hfk : f ≤ k) (hkv : k ≤ v) (hv : v ≤ chain.last) :
    Sound chain ⟨chain.block v,chain.block k,chain.block f⟩ := by
  refine ⟨⟨v,by omega,hv,rfl⟩,?_,?_⟩
  · rw [le_iff_toNat_le,chain.number (by omega) hv,chain.number (by omega) (by omega)]
    exact hkv
  · rw [le_iff_toNat_le,chain.number hfirst (by omega),chain.number (by omega) (by omega)]
    exact hfk

theorem not_sound_zero (safe finalized : L2BlockRef) : ¬ Sound chain ⟨.zero,safe,finalized⟩ := by
  rintro ⟨⟨k,hfst,hls,hz⟩,-⟩
  exact block_ne_zero hfst hls hz.symm

theorem NoCanonical.cons (h : NoCanonical chain (k + 1) top) (hk : ¬ chain.Canonical (k + 1)) :
    NoCanonical chain k top := by
  intro j hkj hj
  by_cases heq : j = k + 1
  · exact heq ▸ hk
  · exact h j (by omega) hj

theorem NoCanonical.jumpsWell (h : NoCanonical chain f s) (hfu : f ≤ s ∨ NoCanonical chain f u) :
    JumpsWell chain syncCfg u s f := by
  refine .inr ⟨hfu,?_⟩
  rintro ⟨d,j,hfd,hdj,hjs,hd,-⟩
  exact h d hfd (by omega) hd

theorem Tracked.refill (h : Tracked chain top k b) (hfirst : chain.first ≤ k)
    (hlast : k ≤ chain.last) : ∃ v,k ≤ v ∧ v ≤ chain.last ∧
      SyncLineage.refill b (chain.block k) = chain.block v ∧
      (∀ j,k < j → j ≤ v → j ≤ top → ¬ chain.Orphan j) ∧ (top ≤ v ∨ chain.Orphan (v + 1)) := by
  unfold SyncLineage.refill
  rcases h with ⟨hz,horp⟩ | ⟨v,hkv,hv,hb,hno,hsp⟩
  · rw [if_pos hz]
    exact ⟨k,le_refl k,hlast,rfl,by intro j; omega,.inr horp⟩
  have hne := hb ▸ block_ne_zero (by omega) hv
  rw [if_neg hne]
  exact ⟨v,hkv,hv,hb,hno,hsp⟩

theorem Tracked.cons (h : Tracked chain top (k + 1) b) (hfirst : chain.first ≤ k + 1)
    (hlast : k + 1 ≤ chain.last) (hk : ¬ chain.Orphan (k + 1)) :
    Tracked chain top k (SyncLineage.refill b (chain.block (k + 1))) := by
  obtain ⟨v,hkv,hv,hb,hno,hsp⟩ := h.refill hfirst hlast
  refine .inr ⟨v,by omega,hv,hb,?_,hsp⟩
  intro j hkj hjv hjt
  by_cases heq : j = k + 1
  · exact heq ▸ hk
  · exact hno j (by omega) hjv hjt

theorem Stale.refill_eq (h : Stale chain s f k b) (hfirst : chain.first ≤ f)
    (hlast : k ≤ chain.last) (n : L2BlockRef) : SyncLineage.refill b n = b := by
  obtain ⟨d,v,hfd,hdv,hvk,hb,-⟩ := h
  exact if_neg (hb ▸ block_ne_zero (by omega) (by omega))

theorem Stale.cons (h : Stale chain s f (k + 1) b) (hk : ¬ chain.Orphan (k + 1)) :
    Stale chain s f k b := by
  obtain ⟨d,v,hfd,hdv,hvk,hb,horp,hrs⟩ := h
  have hne : v ≠ k := fun heq => hk (heq ▸ horp)
  exact ⟨d,v,hfd,hdv,by omega,hb,horp,hrs⟩

def Right (chain : Lineage t) (syncCfg : SyncConfig) (u s f : Nat) (r : FindHeadsResult) : Prop :=
  (¬ chain.Orphan f → JumpsWell chain syncCfg u s f → Sound chain r) ∧
    (¬ JumpsWell chain syncCfg u s f → ¬ Sound chain r)

def LeftFrom (chain : Lineage t) (s f d : Nat) (b : L2BlockRef) : Prop :=
  f < d ∧ d < s ∧ chain.Canonical d ∧ NoCanonical chain d s ∧
    ∃ v,d ≤ v ∧ v ≤ chain.last ∧ b = chain.block v ∧
      (∀ j,d < j → j ≤ v → j ≤ s → ¬ chain.Orphan j) ∧ (s ≤ v ∨ chain.Orphan (v + 1))

inductive Phase (chain : Lineage t) (syncCfg : SyncConfig) (u s f : Nat) : Search → Prop where
  /-- It has met no canonical origin yet. -/
  | first {k : Nat} {x : Search} : f ≤ k → k ≤ u → x.n = chain.block k →
      Kept t x.l1Block x.ahead → x.highestL2WithCanonicalL1Origin = .zero →
      x.ready = false → NoCanonical chain k u → Tracked chain u k x.unsafeHead →
      Phase chain syncCfg u s f x
  /-- It goes down canonical origins. -/
  | canonical {c k v : Nat} {x : Search} : JumpsWell chain syncCfg u s f → f ≤ k → k < c →
      c ≤ chain.last → chain.Canonical k → x.n = chain.block k → Kept t x.l1Block x.ahead →
      x.highestL2WithCanonicalL1Origin = chain.block c → k ≤ v → v ≤ chain.last →
      x.unsafeHead = chain.block v → Phase chain syncCfg u s f x
  /-- It has jumped, and comes from the old safe head that has no canonical origin. -/
  | again {k : Nat} {x : Search} : syncCfg.skipSyncStartCheck = true → f ≤ k → k ≤ s →
      ¬ chain.Canonical s → x.n = chain.block k → Kept t x.l1Block x.ahead →
      (k < s → x.highestL2WithCanonicalL1Origin = .zero) → NoCanonical chain k s →
      Tracked chain s k x.unsafeHead ∨ Stale chain s f k x.unsafeHead →
      (x.ready = true → k = s ∧ ∃ d,LeftFrom chain s f d x.unsafeHead) →
      Phase chain syncCfg u s f x
  /-- It jumps from the old safe head to the old safe head. -/
  | stay {x : Search} : syncCfg.skipSyncStartCheck = true → f < s → chain.Canonical s →
      x.n = chain.block s → Kept t x.l1Block x.ahead →
      x.highestL2WithCanonicalL1Origin = chain.block s → Phase chain syncCfg u s f x
  /-- It has jumped to an old safe head below the finalized one. -/
  | below {k : Nat} {x : Search} : ¬ JumpsWell chain syncCfg u s f → chain.first ≤ k → k ≤ s →
      s < f → x.n = chain.block k → Kept t x.l1Block x.ahead → Phase chain syncCfg u s f x

/-- A candidate that is left from a jump is the block below the lowest orphan, or above the old safe
head. -/
theorem LeftFrom.tracked (h : LeftFrom chain s f d b) :
    Tracked chain s s b ∨ Stale chain s f s b := by
  obtain ⟨hfd,-,hd,hno,v,hdv,hv,hb,-,hsp⟩ := h
  by_cases hsv : s ≤ v
  · exact .inl (.inr ⟨v,hsv,hv,hb,by intro j; omega,.inl hsv⟩)
  · have horp := hsp.resolve_left hsv
    exact .inr ⟨d,v,hfd,hdv,by omega,hb,horp,hd,hno⟩

theorem not_sound_of (hj : chain.first ≤ j) (hjl : j ≤ chain.last)
    (hv : chain.first ≤ v) (hvj : v < j) (hhead : r.unsafeHead = chain.block v)
    (hsafe : r.safe = chain.block j) : ¬ Sound chain r := by
  intro h
  have hle := h.safe
  rw [hhead,hsafe,le_iff_toNat_le,chain.number hj hjl,chain.number hv (by omega)] at hle
  omega

/-- The end at the parent of the old safe head, after a jump from below it. -/
theorem LeftFrom.right {b' : L2BlockRef} (h : LeftFrom chain (j + 1) f d b)
    (hskip : syncCfg.skipSyncStartCheck = true) (hfirst : chain.first ≤ f)
    (hlast : j + 1 ≤ chain.last) (horphan : chain.Orphan (j + 1) → b' = .zero)
    (hahead : chain.Ahead (j + 1) → b' = b) :
    Right chain syncCfg u (j + 1) f ⟨b',chain.block j,chain.block f⟩ := by
  obtain ⟨hfd,hds,hd,hnone,v,hdv,hv,hb,hno,hsp⟩ := h
  have hs := hnone (j + 1) hds (le_refl _)
  constructor
  · intro _ hwell
    have hcut : ¬ Cut chain (j + 1) f := by
      rcases hwell with hfa | ⟨-,hcut⟩
      · simp [hskip] at hfa
      · exact hcut
    have hno' : ∀ i,d < i → i ≤ j + 1 → ¬ chain.Orphan i :=
      fun i hdi hi horphan => hcut ⟨d,i,hfd,hdi,hi,hd,hnone,horphan⟩
    have hsv : j + 1 ≤ v := by
      by_contra hlt
      exact hno' (v + 1) (by omega) (by omega) (hsp.resolve_left hlt)
    have ha : chain.Ahead (j + 1) := by
      by_contra hna
      exact hno' (j + 1) hds (le_refl _) ⟨hs,hna⟩
    rw [hahead ha,hb]
    exact sound_of hfirst (by omega) (by omega) hv
  intro hwell
  obtain ⟨d',i,hfd',hdi,hi,hd',hnone',horph⟩ : Cut chain (j + 1) f := by
    by_contra hcut
    exact hwell (.inr ⟨.inl (by omega),hcut⟩)
  obtain rfl : d' = d := by
    rcases lt_trichotomy d' d with hlt | heq | hlt
    · exact absurd hd (hnone' d hlt (by omega))
    · exact heq
    · exact absurd hd' (hnone d' hlt (by omega))
  by_cases ha : chain.Ahead (j + 1)
  · have hne : i ≠ j + 1 := by
      rintro rfl
      exact horph.2 ha
    have hvi : v < i := by
      by_contra hle
      exact hno i hdi (by omega) hi horph
    exact not_sound_of (by omega) (by omega) (by omega) (by omega) ((hahead ha).trans hb) rfl
  · rw [horphan ⟨hs,ha⟩]
    exact not_sound_zero _ _

theorem Tracked.cons_looked {heads : FindHeadsResult} (h : Tracked chain top (k + 1) x.unsafeHead)
    (hlooked : Looked chain cfg heads (k + 1) x x') (hfirst : chain.first ≤ k + 1)
    (hlast : k + 1 ≤ chain.last) (hc : ¬ chain.Canonical (k + 1)) :
    Tracked chain top k x'.unsafeHead := by
  by_cases ha : chain.Ahead (k + 1)
  · rw [hlooked.ahead ha]
    exact h.cons hfirst hlast fun ho => ho.2 ha
  · exact .inl ⟨hlooked.orphan ⟨hc,ha⟩,hc,ha⟩

section round
variable (hl : Labelled cfg l1 l2 chain u s f) (hsu : s ≤ u)
include hl

variable {y : Search ⊕ FindHeadsResult}

theorem round_at (hfirst : chain.first ≤ k) (hlast : k ≤ chain.last) (hn : x.n = chain.block k)
    (hkept : Kept t x.l1Block x.ahead)
    (h : x.round cfg l1 l2 syncCfg ⟨chain.block u,chain.block s,chain.block f⟩ = .ok y) :
    ∃ x',Looked chain cfg ⟨chain.block u,chain.block s,chain.block f⟩ k x x' ∧
      ((k = f ∧ y = .inr ⟨x'.unsafeHead,chain.block f,chain.block f⟩) ∨
      (k ≠ f ∧ syncCfg.skipSyncStartCheck = true ∧
        x'.highestL2WithCanonicalL1Origin.hash = (chain.block k).hash ∧
        y = .inl { x' with n := chain.block s }) ∨
      (k ≠ f ∧ ¬ (syncCfg.skipSyncStartCheck = true ∧
        x'.highestL2WithCanonicalL1Origin.hash = (chain.block k).hash) ∧
        ∃ j,k = j + 1 ∧ chain.first ≤ j ∧ (chain.Canonical k → chain.Canonical j) ∧
          ((x'.ready = true ∧ y = .inr ⟨x'.unsafeHead,chain.block j,chain.block f⟩) ∨
            (x'.ready = false ∧ y = .inl { x' with n := chain.block j })))) := by
  have hiff := number_inj hfirst hlast hl.first_le.2.2 hl.le_last.2.2
  obtain ⟨x',-,hlkd,⟨hfin,hy⟩ | ⟨hfin,⟨hsk,hhs,hy⟩ | ⟨hno,j,rfl,hj,hck,hend⟩⟩⟩ :=
    round_cases hl.servesL1 hl.engine hfirst hlast hn hkept (fun hk => .inr (hk ▸ hl.bottom)) h
  · obtain rfl := hiff.mp hfin
    exact ⟨x',hlkd,.inl ⟨rfl,hy⟩⟩
  · exact ⟨x',hlkd,.inr (.inl ⟨mt hiff.mpr hfin,hsk,hhs,hy⟩)⟩
  have hmem := (checkParent_mem (chain.origin_block hj (by omega))
    (chain.origin_id hfirst hlast) (chain.origin_id hj (by omega)) hlkd.seen).of_eq hck
  exact ⟨x',hlkd,.inr (.inr ⟨mt hiff.mpr hfin,hno,j,rfl,hj,hmem,hend⟩)⟩

include hsu

theorem first_jumps (hskip : syncCfg.skipSyncStartCheck = true) {c : Nat} (hfc : f < c)
    (hcu : c ≤ u) (hc : chain.Canonical c) (hnone : NoCanonical chain c u)
    (hlooked : Looked chain cfg ⟨chain.block u,chain.block s,chain.block f⟩ c x x')
    (hhighest : x.highestL2WithCanonicalL1Origin = .zero) (hready : x.ready = false)
    (htracked : Tracked chain u c x.unsafeHead) :
    Phase chain syncCfg u s f { x' with n := chain.block s } := by
  have hfst := hl.first_le
  have hls := hl.le_last
  obtain ⟨hhd,hh⟩ := hlooked.canonical hc
  rw [hhighest] at hh
  obtain ⟨v,hcv,hv,hb,hno,hsp⟩ := htracked.refill (by omega) (by omega)
  have hhd' := hhd.trans hb
  have hkept := hlooked.seen.kept
  by_cases hfs : f ≤ s
  · rcases lt_trichotomy s c with hsc | rfl | hcs
    · by_cases hs : chain.Canonical s
      · have hwell : JumpsWell chain syncCfg u s f := by
          refine .inr ⟨.inl hfs,?_⟩
          rintro ⟨d,j,-,hdj,hjs,-,hd,-⟩
          exact hd s (by omega) (le_refl s) hs
        exact .canonical hwell hfs hsc (by omega) hs rfl hkept hh (by omega) hv hhd'
      have htop : Tracked chain s s x'.unsafeHead :=
        .inr ⟨v,by omega,hv,hhd',by intro j; omega,.inl (by omega)⟩
      have hnot : x'.ready = false := by
        rw [hlooked.ready,hready]
        refine decide_eq_false ?_
        rintro ⟨hle,-⟩
        rw [le_iff_toNat_le,chain.number (by omega) (by omega),chain.number hfst.2.1 hls.2.1] at hle
        omega
      refine .again hskip hfs (le_refl s) hs rfl hkept (by omega) (by intro j; omega) (.inl htop) ?_
      intro hready'
      simp [hnot] at hready'
    · exact .stay hskip hfc hc rfl hkept hh
    · have hlf : LeftFrom chain s f c x'.unsafeHead := by
        refine ⟨hfc,hcs,hc,fun j hcj hj => hnone j hcj (by omega),v,hcv,hv,hhd',?_,?_⟩
        · intro j hcj hjv hjs
          exact hno j hcj hjv (by omega)
        · exact hsp.imp (le_trans hsu) id
      exact .again hskip hfs (le_refl s) (hnone s hcs hsu) rfl hkept (by omega)
        (by intro j; omega) hlf.tracked fun _ => ⟨rfl,c,hlf⟩
  · have hbad : ¬ JumpsWell chain syncCfg u s f := by
      rintro (hfa | ⟨hor,-⟩)
      · simp [hskip] at hfa
      · exact (hor.resolve_left hfs) c hfc hcu hc
    exact .below hbad hfst.2.1 (le_refl s) (by omega) rfl hkept

section
variable (hfk : f ≤ k) (hn : x.n = chain.block k) (hkept : Kept t x.l1Block x.ahead)
  (h : x.round cfg l1 l2 syncCfg ⟨chain.block u,chain.block s,chain.block f⟩ = .ok y)
include hfk hn hkept h

theorem first_keeps (hku : k ≤ u)
    (hhighest : x.highestL2WithCanonicalL1Origin = .zero) (hready : x.ready = false)
    (hnone : NoCanonical chain k u) (htracked : Tracked chain u k x.unsafeHead) :
    Keeps (Phase chain syncCfg u s f) (Right chain syncCfg u s f) y := by
  have hfst := hl.first_le
  have hls := hl.le_last
  obtain ⟨v,hkv,hv,hb,-⟩ := htracked.refill (by omega) (by omega)
  obtain ⟨x',hlkd,⟨rfl,rfl⟩ | ⟨hkf,hsk,hhs,rfl⟩ | ⟨hkf,hno,j,rfl,hj,hpar,hend⟩⟩ :=
    round_at hl (by omega) (by omega) hn hkept h
  · constructor
    · intro horp _
      rw [hlkd.unsafeHead_eq horp,hb]
      exact sound_of hfst.2.2 (le_refl _) hkv hv
    intro hbad
    have hnone' : NoCanonical chain k s := fun j hkj hj => hnone j hkj (by omega)
    exact absurd (hnone'.jumpsWell (.inr hnone)) hbad
  · have hc : chain.Canonical k := by
      by_contra hc
      exact hlkd.no_jump (by omega) (by omega) hc hhs
    exact first_jumps hl hsu hsk (by omega) hku hc hnone hlkd hhighest hready htracked
  by_cases hc : chain.Canonical (j + 1)
  · obtain ⟨hhd,hh⟩ := hlkd.canonical hc
    rw [hhighest] at hh
    have hsk : syncCfg.skipSyncStartCheck = false := by
      by_contra hsk
      exact hno ⟨by simpa using hsk,congrArg _ hh⟩
    rcases hend with ⟨-,rfl⟩ | ⟨-,rfl⟩
    · refine ⟨fun _ _ => ?_,fun hbad => absurd (.inl hsk) hbad⟩
      rw [hhd,hb]
      exact sound_of hfst.2.2 (by omega) (by omega) hv
    · exact .canonical (.inl hsk) (by omega) (lt_succ_self j) (by omega) (hpar hc) rfl
        hlkd.seen.kept hh (by omega) hv (hhd.trans hb)
  · have hready' := (hlkd.ready_eq hc).trans hready
    rcases hend with ⟨htrue,-⟩ | ⟨-,rfl⟩
    · simp [hready'] at htrue
    have htracked' := htracked.cons_looked hlkd (by omega) (by omega) hc
    exact .first (by omega) (by omega) rfl hlkd.seen.kept (hlkd.cleared hc) hready'
      (hnone.cons hc) htracked'

omit hsu in
theorem canonical_keeps {c : Nat} (hwell : JumpsWell chain syncCfg u s f) (hkc : k < c)
    (hcl : c ≤ chain.last) (hc : chain.Canonical k)
    (hhighest : x.highestL2WithCanonicalL1Origin = chain.block c)
    (hkv : k ≤ v) (hv : v ≤ chain.last) (hhead : x.unsafeHead = chain.block v) :
    Keeps (Phase chain syncCfg u s f) (Right chain syncCfg u s f) y := by
  have hfst := hl.first_le
  have hri : ∀ {j},f ≤ j → j ≤ v →
      Right chain syncCfg u s f ⟨chain.block v,chain.block j,chain.block f⟩ := by
    intro j hfj hjv
    exact ⟨fun _ _ => sound_of hfst.2.2 hfj hjv hv,fun hbad => absurd hwell hbad⟩
  obtain ⟨x',hlkd,hcs⟩ := round_at hl (by omega) (by omega) hn hkept h
  obtain ⟨hhead',hh⟩ := hlkd.canonical hc
  rw [hhead] at hhead'
  replace hhead' := hhead'.trans (if_neg (block_ne_zero (by omega) hv))
  rw [hhighest] at hh
  replace hh := hh.trans (if_neg (block_ne_zero (by omega) hcl))
  rcases hcs with ⟨rfl,rfl⟩ | ⟨-,-,hhs,-⟩ | ⟨hkf,-,j,rfl,hj,hpar,⟨-,rfl⟩ | ⟨-,rfl⟩⟩
  · rw [hhead']
    exact hri (le_refl _) hkv
  · rw [hh] at hhs
    have heq := chain.unique (by omega) hcl (by omega) (by omega) hhs
    omega
  · rw [hhead']
    exact hri (by omega) (by omega)
  · exact .canonical hwell (by omega) (by omega) hcl (hpar hc) rfl hlkd.seen.kept hh
      (by omega) hv hhead'

omit hsu in
theorem again_keeps (hskip : syncCfg.skipSyncStartCheck = true) (hks : k ≤ s)
    (hs : ¬ chain.Canonical s) (hhighest : k < s → x.highestL2WithCanonicalL1Origin = .zero)
    (hnone : NoCanonical chain k s)
    (htracked : Tracked chain s k x.unsafeHead ∨ Stale chain s f k x.unsafeHead)
    (hready : x.ready = true → k = s ∧ ∃ d,LeftFrom chain s f d x.unsafeHead) :
    Keeps (Phase chain syncCfg u s f) (Right chain syncCfg u s f) y := by
  have hfst := hl.first_le
  have hls := hl.le_last
  obtain ⟨x',hlkd,⟨rfl,rfl⟩ | ⟨hkf,-,hhs,rfl⟩ | ⟨hkf,hno,j,rfl,hj,-,hend⟩⟩ :=
    round_at hl (by omega) (by omega) hn hkept h
  · constructor
    · intro horp _
      rcases htracked with htracked | ⟨d,v,hfd,hdv,hvf,-⟩
      · obtain ⟨v,hkv,hv,hb,-⟩ := htracked.refill (by omega) (by omega)
        rw [hlkd.unsafeHead_eq horp,hb]
        exact sound_of hfst.2.2 (le_refl _) hkv hv
      · omega
    · intro hbad
      exact absurd (hnone.jumpsWell (.inl hks)) hbad
  · have hc : chain.Canonical k := by
      by_contra hc
      exact hlkd.no_jump (by omega) (by omega) hc hhs
    have hlt : k < s := by
      rcases lt_or_eq_of_le hks with hlt | rfl
      · exact hlt
      · exact absurd hc hs
    have hlf : LeftFrom chain s f k x'.unsafeHead := by
      rcases htracked with htracked | ⟨d,v,hfd,hdv,hvk,-,-,-,hd⟩
      · obtain ⟨v,hkv,hv,hb,hno,hsp⟩ := htracked.refill (by omega) (by omega)
        exact ⟨by omega,hlt,hc,hnone,v,hkv,hv,(hlkd.canonical hc).1.trans hb,hno,hsp⟩
      · exact absurd hc (hd k (by omega) hks)
    exact .again hskip (by omega) (le_refl s) hs rfl hlkd.seen.kept (by omega)
      (by intro j; omega) hlf.tracked fun _ => ⟨rfl,k,hlf⟩
  have hc : ¬ chain.Canonical (j + 1) := by
    intro hc
    have hlt : j + 1 < s := by
      rcases lt_or_eq_of_le hks with hlt | heq
      · exact hlt
      · exact absurd (heq ▸ hc) hs
    have hh := (hlkd.canonical hc).2
    rw [hhighest hlt] at hh
    exact hno ⟨hskip,congrArg _ hh⟩
  rcases hend with ⟨hready',rfl⟩ | ⟨hready',rfl⟩
  · rw [hlkd.ready_eq hc] at hready'
    obtain ⟨rfl,d,hlf⟩ := hready hready'
    refine hlf.right hskip hfst.2.2 (by omega) hlkd.orphan ?_
    intro ha
    obtain ⟨hfd,-,-,-,v,hdv,hv,hb,-⟩ := hlf
    exact (hlkd.ahead ha).trans (if_neg (hb ▸ block_ne_zero (by omega) hv))
  refine .again hskip (by omega) (by omega) hs rfl hlkd.seen.kept
    (fun _ => hlkd.cleared hc) (hnone.cons hc) ?_ (fun htrue => ?_)
  · rcases htracked with htracked | hstale
    · have htracked' := htracked.cons_looked hlkd (by omega) (by omega) hc
      exact .inl htracked'
    by_cases ha : chain.Ahead (j + 1)
    · right
      rw [hlkd.ahead ha,hstale.refill_eq hfst.2.2 (by omega)]
      exact hstale.cons fun ho => ho.2 ha
    · exact .inl (.inl ⟨hlkd.orphan ⟨hc,ha⟩,hc,ha⟩)
  · simp [hready'] at htrue

end

/-- Every round keeps the phases, and ends with the right heads if it ends. -/
theorem phase_keeps (hx : Phase chain syncCfg u s f x) :
    Ends (Keeps (Phase chain syncCfg u s f) (Right chain syncCfg u s f)) (fun _ => True)
      (x.round cfg l1 l2 syncCfg ⟨chain.block u,chain.block s,chain.block f⟩) := by
  have hfst := hl.first_le
  have hls := hl.le_last
  refine .of_forall ?_
  intro y h
  cases hx with
  | first hfk hku hn hkept hhi hrdy hnone htr =>
    exact first_keeps hl hsu hfk hn hkept h hku hhi hrdy hnone htr
  | canonical hwell hfk hkc hcl hc hn hkept hhi hkv hv hhd =>
    exact canonical_keeps hl hfk hn hkept h hwell hkc hcl hc hhi hkv hv hhd
  | again hsk hfk hks hs hn hkept hhi hnone htr hrdy =>
    exact again_keeps hl hfk hn hkept h hsk hks hs hhi hnone htr hrdy
  | stay hsk hfs hs hn hkept hhi =>
    obtain ⟨x',hlkd,hcs⟩ := round_at hl hfst.2.1 hls.2.1 hn hkept h
    have hh := (hlkd.canonical hs).2
    rw [hhi] at hh
    replace hh := hh.trans (if_neg (block_ne_zero hfst.2.1 hls.2.1))
    rcases hcs with ⟨hsf,-⟩ | ⟨-,-,-,rfl⟩ | ⟨-,hno,-⟩
    · omega
    · exact .stay hsk hfs hs rfl hlkd.seen.kept hh
    · exact absurd ⟨hsk,congrArg _ hh⟩ hno
  | below hbad hfk hks hsf hn hkept =>
    obtain ⟨x',hlkd,⟨hkf,-⟩ | ⟨-,-,-,rfl⟩ | ⟨-,-,j,rfl,hj,-,⟨-,rfl⟩ | ⟨-,rfl⟩⟩⟩ :=
      round_at hl hfk (by omega) hn hkept h
    · omega
    · exact .below hbad hfst.2.1 (le_refl s) hsf rfl hlkd.seen.kept
    · refine ⟨fun _ hwell => absurd hwell hbad,fun _ hsd => ?_⟩
      have hle := hsd.finalized
      rw [le_iff_toNat_le,chain.number hfst.2.2 hls.2.2,chain.number hj (by omega)] at hle
      omega
    · exact .below hbad hj (by omega) hsf rfl hlkd.seen.kept

end round

theorem recovered_sound (hl : Labelled cfg l1 l2 chain u s f)
    (h : l2HeadsForELSyncWithOffset cfg l2 syncCfg (chain.block u) = .ok r) : Sound chain r := by
  have hfst := hl.first_le.1
  have hls := hl.le_last.1
  unfold l2HeadsForELSyncWithOffset at h
  dsimp only at h
  split at h
  · rename_i hlt
    split at h
    · rename_i derived hder
      cases h
      obtain ⟨hk,-,rfl⟩ := hl.byNumber hder
      rw [lt_iff_toNat_lt,chain.number hfst hls] at hlt
      exact sound_of hk (le_refl _) (le_of_lt hlt) hls
    · cases h
  · cases h
    exact sound_of hfst (le_refl _) (le_refl _) hls

theorem start_phase (hl : Labelled cfg l1 l2 chain u s f) (hfu : f ≤ u) :
    Phase chain syncCfg u s f (Search.start (chain.block u)) := by
  have hls := hl.le_last.1
  exact .first hfu (le_refl u) rfl (.inl rfl) rfl rfl (by intro j; omega)
    (.inr ⟨u,le_refl u,hls,rfl,by intro j; omega,.inl (le_refl u)⟩)

end heads

/-- A search that succeeds has a usable unsafe head, heads in order and no orphaned finalized block
exactly if that block is not orphaned before and no jump goes wrong. -/
theorem findL2Heads_sound_iff {t : L1Tree} (chain : Lineage t) (cfg : Config) (l1 : L1Chain)
    (l2 : L2Chain) (syncCfg : SyncConfig) (u s f fuel : Nat)
    (hl : Labelled cfg l1 l2 chain u s f) (r : FindHeadsResult)
    (h : findL2Heads cfg l1 l2 syncCfg fuel = some (.ok r)) : (Sound chain r ∧ ¬ chain.Orphan f) ↔
      ¬ chain.Orphan f ∧ (Recovers cfg ⟨chain.block u,chain.block s,chain.block f⟩ ∨
        JumpsWell chain syncCfg u s f) := by
  have hfst := hl.first_le
  have hls := hl.le_last
  unfold findL2Heads at h
  rw [hl.current] at h
  by_cases hwalk : Recovers cfg ⟨chain.block u,chain.block s,chain.block f⟩
  · have hrun := (if_pos hwalk).symm.trans h
    have hsd := recovered_sound hl (Option.some.inj hrun)
    exact ⟨fun h => ⟨h.2,.inl hwalk⟩,fun h => ⟨hsd,h.1⟩⟩
  have hrun := (if_neg hwalk).symm.trans h
  have hbh : ¬ unsafeBehind ⟨chain.block u,chain.block s,chain.block f⟩ := fun hb => hwalk (.inr hb)
  obtain ⟨hfu,hsu⟩ : f ≤ u ∧ s ≤ u := by
    simp only [unsafeBehind,decide_eq_true_eq,not_or,lt_iff_toNat_lt,
      chain.number hfst.1 hls.1,chain.number hfst.2.1 hls.2.1,
      chain.number hfst.2.2 hls.2.2,not_lt] at hbh
    exact hbh
  obtain ⟨hgood,hbad⟩ := loop_keeps (fun x hx => phase_keeps hl hsu hx) (start_phase hl hfu) hrun
  constructor
  · rintro ⟨hsd,horp⟩
    refine ⟨horp,.inr ?_⟩
    by_contra hwell
    exact hbad hwell hsd
  · rintro ⟨horp,hor⟩
    exact ⟨hgood horp (hor.resolve_left hwalk),horp⟩

theorem upTo_labelled (high : Bool) {last u s f : Nat} (hlast : last ≤ 7)
    {label : BlockLabel → Fetched Nat} (hcurrent : currentHeads sampleConfig
      (l2UpTo high last label) = .ok ⟨l2At high u,l2At high s,l2At high f⟩)
    (hle : u ≤ last ∧ s ≤ last ∧ f ≤ last) :
    Labelled sampleConfig (sampleL1 high) (l2UpTo high last label) ((sampleChain high).upTo hlast)
      u s f where
  servesL1 := (sample_serves high).l1
  engine := by
    intro k b _ hk h
    exact (Fetched.found.inj ((l2At_found high hlast label hk).symm.trans h)).symm
  bottom b h := by
    have hall : ∀ last ≤ 7,(List.range (last + 1)).find?
        (fun k => hashOf (4 * k + 2) = hashOf 0) = none := by
      decide +kernel
    obtain ⟨k,hk,-⟩ := Option.map_eq_some_iff.mp (answer_found h)
    exact Option.some_ne_none k (hk.symm.trans (hall last hlast))
  byNumber := by
    intro n b h
    have hb := answer_found h
    split at hb
    · rename_i hn
      exact ⟨zero_le _,hn,(Option.some.inj hb).symm⟩
    · cases hb
  current := hcurrent
  first_le := ⟨zero_le u,zero_le s,zero_le f⟩
  le_last := hle

/-- The search jumps from block 5 to the old safe head, whose origin is canonical. -/
theorem findL2Heads_sound_sample :
    findL2Heads sampleConfig (sampleL1 true) (sampleL2 true) ⟨true,0⟩ 8 =
      some (.ok ⟨l2At true 5,l2At true 1,l2At true 0⟩) ∧
    Sound (sampleChain true) ⟨l2At true 5,l2At true 1,l2At true 0⟩ := by
  have hrun : findL2Heads sampleConfig (sampleL1 true) (sampleL2 true) ⟨true,0⟩ 8 =
      some (.ok ⟨l2At true 5,l2At true 1,l2At true 0⟩) := by
    decide +kernel
  have hcan : ∀ k ∈ [0,4],originAt true k ∈ sampleCanon := by decide +kernel
  have hfin : ¬ (sampleChain true).Orphan 0 := fun h => h.1 (hcan 0 (by decide))
  have hcut : ¬ Cut (sampleChain true) 4 0 := by
    rintro ⟨d,j,-,hdj,hj,-,hno,-⟩
    exact hno 4 (by omega) (le_refl 4) (hcan 4 (by decide))
  exact ⟨hrun,((findL2Heads_sound_iff (sampleChain true) sampleConfig (sampleL1 true)
    (sampleL2 true) ⟨true,0⟩ 7 4 0 8
    (upTo_labelled true (le_refl 7) (sample_heads rfl true) (by decide)) _ hrun).mpr
    ⟨hfin,.inr (.inr ⟨.inl (zero_le 4),hcut⟩)⟩).1⟩

/-- The origin of the finalized block is orphaned: the search clears the unsafe head at the last
block that it looks at, and succeeds. -/
theorem findL2Heads_zero_head :
    Labelled sampleConfig (sampleL1 false) (pairL2 false 1) (pairChain false) 1 1 1 ∧
      (pairChain false).Orphan 1 ∧
      findL2Heads sampleConfig (sampleL1 false) (pairL2 false 1) ⟨false,0⟩ 1 =
        some (.ok ⟨.zero,l2At false 1,l2At false 1⟩) := by
  have hcan : originAt false 1 ∉ sampleCanon := by decide +kernel
  have hah : ¬ sampleCanon.length ≤ (originAt false 1).number.toNat := by decide +kernel
  exact ⟨upTo_labelled false (by decide) rfl (by decide),⟨hcan,hah⟩,by decide +kernel⟩

end OpStack.Proofs.SyncSuccess
