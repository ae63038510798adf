import OpStack.Proofs.SyncLineage

namespace OpStack.Proofs.SyncTermination
open Lib Eth Rollup Sync Proofs.Config SyncHeads SyncStart SyncLineage Search Nat

structure Answers {t : L1Tree} (l1 : L1Chain) (l2 : L2Chain) (heads : FindHeadsResult)
    (chain : Lineage t) (safe : Nat) : Prop where
  servesL1 : ServesL1 l1 t
  byNumber : ∀ n,l1.l1BlockRefByNumber n ≠ .failed
  byHash : ∀ b ∈ t.canon,l1.l1BlockRefByHash b.hash = .found b
  engine : ∀ k,chain.first ≤ k → k ≤ chain.last →
    l2.l2BlockRefByHash (chain.block k).hash = .found (chain.block k)
  heads : heads = ⟨chain.block chain.last,chain.block safe,chain.block chain.first⟩
  first_le : chain.first ≤ safe
  le_last : safe ≤ chain.last

namespace Answers
variable {t : L1Tree} {chain : Lineage t} {l1 : L1Chain} {l2 : L2Chain}
  {heads : FindHeadsResult} {safe j k : Nat}

theorem servesL2 (h : Answers l1 l2 heads chain safe) : ServesL2 l2 chain := by
  intro k b hfirst hlast hb
  exact (Fetched.found.inj ((h.engine k hfirst hlast).symm.trans hb)).symm

theorem fetch (h : Answers l1 l2 heads chain safe) (hfirst : chain.first ≤ k)
    (hlast : k ≤ chain.last) {l1Block : L1BlockRef} {ahead : Bool} (hkept : Kept t l1Block ahead) :
    ∃ r,fetchL1Block l1 (chain.block k) l1Block ahead = .ok r ∧
      SeenAt t (chain.origin k) r.1 r.2 := by
  have hbk := chain.origin_block hfirst hlast
  have hid := chain.origin_id hfirst hlast
  have hhs : (chain.block k).l1Origin.hash = (chain.origin k).hash := by
    rw [hid]
    rfl
  have hsn := fetchL1Block_seenAt h.servesL1 hbk hid hkept
  cases hft : fetchL1Block l1 (chain.block k) l1Block ahead with
  | ok r => exact ⟨r,rfl,hsn.of_eq hft⟩
  | error e =>
    unfold fetchL1Block at hft
    split at hft
    · rename_i hpar
      rw [hhs] at hpar
      rcases hkept with hz | ⟨-,hmem⟩
      · rw [hz] at hpar
        exact absurd hpar (t.nonzero hbk)
      · simp [hhs,h.byHash _ (t.parent_mem hmem hbk hpar.symm)] at hft
    split at hft
    · split at hft
      · cases hft
      · cases hft
      · rename_i hfailed
        exact absurd hfailed (h.byNumber _)
    · cases hft

end Answers

section walk
variable {t : L1Tree} (chain : Lineage t) (cfg : Config)

def GenesisOk (k : Nat) : Prop := ∀ l1Block ahead,SeenAt t (chain.origin k) l1Block ahead →
    checkGenesis cfg (chain.block k) l1Block ahead = .ok ()

def ParentOk (k : Nat) : Prop := ∀ l1Block ahead,SeenAt t (chain.origin k) l1Block ahead →
    checkParent (chain.block k) (chain.block (k - 1)) l1Block = .ok ()

/-- The look at a block passes, on a walk from height `top`: the depth is checked where the unsafe
head was cleared at the block above. -/
def LookOk (top k : Nat) : Prop :=
  GenesisOk chain cfg k ∧ (k < top → chain.Orphan (k + 1) →
    ¬ TooDeep cfg (chain.block chain.last) (chain.block k))

def Clear (top k : Nat) : Prop :=
  ∀ j,k < j → j ≤ top → ¬ chain.Canonical j ∧ LookOk chain cfg top j ∧ ParentOk chain j

structure FirstFrom (top k : Nat) : Prop where
  first_lt : chain.first < k
  le_top : k ≤ top
  canonical : chain.Canonical k
  look : LookOk chain cfg top k
  clear : Clear chain cfg top k

/-- With the check skipped the search jumps from the first block with a canonical origin to the old
safe head. It jumps again where it then meets such a block below the old safe head, or has jumped
from the old safe head itself. Only a window that wraps around lets it end after that. -/
def Stuck (syncCfg : SyncConfig) (safe : Nat) : Prop :=
  syncCfg.skipSyncStartCheck = true ∧ ∃ c d,FirstFrom chain cfg chain.last c ∧
    FirstFrom chain cfg safe d ∧ (c = safe ∨ d < safe ∧
      windowSeen cfg (chain.block safe) (chain.block d) (chain.block d) = false)

structure Down (top k : Nat) (s : Search) : Prop where
  first_le : chain.first ≤ k
  le_top : k ≤ top
  top_le : top ≤ chain.last
  n : s.n = chain.block k
  kept : Kept t s.l1Block s.ahead
  clear : Clear chain cfg top k
  cleared : s.unsafeHead = .zero ↔ k < top ∧ chain.Orphan (k + 1)

variable {chain cfg} {l1 : L1Chain} {l2 : L2Chain} {syncCfg : SyncConfig}
  {heads : FindHeadsResult} {safe top k c d : Nat} {s s' : Search}

theorem Clear.cons (h : Clear chain cfg top (k + 1)) (hc : ¬ chain.Canonical (k + 1))
    (hlook : LookOk chain cfg top (k + 1)) (hparent : ParentOk chain (k + 1)) :
    Clear chain cfg top k := by
  intro j hkj hj
  by_cases heq : j = k + 1
  · exact heq ▸ ⟨hc,hlook,hparent⟩
  · exact h j (by omega) hj

theorem FirstFrom.lower (h : FirstFrom chain cfg chain.last c) (hcs : c ≤ safe)
    (hs : safe ≤ chain.last) : FirstFrom chain cfg safe c := by
  have hlk : ∀ {j},LookOk chain cfg chain.last j → LookOk chain cfg safe j :=
    fun h => ⟨h.1,fun hj => h.2 (by omega)⟩
  refine ⟨h.first_lt,hcs,h.canonical,hlk h.look,?_⟩
  intro j hcj hj
  obtain ⟨hc,hl,hp⟩ := h.clear j hcj (by omega)
  exact ⟨hc,hlk hl,hp⟩

theorem genesisOk_of_looked (h : Looked chain cfg heads k s s') : GenesisOk chain cfg k := by
  intro l1Block ahead hsn
  obtain ⟨rfl,rfl⟩ := SeenAt.unique h.seen hsn
  exact h.genesis

theorem parentOk_of_looked (h : Looked chain cfg heads k s s')
    (hcheck : checkParent (chain.block k) (chain.block (k - 1)) s'.l1Block = .ok ()) :
    ParentOk chain k := by
  intro l1Block ahead hsn
  obtain ⟨rfl,rfl⟩ := SeenAt.unique h.seen hsn
  exact hcheck

theorem Down.looked (ha : Answers l1 l2 heads chain safe) (h : Down chain cfg top k s)
    (hlook : s.look cfg l1 heads = .ok s') :
    Looked chain cfg heads k s s' ∧ LookOk chain cfg top k := by
  have hlkd := look_looked h.first_le (le_trans h.le_top h.top_le) ha.servesL1 h.n h.kept hlook
  refine ⟨hlkd,genesisOk_of_looked hlkd,?_⟩
  intro hk horp
  have hdeep := hlkd.depth (h.cleared.mpr ⟨hk,horp⟩)
  rwa [ha.heads] at hdeep

theorem Down.next (h : Down chain cfg top (k + 1) s) (hfirst : chain.first ≤ k)
    (hlooked : Looked chain cfg heads (k + 1) s s') (hlook : LookOk chain cfg top (k + 1))
    (hc : ¬ chain.Canonical (k + 1))
    (hcheck : checkParent (chain.block (k + 1)) (chain.block k) s'.l1Block = .ok ()) :
    Down chain cfg top k { s' with n := chain.block k } := by
  have hle := h.le_top
  have htop := h.top_le
  have hclear := h.clear.cons hc hlook (parentOk_of_looked hlooked hcheck)
  have hclr := hlooked.cleared_iff h.first_le (by omega)
  refine ⟨hfirst,by omega,htop,rfl,hlooked.seen.kept,hclear,?_⟩
  constructor
  · intro hz
    exact ⟨by omega,hclr.mp hz⟩
  · intro horp
    exact hclr.mpr horp.2

theorem Down.restart (hlooked : Looked chain cfg heads k s s') (hc : chain.Canonical k)
    (hfirst : chain.first ≤ k) (hlast : k ≤ chain.last) (hfs : chain.first ≤ safe)
    (hsl : safe ≤ chain.last) : Down chain cfg safe safe { s' with n := chain.block safe } := by
  refine ⟨hfs,le_refl _,hsl,rfl,hlooked.seen.kept,by intro j; omega,?_⟩
  constructor
  · intro hz
    exact absurd hc ((hlooked.cleared_iff hfirst hlast).mp hz).1
  · omega

/-- Where the search is. The number bounds the rounds that are left. -/
inductive Phase (chain : Lineage t) (cfg : Config) (syncCfg : SyncConfig) (safe : Nat) :
    Nat → Search → Prop where
  /-- There are no jumps. -/
  | plain {k : Nat} {s : Search} : syncCfg.skipSyncStartCheck = false →
    chain.first ≤ k → k ≤ chain.last → s.n = chain.block k → Kept t s.l1Block s.ahead →
      Phase chain cfg syncCfg safe (k - chain.first) s
  /-- It has not jumped yet. -/
  | down {k : Nat} {s : Search} : syncCfg.skipSyncStartCheck = true → Down chain cfg chain.last k s →
      s.highestL2WithCanonicalL1Origin = .zero → s.ready = false →
      Phase chain cfg syncCfg safe (k - chain.first + (safe - chain.first)) s
  /-- It has jumped, and the old safe head has no canonical origin. -/
  | again {c k : Nat} {s : Search} : syncCfg.skipSyncStartCheck = true →
    FirstFrom chain cfg chain.last c → ¬ chain.Canonical safe → Down chain cfg safe k s →
      (k < safe → s.highestL2WithCanonicalL1Origin = .zero) → s.ready = false →
      Phase chain cfg syncCfg safe (k - chain.first) s
  /-- It has jumped from `c`, and all origins are canonical from the old safe head on. -/
  | canonical {c k : Nat} {s : Search} : k < c → c ≤ chain.last → chain.first ≤ k → chain.Canonical k →
      s.n = chain.block k → Kept t s.l1Block s.ahead →
      s.highestL2WithCanonicalL1Origin = chain.block c →
      Phase chain cfg syncCfg safe (k - chain.first) s
  /-- The round at the old safe head is the last one. -/
  | ready {s : Search} : ¬ chain.Canonical safe → s.n = chain.block safe → Kept t s.l1Block s.ahead →
      s.ready = true → Phase chain cfg syncCfg safe 0 s

theorem FirstFrom.unique (hc : FirstFrom chain cfg top c) (hd : FirstFrom chain cfg top d) :
    c = d := by
  rcases lt_trichotomy c d with h | h | h
  · exact absurd hd.canonical (hc.clear d h hd.le_top).1
  · exact h
  · exact absurd hc.canonical (hd.clear c h hc.le_top).1

variable (ha : Answers l1 l2 heads chain safe)
include ha

section
variable (hfirst : chain.first ≤ k) (hlast : k ≤ chain.last)
include hfirst hlast

theorem Answers.finalized : (chain.block k).number = heads.finalized.number ↔ k = chain.first := by
  have hle := le_trans ha.first_le ha.le_last
  rw [ha.heads]
  exact Lineage.number_inj hfirst hlast (le_refl _) hle

theorem Answers.number_safe (hk : safe < k) (highest : L2BlockRef) :
    windowSeen cfg heads.safe (chain.block k) highest = false := by
  refine decide_eq_false ?_
  rintro ⟨hle,-⟩
  rw [ha.heads,UInt64.le_iff_toNat_le,chain.number hfirst hlast,
    chain.number ha.first_le ha.le_last] at hle
  omega

theorem round_goes_on (hn : s.n = chain.block k) (hkept : Kept t s.l1Block s.ahead)
    {s₂ : Search} (h : s.round cfg l1 l2 syncCfg heads = .ok (.inl s₂)) :
    ∃ j s',k = j + 1 ∧ chain.first ≤ j ∧ s.look cfg l1 heads = .ok s' ∧
      Looked chain cfg heads k s s' ∧
      ((syncCfg.skipSyncStartCheck = true ∧
        s'.highestL2WithCanonicalL1Origin.hash = (chain.block k).hash ∧
        s₂ = { s' with n := chain.block safe }) ∨
      (checkParent (chain.block k) (chain.block j) s'.l1Block = .ok () ∧
        ¬ (syncCfg.skipSyncStartCheck = true ∧
          s'.highestL2WithCanonicalL1Origin.hash = (chain.block k).hash) ∧
        s'.ready = false ∧ s₂ = { s' with n := chain.block j })) := by
  have hbottom : k = chain.first → (chain.block k).number = heads.finalized.number ∨
      ∀ b,l2.l2BlockRefByHash (chain.block k).parentHash ≠ .found b :=
    fun hk => .inl ((ha.finalized hfirst hlast).mpr hk)
  obtain ⟨s',hlk,hlkd,⟨-,heq⟩ | ⟨hfin,⟨hsk,hhs,heq⟩ | ⟨hno,j,rfl,hj,hck,hend⟩⟩⟩ :=
    round_cases ha.servesL1 ha.servesL2 hfirst hlast hn hkept hbottom h
  · cases heq
  · have hk := mt (ha.finalized hfirst hlast).mpr hfin
    obtain ⟨j,rfl⟩ : ∃ j,k = j + 1 := ⟨k - 1,by omega⟩
    have hsf : heads.safe = chain.block safe := by rw [ha.heads]
    rw [Sum.inl.inj heq,hsf]
    exact ⟨j,s',rfl,by omega,hlk,hlkd,.inl ⟨hsk,hhs,rfl⟩⟩
  · rcases hend with ⟨-,heq⟩ | ⟨hrdy,heq⟩
    · cases heq
    · exact ⟨j,s',rfl,hj,hlk,hlkd,.inr ⟨hck,hno,hrdy,Sum.inl.inj heq⟩⟩

theorem look_passes (hn : s.n = chain.block k) (hkept : Kept t s.l1Block s.ahead)
    (hgenesis : GenesisOk chain cfg k) (hdepth : s.unsafeHead = .zero →
      ¬ TooDeep cfg (chain.block chain.last) (chain.block k)) :
    ∃ s',s.look cfg l1 heads = .ok s' ∧ Looked chain cfg heads k s s' := by
  obtain ⟨⟨l1Block,ahead⟩,hft,hsn⟩ := ha.fetch hfirst hlast hkept
  have hck := hgenesis l1Block ahead hsn
  have hfin : checkFinalized heads.finalized (chain.block k) = .ok () := by
    refine if_neg ?_
    rintro ⟨hnum,hhs⟩
    have hk := (ha.finalized hfirst hlast).mp hnum
    rw [ha.heads,hk] at hhs
    exact hhs rfl
  have husable : usableUnsafe cfg heads.unsafeHead s.unsafeHead (chain.block k) =
      .ok (refill s.unsafeHead (chain.block k)) := by
    rw [ha.heads]
    exact usableUnsafe_ok_iff.mpr ⟨hdepth,rfl⟩
  have hlk : ∃ s',s.look cfg l1 heads = .ok s' := by
    unfold look
    rw [hn,hft]
    change ∃ s',(checkGenesis cfg (chain.block k) l1Block ahead >>= _) = .ok s'
    rw [hck]
    rw [hfin]
    rw [husable]
    exact ⟨_,rfl⟩
  obtain ⟨s',hs'⟩ := hlk
  exact ⟨s',hs',look_looked hfirst hlast ha.servesL1 hn hkept hs'⟩

end

theorem first_jump (hskip : syncCfg.skipSyncStartCheck = true)
    (hns : ¬ Stuck chain cfg syncCfg safe) (hfrom : FirstFrom chain cfg chain.last c)
    (hlooked : Looked chain cfg heads c s s')
    (hhighest : s.highestL2WithCanonicalL1Origin = .zero) (hready : s.ready = false) :
    ∃ m < c - chain.first + (safe - chain.first),
      Phase chain cfg syncCfg safe m { s' with n := chain.block safe } := by
  have hlt := hfrom.first_lt
  have hle := hfrom.le_top
  have hfs := ha.first_le
  have hsl := ha.le_last
  have hfirst : chain.first ≤ c := by omega
  have hh : s'.highestL2WithCanonicalL1Origin = chain.block c := by
    rw [(hlooked.canonical hfrom.canonical).2,hhighest]
    rfl
  have hready' := hlooked.ready
  rw [hready,hh,ha.heads] at hready'
  have hkp := hlooked.seen.kept
  rcases lt_trichotomy safe c with hsc | hsc | hsc
  · by_cases hc : chain.Canonical safe
    · exact ⟨safe - chain.first,by omega,.canonical hsc hle hfs hc rfl hkp hh⟩
    have hnot : windowSeen cfg heads.safe (chain.block c) (chain.block c) = false :=
      ha.number_safe hfirst hle hsc _
    rw [ha.heads] at hnot
    have hdn := Down.restart hlooked hfrom.canonical hfirst hle hfs hsl
    exact ⟨safe - chain.first,by omega,.again hskip hfrom hc hdn (by omega) (hready'.trans hnot)⟩
  · have hfrom' := hfrom.lower (le_of_eq hsc.symm) hsl
    exact absurd ⟨hskip,c,c,hfrom,hfrom',.inl hsc.symm⟩ hns
  · have hfrom' := hfrom.lower (le_of_lt hsc) hsl
    have hsn : windowSeen cfg (chain.block safe) (chain.block c) (chain.block c) = true := by
      by_contra hnot
      exact hns ⟨hskip,c,c,hfrom,hfrom',.inr ⟨hsc,by simpa using hnot⟩⟩
    exact ⟨0,by omega,.ready (hfrom.clear safe hsc hsl).1 rfl hkp (hready'.trans hsn)⟩

/-- Without a second jump each round gets closer to the finalized block. -/
theorem phase_decreases (hns : ¬ Stuck chain cfg syncCfg safe) {m : Nat}
    (h : Phase chain cfg syncCfg safe m s)
    {s₂ : Search} (hround : s.round cfg l1 l2 syncCfg heads = .ok (.inl s₂)) :
    ∃ m' < m,Phase chain cfg syncCfg safe m' s₂ := by
  have hfs := ha.first_le
  have hsl := ha.le_last
  cases h with
  | @plain k s hsk hfirst hlast hn hkp =>
    obtain ⟨j,s',rfl,hj,-,hlkd,⟨hsk',-⟩ | ⟨-,-,-,rfl⟩⟩ :=
      round_goes_on ha hfirst hlast hn hkp hround
    · simp [hsk] at hsk'
    · exact ⟨j - chain.first,by omega,.plain hsk hj (by omega) rfl hlkd.seen.kept⟩
  | @down k s hsk hdn hhi hrdy =>
    obtain ⟨j,s',rfl,hj,hlk,hlkd,hcs⟩ :=
      round_goes_on ha hdn.first_le hdn.le_top hdn.n hdn.kept hround
    have hlookOk := (hdn.looked ha hlk).2
    by_cases hc : chain.Canonical (j + 1)
    · have hfm : FirstFrom chain cfg chain.last (j + 1) :=
        ⟨by omega,hdn.le_top,hc,hlookOk,hdn.clear⟩
      have hjump : s'.highestL2WithCanonicalL1Origin.hash = (chain.block (j + 1)).hash := by
        rw [(hlkd.canonical hc).2,hhi]
        rfl
      rcases hcs with ⟨-,-,rfl⟩ | ⟨-,hno,-⟩
      · exact first_jump ha hsk hns hfm hlkd hhi hrdy
      · exact absurd ⟨hsk,hjump⟩ hno
    · have hnoJump := hlkd.no_jump hdn.first_le hdn.le_top hc
      rcases hcs with ⟨-,hjump,-⟩ | ⟨hck,-,hrdy',rfl⟩
      · exact absurd hjump hnoJump
      · exact ⟨j - chain.first + (safe - chain.first),by omega,
          .down hsk (hdn.next hj hlkd hlookOk hc hck) (hlkd.cleared hc) hrdy'⟩
  | @again c k s hsk hfm hsf hdn hhi hrdy =>
    have hks := hdn.le_top
    obtain ⟨j,s',rfl,hj,hlk,hlkd,hcs⟩ :=
      round_goes_on ha hdn.first_le (by omega) hdn.n hdn.kept hround
    have hlookOk := (hdn.looked ha hlk).2
    by_cases hc : chain.Canonical (j + 1)
    · have hne : j + 1 ≠ safe := fun heq => hsf (heq ▸ hc)
      have hfm' : FirstFrom chain cfg safe (j + 1) := ⟨by omega,hks,hc,hlookOk,hdn.clear⟩
      have hh : s'.highestL2WithCanonicalL1Origin = chain.block (j + 1) := by
        rw [(hlkd.canonical hc).2,hhi (by omega)]
        rfl
      have hsn : windowSeen cfg (chain.block safe) (chain.block (j + 1))
          (chain.block (j + 1)) = true := by
        by_contra hnot
        exact hns ⟨hsk,c,j + 1,hfm,hfm',.inr ⟨by omega,by simpa using hnot⟩⟩
      have hrdy' : s'.ready = true := by
        rw [hlkd.ready,hrdy,hh,ha.heads]
        exact hsn
      rcases hcs with ⟨-,-,rfl⟩ | ⟨-,hno,-⟩
      · exact ⟨0,by omega,.ready hsf rfl hlkd.seen.kept hrdy'⟩
      · exact absurd ⟨hsk,congrArg L2BlockRef.hash hh⟩ hno
    · have hnoJump := hlkd.no_jump hdn.first_le (by omega) hc
      rcases hcs with ⟨-,hjump,-⟩ | ⟨hck,-,hrdy',rfl⟩
      · exact absurd hjump hnoJump
      · exact ⟨j - chain.first,by omega,.again hsk hfm hsf
          (hdn.next hj hlkd hlookOk hc hck) (fun _ => hlkd.cleared hc) hrdy'⟩
  | @canonical c k s hkc hcl hfirst hc hn hkp hhi =>
    obtain ⟨j,s',rfl,hj,-,hlkd,hcs⟩ := round_goes_on ha hfirst (by omega) hn hkp hround
    have hh : s'.highestL2WithCanonicalL1Origin = chain.block c := by
      rw [(hlkd.canonical hc).2,hhi]
      exact if_neg (Lineage.block_ne_zero (by omega) hcl)
    rcases hcs with ⟨-,hjump,-⟩ | ⟨hck,-,-,rfl⟩
    · rw [hh] at hjump
      have heq := chain.unique (by omega) hcl hfirst (by omega) hjump
      omega
    have hcj := (checkParent_mem (chain.origin_block hj (by omega))
      (chain.origin_id hfirst (by omega)) (chain.origin_id hj (by omega)) hlkd.seen).of_eq
      hck hc
    exact ⟨j - chain.first,by omega,.canonical (by omega) hcl hj hcj rfl hlkd.seen.kept hh⟩
  | ready hsf hn hkp hrdy =>
    obtain ⟨j,s',rfl,-,-,hlkd,⟨-,hjump,-⟩ | ⟨-,-,hrdy',-⟩⟩ := round_goes_on ha hfs hsl hn hkp hround
    · exact absurd hjump (hlkd.no_jump hfs hsl hsf)
    · simp [hlkd.ready,hrdy] at hrdy'

theorem round_jumps (hskip : syncCfg.skipSyncStartCheck = true) (hfirst : chain.first < k)
    (hlast : k ≤ chain.last)
    (hlook : s.look cfg l1 heads = .ok s') (hlooked : Looked chain cfg heads k s s')
    (hjump : s'.highestL2WithCanonicalL1Origin.hash = (chain.block k).hash) :
    s.round cfg l1 l2 syncCfg heads = .ok (.inl { s' with n := chain.block safe }) := by
  have hfin := mt (ha.finalized (by omega) hlast).mp (by omega)
  unfold Search.round
  rw [hlook]
  change s'.moveOn l2 syncCfg heads = _
  unfold moveOn
  rw [hlooked.n,if_neg hfin,if_pos ⟨hskip,hjump⟩,ha.heads]

theorem round_down (hfirst : chain.first ≤ k)
    (hlast : k < chain.last) (hlook : s.look cfg l1 heads = .ok s')
    (hlooked : Looked chain cfg heads (k + 1) s s') (hc : ¬ chain.Canonical (k + 1))
    (hparent : ParentOk chain (k + 1)) (hready : s.ready = false) : s'.ready = false ∧
      s.round cfg l1 l2 syncCfg heads = .ok (.inl { s' with n := chain.block k }) := by
  have hready' := (hlooked.ready_eq hc).trans hready
  have hfin := mt (ha.finalized (le_succ_of_le hfirst) hlast).mp (by omega)
  have hnoJump := hlooked.no_jump (le_succ_of_le hfirst) hlast hc
  have hck : checkParent (chain.block (k + 1)) (chain.block k) s'.l1Block = .ok () :=
    hparent _ _ hlooked.seen
  refine ⟨hready',?_⟩
  unfold Search.round
  rw [hlook]
  change s'.moveOn l2 syncCfg heads = _
  unfold moveOn
  rw [hlooked.n,if_neg hfin,if_neg (fun h => hnoJump h.2),chain.linked hfirst hlast,
    ha.engine k hfirst (le_of_lt hlast)]
  simp [hck,hready']

/-- The states that the search comes by when it is stuck. -/
inductive Circle (chain : Lineage t) (cfg : Config) (safe c d : Nat) : Search → Prop where
  | down {k : Nat} {s : Search} : c ≤ k → Down chain cfg chain.last k s →
      s.highestL2WithCanonicalL1Origin = .zero → s.ready = false →
      Circle chain cfg safe c d s
  | again {k : Nat} {s : Search} : d < safe →
      windowSeen cfg (chain.block safe) (chain.block d) (chain.block d) = false → d ≤ k →
      Down chain cfg safe k s →
      (k < safe → s.highestL2WithCanonicalL1Origin = .zero) → s.ready = false →
      Circle chain cfg safe c d s
  | stay {s : Search} : c = safe → s.n = chain.block safe → Kept t s.l1Block s.ahead →
      s.unsafeHead ≠ .zero →
      s.highestL2WithCanonicalL1Origin = chain.block safe → Circle chain cfg safe c d s

theorem Down.look_passes (h : Down chain cfg top k s) (hlook : LookOk chain cfg top k) :
    ∃ s',s.look cfg l1 heads = .ok s' ∧ Looked chain cfg heads k s s' := by
  refine SyncTermination.look_passes ha h.first_le (le_trans h.le_top h.top_le) h.n h.kept
    hlook.1 ?_
  intro hz
  obtain ⟨hk,horp⟩ := h.cleared.mp hz
  exact hlook.2 hk horp

theorem Down.goes_on (h : Down chain cfg top k s)
    (hfrom : FirstFrom chain cfg top c) (hck : c < k) (hready : s.ready = false) :
    ∃ s₂,s.round cfg l1 l2 syncCfg heads = .ok (.inl s₂) ∧ Down chain cfg top (k - 1) s₂ ∧
      s₂.highestL2WithCanonicalL1Origin = .zero ∧ s₂.ready = false := by
  have hfirst := hfrom.first_lt
  obtain ⟨j,rfl⟩ : ∃ j,k = j + 1 := ⟨k - 1,by omega⟩
  have hle := h.le_top
  have htop := h.top_le
  obtain ⟨hc,hlookOk,hpar⟩ := hfrom.clear (j + 1) hck hle
  obtain ⟨s',hlk,hlkd⟩ := h.look_passes ha hlookOk
  obtain ⟨hready',hrn⟩ := round_down ha (by omega) (by omega) hlk hlkd hc hpar hready
  exact ⟨_,hrn,h.next (by omega) hlkd hlookOk hc (hpar _ _ hlkd.seen),hlkd.cleared hc,hready'⟩

theorem Down.jumps (hskip : syncCfg.skipSyncStartCheck = true) (h : Down chain cfg top c s)
    (hfrom : FirstFrom chain cfg top c)
    (hhighest : s.highestL2WithCanonicalL1Origin = .zero) (hready : s.ready = false) :
    ∃ s₂,s.round cfg l1 l2 syncCfg heads = .ok (.inl s₂) ∧ Down chain cfg safe safe s₂ ∧
      s₂.highestL2WithCanonicalL1Origin = chain.block c ∧
      s₂.ready = windowSeen cfg (chain.block safe) (chain.block c) (chain.block c) := by
  have hlast := le_trans h.le_top h.top_le
  obtain ⟨s',hlk,hlkd⟩ := h.look_passes ha hfrom.look
  have hh : s'.highestL2WithCanonicalL1Origin = chain.block c := by
    rw [(hlkd.canonical hfrom.canonical).2,hhighest]
    rfl
  have hready' := hlkd.ready
  rw [hready,hh,ha.heads] at hready'
  exact ⟨_,round_jumps ha hskip hfrom.first_lt hlast hlk hlkd (congrArg _ hh),
    Down.restart hlkd hfrom.canonical h.first_le hlast ha.first_le ha.le_last,hh,hready'⟩

theorem circle_goes_on (hskip : syncCfg.skipSyncStartCheck = true)
    (hc : FirstFrom chain cfg chain.last c)
    (hd : FirstFrom chain cfg safe d) (hend : c = safe ∨ d < safe ∧
      windowSeen cfg (chain.block safe) (chain.block d) (chain.block d) = false)
    (h : Circle chain cfg safe c d s) :
    ∃ s₂,s.round cfg l1 l2 syncCfg heads = .ok (.inl s₂) ∧ Circle chain cfg safe c d s₂ := by
  have hfs := ha.first_le
  have hsl := ha.le_last
  cases h with
  | @down k s hck hdn hhi hrdy =>
    rcases lt_or_eq_of_le hck with hlt | rfl
    · obtain ⟨s₂,hrn,hdn',hhi',hrdy'⟩ := hdn.goes_on ha hc hlt hrdy
      exact ⟨s₂,hrn,.down (by omega) hdn' hhi' hrdy'⟩
    obtain ⟨s₂,hrn,hdn',hhi',hrdy'⟩ := hdn.jumps ha hskip hc hhi hrdy
    refine ⟨s₂,hrn,?_⟩
    rcases hend with rfl | ⟨hds,hnot⟩
    · have hne : s₂.unsafeHead ≠ .zero := by
        intro hz
        have hlt := (hdn'.cleared.mp hz).1
        omega
      exact .stay rfl hdn'.n hdn'.kept hne hhi'
    refine .again hds hnot hd.le_top hdn' (by omega) (hrdy'.trans ?_)
    by_cases hcs : c ≤ safe
    · rw [(hc.lower hcs hsl).unique hd]
      exact hnot
    have hab : windowSeen cfg heads.safe (chain.block c) (chain.block c) = false :=
      ha.number_safe hdn.first_le hc.le_top (by omega) _
    rwa [ha.heads] at hab
  | @again k s hds hnot hdk hdn hhi hrdy =>
    rcases lt_or_eq_of_le hdk with hlt | rfl
    · obtain ⟨s₂,hrn,hdn',hhi',hrdy'⟩ := hdn.goes_on ha hd hlt hrdy
      exact ⟨s₂,hrn,.again hds hnot (by omega) hdn' (fun _ => hhi') hrdy'⟩
    obtain ⟨s₂,hrn,hdn',-,hrdy'⟩ := hdn.jumps ha hskip hd (hhi hds) hrdy
    exact ⟨s₂,hrn,.again hds hnot hd.le_top hdn' (by omega) (hrdy'.trans hnot)⟩
  | stay hcs hn hkp hne hhi =>
    subst hcs
    obtain ⟨s',hlk,hlkd⟩ := look_passes ha hfs hsl hn hkp hc.look.1 (fun hz => absurd hz hne)
    obtain ⟨hhd,hh⟩ := hlkd.canonical hc.canonical
    rw [hhi] at hh
    have hh' := hh.trans (if_neg (Lineage.block_ne_zero hfs hsl))
    refine ⟨_,round_jumps ha hskip hc.first_lt hsl hlk hlkd (congrArg _ hh'),?_⟩
    exact .stay rfl rfl hlkd.seen.kept (hhd ▸ refill_ne_zero hfs hsl) hh'

theorem start_down : Down chain cfg chain.last chain.last (start heads.unsafeHead) := by
  have hle := le_trans ha.first_le ha.le_last
  rw [ha.heads]
  refine ⟨hle,le_refl _,le_refl _,rfl,.inl rfl,by intro j; omega,?_⟩
  constructor
  · intro hz
    exact absurd hz (Lineage.block_ne_zero hle (le_refl _))
  · omega

theorem findL2Heads_stuck (hcurrent : currentHeads cfg l2 = .ok heads)
    (hwalk : ¬ Recovers cfg heads) (hstuck : Stuck chain cfg syncCfg safe) (fuel : Nat) :
    findL2Heads cfg l1 l2 syncCfg fuel = none := by
  obtain ⟨hsk,c,d,hc,hd,hend⟩ := hstuck
  have hsta : Circle chain cfg safe c d (start heads.unsafeHead) :=
    .down hc.le_top (start_down ha) rfl rfl
  unfold findL2Heads
  rw [hcurrent]
  exact (if_neg hwalk).trans
    (loop_diverges (fun s h => circle_goes_on ha hsk hc hd hend h) hsta fuel)

end walk

/-- The search returns within the bound exactly if it does not get stuck. -/
theorem findL2Heads_returns_iff {t : L1Tree} (chain : Lineage t) (cfg : Config) (l1 : L1Chain)
    (l2 : L2Chain) (syncCfg : SyncConfig) (heads : FindHeadsResult) (safe : Nat)
    (ha : Answers l1 l2 heads chain safe) (hcurrent : currentHeads cfg l2 = .ok heads) :
    (findL2Heads cfg l1 l2 syncCfg (2 * (chain.last - chain.first) + 2)).isSome = true ↔
      Recovers cfg heads ∨ ¬ Stuck chain cfg syncCfg safe := by
  by_cases hwalk : Recovers cfg heads
  · unfold findL2Heads
    rw [hcurrent]
    simp only [hwalk,true_or,iff_true]
    exact congrArg Option.isSome (if_pos hwalk)
  constructor
  · intro hso
    right
    intro hstuck
    simp [findL2Heads_stuck ha hcurrent hwalk hstuck] at hso
  intro hor
  have hns := hor.resolve_left hwalk
  have hle := ha.le_last
  have hsta : ∃ m < 2 * (chain.last - chain.first) + 2,
      Phase chain cfg syncCfg safe m (start heads.unsafeHead) := by
    have hdn : Down chain cfg chain.last chain.last (start heads.unsafeHead) := start_down ha
    cases hsk : syncCfg.skipSyncStartCheck with
    | true => exact ⟨_,by omega,.down hsk hdn rfl rfl⟩
    | false => exact ⟨_,by omega,.plain hsk hdn.first_le hdn.le_top hdn.n hdn.kept⟩
  obtain ⟨m,hm,hphase⟩ := hsta
  have hfd : findL2Heads cfg l1 l2 syncCfg (2 * (chain.last - chain.first) + 2) =
      loop (Search.round cfg l1 l2 syncCfg heads) (2 * (chain.last - chain.first) + 2)
        (start heads.unsafeHead) := by
    unfold findL2Heads
    rw [hcurrent]
    exact if_neg hwalk
  rw [hfd]
  refine loop_returns (I := Phase chain cfg syncCfg safe) (Q := fun _ => True)
    (E := fun _ => True) ?_ hphase hm
  intro m s hs
  refine .of_forall ?_
  intro x hx
  cases x with
  | inl s₂ => exact phase_decreases ha hns hs hx
  | inr r => trivial

theorem sampleL1_byNumber (high : Bool) (n : UInt64) :
    (sampleL1 high).l1BlockRefByNumber n ≠ .failed := by
  change answer sampleCanon[n.toNat]? ≠ .failed
  cases sampleCanon[n.toNat]? with
  | none => simp [answer]
  | some b => simp [answer]

theorem sampleL1_byHash (b : L1BlockRef) (hb : b ∈ sampleCanon) :
    (sampleL1 true).l1BlockRefByHash b.hash = .found b := by
  have hall : ∀ b ∈ sampleCanon,(sampleBlocks true).find? (fun a => a.hash = b.hash) =
      some b := by
    decide +kernel
  exact congrArg answer (hall b hb)

theorem sample_answers :
    Answers (sampleL1 true) (sampleL2 true) (sampleHeads true) (sampleChain true) 4 where
  servesL1 := (sample_serves true).l1
  byNumber := sampleL1_byNumber true
  byHash := sampleL1_byHash
  engine k _ hk := l2At_found true (le_refl 7) _ hk
  heads := rfl
  first_le := by decide
  le_last := by decide

/-- The first block with a canonical origin is above the old safe head, which has one too. -/
theorem sample_not_stuck : ¬ Stuck (sampleChain true) sampleConfig ⟨true,0⟩ 4 := by
  have hcan : ∀ k ∈ [4,5],originAt true k ∈ sampleCanon := by decide +kernel
  rintro ⟨-,c,d,hc,hd,hend⟩
  have hc5 : 5 ≤ c := by
    by_contra hlt
    exact (hc.clear 5 (by omega) (by decide)).1 (hcan 5 (by decide))
  have hd4 : 4 ≤ d := by
    by_contra hlt
    exact (hd.clear 4 (by omega) (by decide)).1 (hcan 4 (by decide))
  omega

/-- With the check skipped the search jumps from block 5 to the old safe head at block 4. -/
theorem findL2Heads_returns_sample :
    (findL2Heads sampleConfig (sampleL1 true) (sampleL2 true) ⟨true,0⟩ 16).isSome = true :=
  (findL2Heads_returns_iff (sampleChain true) sampleConfig (sampleL1 true) (sampleL2 true) ⟨true,0⟩
    (sampleHeads true) 4 sample_answers (sample_heads rfl true)).mpr (.inr sample_not_stuck)

theorem pair_answers :
    Answers (sampleL1 true) (pairL2 true 0) (pairHeads true) (pairChain true) 1 where
  servesL1 := (sample_serves true).l1
  byNumber := sampleL1_byNumber true
  byHash := sampleL1_byHash
  engine k _ hk := l2At_found true (by decide) _ hk
  heads := rfl
  first_le := by decide
  le_last := by decide

theorem pair_walks : ¬ Recovers sampleConfig (pairHeads true) := by
  unfold Recovers
  decide +kernel

theorem pair_firstFrom : FirstFrom (pairChain true) sampleConfig 1 1 where
  first_lt := by decide
  le_top := by decide
  canonical := by
    change originAt true 1 ∈ sampleCanon
    decide +kernel
  look := by
    constructor
    · intro l1Block ahead _
      refine if_pos ?_
      decide +kernel
    · omega
  clear := by
    intro j hj hj1
    omega

/-- With the safe head at the tip and the check skipped, the search jumps from the tip to the tip
for ever. -/
theorem findL2Heads_never_returns :
    Answers (sampleL1 true) (pairL2 true 0) (pairHeads true) (pairChain true) 1 ∧
      currentHeads sampleConfig (pairL2 true 0) = .ok (pairHeads true) ∧
      ∀ fuel,findL2Heads sampleConfig (sampleL1 true) (pairL2 true 0) ⟨true,0⟩ fuel = none :=
  ⟨pair_answers,rfl,findL2Heads_stuck pair_answers rfl pair_walks
    ⟨rfl,1,1,pair_firstFrom,pair_firstFrom,.inl rfl⟩⟩

end OpStack.Proofs.SyncTermination
