import OpStack.Proofs.HazardCycle

namespace OpStack.Interop
open Lib Eth Relation List

/-! The check of a block when some of the chains have another block at the same place. -/

section
variable {keccak256 : Bytes → Hash} {blocks : Hash → Block} {deps deps' : CheckDeps}
  {start p : Hazard} {entries : HazardEntries}

theorem reflTransGen_timestamp (h : ReflTransGen (Needs keccak256 blocks deps) start p) :
    p.2.timestamp = start.2.timestamp := by
  rcases reflTransGen_iff_eq_or_transGen.mp h with rfl | h
  · rfl
  · exact reached_timestamp h

theorem LogEdge.mono {ts : UInt64} {entries' : HazardEntries} (hsub : entries' ⊆ entries)
    {a b : LogNode} (h : LogEdge blocks deps ts entries' a b) :
    LogEdge blocks deps ts entries a b := by
  obtain ⟨p,hp,h⟩ := h
  exact ⟨p,hsub hp,h⟩

open Classical in
theorem HazardsOf.of_reached (hall : HazardsOf keccak256 blocks deps start entries)
    (hp : ReflTransGen (Needs keccak256 blocks deps) start p) :
    ∃ entries',HazardsOf keccak256 blocks deps p entries' ∧ entries' ⊆ entries := by
  refine ⟨entries.filter fun q => TransGen (Needs keccak256 blocks deps) p q,?_,
    filter_subset_self _⟩
  refine ⟨⟨?_,?_⟩,?_,?_⟩
  · exact hall.ok.nodup.sublist (filter_sublist.map _)
  · intro q hq
    exact hall.ok.seals q (mem_filter.mp hq).1
  · intro q
    rw [mem_filter,decide_eq_true_eq,hall.mem_iff]
    constructor
    · exact And.right
    · intro hq
      exact ⟨.trans_right hp hq,hq⟩
  · intro q hq
    exact hall.blocks q (hp.trans hq)

theorem Passes.of_reached (h : Passes keccak256 blocks deps start)
    (hp : ReflTransGen (Needs keccak256 blocks deps) start p) : Passes keccak256 blocks deps p := by
  obtain ⟨entries,hall,hcyc⟩ := h
  obtain ⟨entries',hall',hsub⟩ := hall.of_reached hp
  refine ⟨entries',hall',?_⟩
  intro a ha
  rw [reflTransGen_timestamp hp] at ha
  exact hcyc a (ha.mono_on fun x y _ hxy _ => hxy.mono hsub)

theorem Passes.blockOk (h : Passes keccak256 blocks deps p) : BlockOk keccak256 blocks deps p := by
  obtain ⟨_,hall,_⟩ := h
  exact hall.blocks p .refl

structure SameFrom (keccak256 : Bytes → Hash) (blocks : Hash → Block) (deps deps' : CheckDeps)
    (start : Hazard) : Prop where
  linker : deps'.linker = deps.linker
  opens : ∀ p,ReflTransGen (Needs keccak256 blocks deps) start p → ∀ r,
    opens blocks deps p.1 p.2.number = .ok r → opens blocks deps' p.1 p.2.number = .ok r
  contains : ∀ p,ReflTransGen (Needs keccak256 blocks deps) start p → ∀ msgs i m b,
    Messages blocks deps p msgs → (i,m) ∈ msgs →
    contains keccak256 blocks deps m.chainID m.query = .ok b →
    contains keccak256 blocks deps' m.chainID m.query = .ok b

theorem SameFrom.needs_iff (h : SameFrom keccak256 blocks deps deps' start)
    (hall : HazardsOf keccak256 blocks deps start entries)
    (hp : ReflTransGen (Needs keccak256 blocks deps) start p) (q : Hazard) :
    Needs keccak256 blocks deps' p q ↔ Needs keccak256 blocks deps p q := by
  obtain ⟨msgs,hms,hok⟩ := hall.blocks p hp
  have hms' : Messages blocks deps' p msgs := by
    obtain ⟨n,hop⟩ := hms
    exact ⟨n,h.opens p hp _ hop⟩
  constructor
  · rintro ⟨msgs₁,i,m,hms₁,hm,ht,hc,hq⟩
    rw [hms₁.unique hms'] at hm
    obtain ⟨b,hb⟩ := (hok i m hm).contained
    rw [h.contains p hp msgs i m b hms hm hb] at hq
    exact ⟨msgs,i,m,hms,hm,ht,hc,hb.trans hq⟩
  · rintro ⟨msgs₁,i,m,hms₁,hm,ht,hc,hq⟩
    rw [hms₁.unique hms] at hm
    exact ⟨msgs,i,m,hms',hm,ht,hc,h.contains p hp msgs i m q.2 hms hm hq⟩

theorem SameFrom.reach_iff (h : SameFrom keccak256 blocks deps deps' start)
    (hall : HazardsOf keccak256 blocks deps start entries) :
    ReflTransGen (Needs keccak256 blocks deps') start p ↔
      ReflTransGen (Needs keccak256 blocks deps) start p := by
  constructor
  · intro hp
    induction hp with
    | refl => exact .refl
    | tail _ hst ih => exact ih.tail ((h.needs_iff hall ih _).mp hst)
  intro hp
  induction hp with
  | refl => exact .refl
  | tail hq hst ih => exact ih.tail ((h.needs_iff hall hq _).mpr hst)

theorem Passes.sameFrom (hpass : Passes keccak256 blocks deps start)
    (h : SameFrom keccak256 blocks deps deps' start) : Passes keccak256 blocks deps' start := by
  obtain ⟨entries,hall,hcyc⟩ := hpass
  refine ⟨entries,⟨hall.ok,?_,?_⟩,?_⟩
  · intro p
    rw [hall.mem_iff,TransGen.tail'_iff,TransGen.tail'_iff]
    constructor
    · rintro ⟨q,hq,hst⟩
      exact ⟨q,(h.reach_iff hall).mpr hq,(h.needs_iff hall hq p).mpr hst⟩
    rintro ⟨q,hq,hst⟩
    have hq' := (h.reach_iff hall).mp hq
    exact ⟨q,hq',(h.needs_iff hall hq' p).mp hst⟩
  · intro p hp
    have hp' := (h.reach_iff hall).mp hp
    obtain ⟨msgs,hms,hok⟩ := hall.blocks p hp'
    obtain ⟨n,hop⟩ := id hms
    refine ⟨msgs,⟨n,h.opens p hp' _ hop⟩,?_⟩
    intro i m hm
    obtain ⟨b,hb⟩ := (hok i m hm).contained
    refine ⟨?_,b,h.contains p hp' msgs i m b hms hm hb⟩
    rw [h.linker]
    exact (hok i m hm).canExecute
  · intro a ha
    refine hcyc a (ha.mono_on ?_)
    rintro x y _ ⟨p,hp,l,⟨msgs,hop',hch,hms⟩,hedge⟩ _
    have hrch := ((hall.mem_iff p).mp hp).to_reflTransGen
    obtain ⟨msgs₁,⟨n,hop⟩,_⟩ := hall.blocks p hrch
    rw [h.opens p hrch _ hop] at hop'
    cases hop'
    exact ⟨p,hp,l,⟨msgs,hop,hch,hms⟩,hedge⟩

end

/-! Blocks of the same number on the same parent. -/

section
variable {blocks : Hash → Block} {h h' : Hash} {n : UInt64}

@[simp] theorem getHeaderByNumber_self : getHeaderByNumber blocks h (blocks h).number = some h := by
  unfold getHeaderByNumber
  cases (blocks h).number.toNat with
  | zero => simp [walkBack]
  | succ k => simp [walkBack]

theorem getHeaderByNumber_replace (hnumber : (blocks h').number = (blocks h).number)
    (hparent : (blocks h').parentHash = (blocks h).parentHash) (hne : n ≠ (blocks h).number) :
    getHeaderByNumber blocks h' n = getHeaderByNumber blocks h n := by
  unfold getHeaderByNumber
  rw [hnumber]
  split
  · rfl
  rename_i hlt
  have hbe := UInt64.lt_of_le_of_ne (UInt64.not_lt.mp hlt) hne
  have hpos := Nat.lt_of_le_of_lt (Nat.zero_le _) (UInt64.lt_iff_toNat_lt.mp hbe)
  obtain ⟨k,hk⟩ := Nat.exists_eq_add_of_lt hpos
  rw [hk,walkBack,walkBack,hnumber,hparent,if_pos hbe,if_pos hbe]

end

/-! The chains of a consolidation, each with its optimistic block and a replacement of it. -/

structure OptimisticChains where
  ids : List ChainID
  block : ChainID → Hash
  replacement : ChainID → Hash
  nodup : ids.Nodup

namespace OptimisticChains
variable (w : OptimisticChains)

structure InPlace (blocks : Hash → Block) : Prop where
  number : ∀ c ∈ w.ids,(blocks (w.replacement c)).number = (blocks (w.block c)).number
  parentHash : ∀ c ∈ w.ids,(blocks (w.replacement c)).parentHash = (blocks (w.block c)).parentHash

open Classical in
noncomputable def chosen (R : Set ChainID) (c : ChainID) : Hash :=
  if c ∈ R then w.replacement c else w.block c

noncomputable def deps (linker : FullConfigSet) (R : Set ChainID) : CheckDeps :=
  ⟨(w.ids.map fun c => (c,w.chosen R c)).reverse,linker⟩

def head (blocks : Hash → Block) (c : ChainID) : Hazard := (c,blockSeal blocks (w.block c))

variable {w} {keccak256 : Bytes → Hash} {blocks : Hash → Block} {linker : FullConfigSet}
  {R S : Set ChainID} {c : ChainID} {n : UInt64}

theorem chosen_of_not_mem (h : c ∉ R) : w.chosen R c = w.block c := if_neg h

theorem chosen_of_mem (h : c ∈ R) : w.chosen R c = w.replacement c := if_pos h

theorem chosen_eq (hsub : R ⊆ S) (h : c ∈ S → c ∈ R) : w.chosen S c = w.chosen R c := by
  by_cases hc : c ∈ R
  · rw [chosen_of_mem hc,chosen_of_mem (hsub hc)]
  · rw [chosen_of_not_mem hc,chosen_of_not_mem fun hS => hc (h hS)]

theorem InPlace.chosen (h : w.InPlace blocks) (hc : c ∈ w.ids) (R : Set ChainID) :
    (blocks (w.chosen R c)).number = (blocks (w.block c)).number ∧
      (blocks (w.chosen R c)).parentHash = (blocks (w.block c)).parentHash := by
  by_cases hR : c ∈ R
  · rw [chosen_of_mem hR]
    exact ⟨h.number c hc,h.parentHash c hc⟩
  · rw [chosen_of_not_mem hR]
    exact ⟨rfl,rfl⟩

theorem mem_ids_of_lookup {h : Hash} (hlook : (w.deps linker R).canonBlocks.lookup c = some h) :
    c ∈ w.ids ∧ h = w.chosen R c := by
  have hmem := mem_of_lookup hlook
  obtain ⟨d,hd,heq⟩ := mem_map.mp (mem_reverse.mp hmem)
  cases heq
  exact ⟨hd,rfl⟩

theorem lookup_deps (hc : c ∈ w.ids) :
    (w.deps linker R).canonBlocks.lookup c = some (w.chosen R c) := by
  apply lookup_of_mem
  · change ((w.ids.map fun c => (c,w.chosen R c)).reverse.map Prod.fst).Nodup
    rw [List.map_reverse,List.nodup_reverse,List.map_map]
    exact (map_id w.ids).symm ▸ w.nodup
  · exact mem_reverse.mpr (mem_map_of_mem hc)

theorem canonBlockByNumber_eq (hc : c ∈ w.ids) : canonBlockByNumber blocks (w.deps linker R) n c
    = orFail .conflict (getHeaderByNumber blocks (w.chosen R c) n) := by
  unfold canonBlockByNumber
  simp [lookup_deps hc]

theorem canonBlockByNumber_mem {h : Hash}
    (hcanon : canonBlockByNumber blocks (w.deps linker R) n c = .ok h) : c ∈ w.ids := by
  obtain ⟨head,hhd,_⟩ := of_bind_ok hcanon
  exact (mem_ids_of_lookup (of_orFail_ok hhd)).1

theorem InPlace.canonBlockByNumber (hplace : w.InPlace blocks) {h : Hash}
    (hcanon : canonBlockByNumber blocks (w.deps linker R) n c = .ok h)
    (hsame : h = w.chosen R c → w.chosen S c = w.chosen R c) :
    canonBlockByNumber blocks (w.deps linker S) n c = .ok h := by
  have hc := canonBlockByNumber_mem hcanon
  rw [canonBlockByNumber_eq hc] at hcanon ⊢
  by_cases heq : w.chosen S c = w.chosen R c
  · rw [heq]
    exact hcanon
  obtain ⟨hnum,hpar⟩ := hplace.chosen hc R
  obtain ⟨hnum',hpar'⟩ := hplace.chosen hc S
  have hne : n ≠ (blocks (w.chosen R c)).number := by
    rintro rfl
    rw [getHeaderByNumber_self] at hcanon
    cases hcanon
    exact heq (hsame rfl)
  rw [getHeaderByNumber_replace (hnum'.trans hnum.symm) (hpar'.trans hpar.symm) hne]
  exact hcanon

theorem InPlace.contains (hplace : w.InPlace blocks) {query : ContainsQuery} {b : BlockSeal}
    (h : contains keccak256 blocks (w.deps linker R) c query = .ok b)
    (hsame : b.hash = w.chosen R c → w.chosen S c = w.chosen R c) :
    contains keccak256 blocks (w.deps linker S) c query = .ok b := by
  obtain ⟨hash,log,hcan,hrs⟩ := contains_ok_iff.mp h
  refine contains_ok_iff.mpr ⟨hash,log,hplace.canonBlockByNumber hcan ?_,hrs⟩
  intro heq
  rw [hrs.2.2.2] at hsame
  exact hsame heq

theorem InPlace.opens (hplace : w.InPlace blocks) {r : BlockID × ExecMessageCacheEntry}
    (h : opens blocks (w.deps linker R) c n = .ok r)
    (hsame : r.1.hash = w.chosen R c → w.chosen S c = w.chosen R c) :
    opens blocks (w.deps linker S) c n = .ok r := by
  obtain ⟨hash,hcan,hrs⟩ := of_bind_ok h
  obtain ⟨entry,_,hr⟩ := of_bind_ok hrs
  unfold Interop.opens
  rw [hplace.canonBlockByNumber hcan]
  · exact hrs
  · cases hr
    exact hsame

theorem opens_head (hc : c ∈ w.ids) (hR : c ∉ R) {entry : ExecMessageCacheEntry}
    (hread : receiptsToExecutingMessages (blocks (w.block c)).receipts = some entry) :
    opens blocks (w.deps linker R) c (w.head blocks c).2.number
      = .ok ((w.head blocks c).2.id,entry) := by
  unfold opens
  rw [canonBlockByNumber_eq hc,chosen_of_not_mem hR]
  change (orFail _ (getHeaderByNumber blocks (w.block c) (blocks (w.block c)).number) >>= _) = _
  rw [getHeaderByNumber_self]
  simp only [orFail_some,ok_bind,hread]
  rfl

end OptimisticChains

end OpStack.Interop
