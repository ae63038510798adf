import OpStack.Lib.Greedy
import OpStack.Proofs.ChosenBlocks
import OpStack.Proofs.ConsolidatedBlocks

namespace OpStack.Interop
open Lib Eth Rollup Relation List Option

namespace OptimisticChains
variable {w : OptimisticChains} {keccak256 : Bytes → Hash} {blocks : Hash → Block}
  {linker : FullConfigSet} {R S : Set ChainID} {c : ChainID} {t : UInt64}
  (executing initiating : ChainID)

/-- A log comes after another one: in its own block, or because it executes the message that the
other one initiates. -/
def OutsideEdge (w : OptimisticChains) (keccak256 : Bytes → Hash) (blocks : Hash → Block)
    (linker : FullConfigSet) (R : Set ChainID) (a b : LogNode) : Prop :=
  ∃ c ∈ w.ids,c ∉ R ∧ ∃ entry,
    receiptsToExecutingMessages (blocks (w.block c)).receipts = some entry ∧
    (SeqEdge c entry.logCount.toNat (a,b) ∨
      ∃ i m,(i,m) ∈ entry.execMsgs ∧ (a,b) = (initiatingNode m,(c,i)) ∧ m.chainID ∉ R ∧
        contains keccak256 blocks (w.deps linker R) m.chainID m.query
          = .ok (w.head blocks m.chainID).2)

/-- With the chains in `R` replaced, the others may execute their messages, find the logs they refer
to, and do not refer to each other in a circle. -/
structure Consistent (w : OptimisticChains) (keccak256 : Bytes → Hash) (blocks : Hash → Block)
    (linker : FullConfigSet) (R : Set ChainID) : Prop where
  messages : ∀ c ∈ w.ids,c ∉ R → BlockOk keccak256 blocks (w.deps linker R) (w.head blocks c)
  acyclic : ∀ a,¬ OnCycle (w.OutsideEdge keccak256 blocks linker R) a

def Fails (w : OptimisticChains) (keccak256 : Bytes → Hash) (blocks : Hash → Block)
    (linker : FullConfigSet) (R : Set ChainID) (c : ChainID) : Prop :=
  c ∈ w.ids ∧ ¬ Passes keccak256 blocks (w.deps linker R) (w.head blocks c)

/-- The blocks are of one time. A chain without a block of that time has an older one, which has
passed its check. -/
structure OneTime (w : OptimisticChains) (keccak256 : Bytes → Hash) (blocks : Hash → Block)
    (linker : FullConfigSet) (t : UInt64) : Prop where
  le : ∀ c ∈ w.ids,(blocks (w.block c)).time ≤ t
  older : ∀ c ∈ w.ids,(blocks (w.block c)).time ≠ t →
    Passes keccak256 blocks (w.deps linker ∅) (w.head blocks c)

theorem reached_seal {p : Hazard}
    (h : ReflTransGen (Needs keccak256 blocks (w.deps linker R)) (w.head blocks c) p) :
    p.2 = blockSeal blocks p.2.hash := by
  cases h with
  | refl => rfl
  | tail _ hst =>
    obtain ⟨_,_,_,_,_,_,_,hb⟩ := hst
    exact contains_seal hb

theorem eq_head {b : BlockSeal} (hseal : b = blockSeal blocks b.hash)
    (hhash : b.hash = w.chosen R c) (hR : c ∉ R) : (c,b) = w.head blocks c := by
  rw [hseal,hhash,chosen_of_not_mem hR]
  rfl

/-- A block keeps passing when the chains that are replaced in addition have a block of the latest
time that it does not depend on. -/
theorem passes_of_far (hplace : w.InPlace blocks) (hsub : R ⊆ S)
    (htime : ∀ x ∈ S,x ∈ w.ids → (blocks (w.block x)).time = t)
    (hle : (blocks (w.block c)).time ≤ t) (hfar : ∀ x ∈ S,x ∉ R →
      ¬ ReflTransGen (Needs keccak256 blocks (w.deps linker R)) (w.head blocks c) (w.head blocks x))
    (hpass : Passes keccak256 blocks (w.deps linker R) (w.head blocks c)) :
    Passes keccak256 blocks (w.deps linker S) (w.head blocks c) := by
  have huntouched : ∀ p : Hazard,
      ReflTransGen (Needs keccak256 blocks (w.deps linker R)) (w.head blocks c) p →
      p.2.hash = w.chosen R p.1 → w.chosen S p.1 = w.chosen R p.1 := by
    intro p hp hhs
    apply chosen_eq hsub
    intro hS
    by_contra hR
    exact hfar p.1 hS hR (eq_head (reached_seal hp) hhs hR ▸ hp)
  refine hpass.sameFrom ⟨rfl,?_,?_⟩
  · intro p hp r hop
    refine hplace.opens hop ?_
    obtain ⟨msgs,⟨n,hop'⟩,_⟩ := (hpass.of_reached hp).blockOk
    rw [hop] at hop'
    cases hop'
    exact huntouched p hp
  intro p hp msgs i m b hms hm hb
  refine hplace.contains hb ?_
  intro hhs
  apply chosen_eq hsub
  intro hS
  by_contra hR
  obtain ⟨msgs',hms',hok⟩ := (hpass.of_reached hp).blockOk
  rw [hms'.unique hms] at hok
  -- the message refers to a block of the latest time, so it is a message of that time
  have hlate : m.timestamp = t := by
    obtain ⟨hash,_,_,ht,_,_,heq⟩ := contains_ok_iff.mp hb
    have hids : m.chainID ∈ w.ids := by
      obtain ⟨_,_,hcan,_⟩ := contains_ok_iff.mp hb
      exact canonBlockByNumber_mem hcan
    rw [heq,chosen_of_not_mem hR] at hhs
    rw [← htime m.chainID hS hids,← hhs]
    exact ht.symm
  have hsm : m.timestamp = p.2.timestamp := by
    apply UInt64.le_antisymm (canExecute_le (hok i m hm).canExecute)
    rw [hlate,reflTransGen_timestamp hp]
    exact hle
  have hnds : Needs keccak256 blocks (w.deps linker R) p (m.chainID,b) :=
    ⟨msgs,i,m,hms,hm,hsm,rfl,hb⟩
  rw [eq_head (contains_seal hb) hhs hR] at hnds
  exact hfar m.chainID hS hR (hp.tail hnds)

/-! A circle among the blocks that are not replaced shows up in the check of one of them. -/

def Executes (w : OptimisticChains) (keccak256 : Bytes → Hash) (blocks : Hash → Block)
    (linker : FullConfigSet) (R : Set ChainID) (c : ChainID) (i : UInt32) (m : ExecutingMessage) :
    Prop :=
  c ∈ w.ids ∧ c ∉ R ∧ (∃ entry,(i,m) ∈ ExecMessageCacheEntry.execMsgs entry ∧
    receiptsToExecutingMessages (blocks (w.block c)).receipts = some entry) ∧
    contains keccak256 blocks (w.deps linker R) m.chainID m.query = .ok (w.head blocks m.chainID).2

theorem OutsideEdge.cases {a b : LogNode} (h : w.OutsideEdge keccak256 blocks linker R a b) :
    (a.1 = b.1 ∧ a.2 < b.2) ∨ ∃ c i m,w.Executes keccak256 blocks linker R c i m ∧
      (a,b) = (initiatingNode m,(c,i)) := by
  obtain ⟨c,hc,hR,entry,hrd,⟨i,hpos,hi,heq⟩ | ⟨i,m,hm,heq,_,hb⟩⟩ := h
  · left
    cases heq
    refine ⟨rfl,?_⟩
    have hlt := hi.trans (UInt32.toNat_lt _)
    rw [UInt32.lt_iff_toNat_lt,UInt32.toNat_ofNat',UInt32.toNat_ofNat',Nat.mod_eq_of_lt hlt]
    omega
  · exact .inr ⟨c,i,m,⟨hc,hR,⟨entry,hm,hrd⟩,hb⟩,heq⟩

theorem walk_cases {a b : LogNode} (h : TransGen (w.OutsideEdge keccak256 blocks linker R) a b) :
    (a.1 = b.1 ∧ a.2 < b.2) ∨ ∃ c i m,w.Executes keccak256 blocks linker R c i m ∧
      ReflTransGen (w.OutsideEdge keccak256 blocks linker R) a (initiatingNode m) ∧
      w.OutsideEdge keccak256 blocks linker R (initiatingNode m) (c,i) ∧
      ReflTransGen (w.OutsideEdge keccak256 blocks linker R) (c,i) b := by
  induction h with
  | single h =>
    rcases h.cases with hseq | ⟨c,i,m,hex,heq⟩
    · exact .inl hseq
    · cases heq
      exact .inr ⟨c,i,m,hex,.refl,h,.refl⟩
  | @tail x y hax hxy ih =>
    rcases ih with ⟨hch,hlt⟩ | ⟨c,i,m,hex,hto,hedge,hfm⟩
    · rcases hxy.cases with ⟨hch',hlt'⟩ | ⟨c,i,m,hex,heq⟩
      · exact .inl ⟨hch.trans hch',UInt32.lt_trans hlt hlt'⟩
      · cases heq
        exact .inr ⟨c,i,m,hex,hax.to_reflTransGen,hxy,.refl⟩
    · exact .inr ⟨c,i,m,hex,hto,hedge,hfm.tail hxy⟩

section
variable (hpass : ∀ c ∈ w.ids,c ∉ R → Passes keccak256 blocks (w.deps linker R) (w.head blocks c))
include hpass

theorem needs_of_message {i : UInt32} {m : ExecutingMessage}
    (h : w.Executes keccak256 blocks linker R c i m) :
    m.timestamp = (blocks (w.block m.chainID)).time ∧ m.timestamp ≤ (blocks (w.block c)).time ∧
      (m.timestamp = (blocks (w.block c)).time →
        Needs keccak256 blocks (w.deps linker R) (w.head blocks c) (w.head blocks m.chainID)) := by
  obtain ⟨hc,hR,⟨entry,hm,hrd⟩,hb⟩ := h
  obtain ⟨msgs,hms,hok⟩ := (hpass c hc hR).blockOk
  have hms' : Messages blocks (w.deps linker R) (w.head blocks c) entry.execMsgs :=
    ⟨entry.logCount,opens_head hc hR hrd⟩
  rw [hms.unique hms'] at hok
  refine ⟨?_,canExecute_le (hok i m hm).canExecute,?_⟩
  · obtain ⟨hash,_,_,ht,_,_,heq⟩ := contains_ok_iff.mp hb
    have hhs : w.block m.chainID = hash := congrArg BlockSeal.hash heq
    rw [hhs]
    exact ht.symm
  · intro ht
    exact ⟨_,i,m,hms',hm,ht,rfl,hb⟩

theorem OutsideEdge.time_le {a b : LogNode} (h : w.OutsideEdge keccak256 blocks linker R a b) :
    (blocks (w.block a.1)).time ≤ (blocks (w.block b.1)).time := by
  rcases h.cases with ⟨hch,_⟩ | ⟨c,i,m,hex,heq⟩
  · rw [hch]
    exact UInt64.le_refl _
  cases heq
  obtain ⟨ht,hle,_⟩ := needs_of_message hpass hex
  rw [ht] at hle
  exact hle

theorem reachable_time_le {a b : LogNode}
    (h : ReflTransGen (w.OutsideEdge keccak256 blocks linker R) a b) :
    (blocks (w.block a.1)).time ≤ (blocks (w.block b.1)).time := by
  induction h with
  | refl => exact UInt64.le_refl _
  | tail _ hst ih => exact UInt64.le_trans ih (OutsideEdge.time_le hpass hst)

theorem acyclic_of_passes (a : LogNode) :
    ¬ OnCycle (w.OutsideEdge keccak256 blocks linker R) a := by
  intro hcyc
  rcases walk_cases hcyc with ⟨_,hlt⟩ | ⟨c,i,m,hex,hto,hedge,hfm⟩
  · exact absurd hlt (UInt32.lt_irrefl _)
  have hback := hfm.trans hto
  obtain ⟨ht,hle,hnds⟩ := needs_of_message hpass hex
  have htm := UInt64.le_antisymm (reachable_time_le hpass hback) (ht ▸ hle)
  obtain ⟨entries,hall,hno⟩ := hpass c hex.1 hex.2.1
  -- every block on the circle is among the hazards of this one
  have hrd : ∀ z : LogNode,ReflTransGen (w.OutsideEdge keccak256 blocks linker R) (c,i) z →
      ReflTransGen (w.OutsideEdge keccak256 blocks linker R) z (initiatingNode m) →
      TransGen (Needs keccak256 blocks (w.deps linker R)) (w.head blocks c) (w.head blocks z.1) ∧
        (blocks (w.block z.1)).time = (blocks (w.block c)).time := by
    intro z hz hzm
    induction hzm using ReflTransGen.head_induction_on with
    | refl => exact ⟨.single (hnds (ht.trans htm.symm)),htm.symm⟩
    | @head z z' hzz' hz'm ih =>
      obtain ⟨hrch,htm'⟩ := ih (hz.tail hzz')
      have heq : (blocks (w.block z.1)).time = (blocks (w.block c)).time := by
        apply UInt64.le_antisymm
        · rw [← htm']
          exact OutsideEdge.time_le hpass hzz'
        · exact reachable_time_le hpass hz
      refine ⟨?_,heq⟩
      rcases hzz'.cases with ⟨hch,_⟩ | ⟨d,j,m',hex',hns⟩
      · rw [hch]
        exact hrch
      cases hns
      obtain ⟨ht',_,hnds'⟩ := needs_of_message hpass hex'
      exact hrch.tail (hnds' (ht'.trans (heq.trans htm'.symm)))
  have hcircle : OnCycle (w.OutsideEdge keccak256 blocks linker R) (c,i) := .tail' hback hedge
  refine hno (c,i) (hcircle.mono_on ?_)
  intro x y hx hxy hy
  have hym := hy.trans hback
  obtain ⟨hrch,-⟩ := hrd y (hx.tail hxy) hym
  obtain ⟨_,htimex⟩ := hrd x hx (hym.head hxy)
  obtain ⟨d,hd,hdR,entry',hread',hkind⟩ := hxy
  have hy1 : y.1 = d := by
    rcases hkind with ⟨_,_,_,hns⟩ | ⟨_,_,_,hns,_⟩
    · cases hns
      rfl
    · cases hns
      rfl
  subst hy1
  refine ⟨w.head blocks y.1,(hall.mem_iff _).mpr hrch,
    ⟨y.1,entry'.logCount,_⟩,⟨entry'.execMsgs,opens_head hd hdR hread',rfl,rfl⟩,?_⟩
  rcases hkind with hseq | ⟨j,m',hm',hns,_,hb'⟩
  · exact .inl hseq
  right
  refine ⟨j,m',mem_filter.mpr ⟨hm',?_⟩,hns⟩
  obtain ⟨ht',_⟩ := needs_of_message hpass ⟨hd,hdR,⟨entry',hm',hread'⟩,hb'⟩
  have hx1 := congrArg (fun e => e.1.1) hns
  rw [hx1] at htimex
  exact decide_eq_true (ht'.trans htimex)

end

theorem stable (hplace : w.InPlace blocks) (htime : w.OneTime keccak256 blocks linker t) :
    Stable (w.Fails keccak256 blocks linker) (w.Consistent keccak256 blocks linker)
      {c | c ∈ w.ids ∧ (blocks (w.block c)).time = t} where
  bounded := by
    intro R c hR hfl
    refine ⟨hfl.1,?_⟩
    by_contra hne
    refine hfl.2 (passes_of_far hplace (Set.empty_subset R) (fun x hx _ => (hR hx).2)
      (htime.le c hfl.1) ?_ (htime.older c hfl.1 hne))
    intro x hx _ hrch
    have hsm := reflTransGen_timestamp hrch
    exact hne (hsm.symm.trans (hR hx).2)
  stable := by
    intro R S c hsub hS hnew hc hpas hfl
    have hpass : Passes keccak256 blocks (w.deps linker R) (w.head blocks c) := by
      by_contra hnot
      exact hpas ⟨hfl.1,hnot⟩
    refine hfl.2 (passes_of_far hplace hsub (fun x hx _ => (hS hx).2) (htime.le c hfl.1) ?_
      hpass)
    intro x hx hxR hrch
    exact (hnew x hx hxR).2 (hpass.of_reached hrch)
  consistent := by
    intro R _ hall
    have hpass : ∀ c ∈ w.ids,c ∉ R →
        Passes keccak256 blocks (w.deps linker R) (w.head blocks c) := by
      intro c hc hR
      by_contra hnot
      exact hall c hR ⟨hc,hnot⟩
    exact ⟨fun c hc hR => (hpass c hc hR).blockOk,acyclic_of_passes hpass⟩

/-! The rounds of a consolidation replace the first block that fails, again and again. -/

section
variable {ChainConfig BuildError : Type}
  {runDerivation : Config → ChainConfig → DependencySet → ChainConfig → Hash → Hash → UInt64 →
    Except (CheckDepsError ⊕ BuildError) DerivationResult}

/-- The blocks of a consolidation: the pending ones, what the builder makes of them on the agreed
outputs, and the links that the dependency set gives. -/
structure ArisesFrom (w : OptimisticChains) (oracle : ConsolidateOracle)
    (build : DepositOnlyBuilder ChainConfig BuildError)
    (boot : BootInfo (crossPackages ChainConfig BuildError)) (state : TransitionState)
    (superRoot : SuperV1) (linker : FullConfigSet) : Prop where
  ids : superRoot.chains.map (·.chainID) = w.ids
  pending : state.pendingProgress.map (·.blockHash) = w.ids.map w.block
  builds : ∀ (i : Nat) chain optimistic,superRoot.chains[i]? = some chain →
    state.pendingProgress[i]? = some optimistic → ∃ outputRoot,
      Replaces oracle build boot chain optimistic ⟨w.replacement chain.chainID,outputRoot⟩
  links : ∀ first rest,superRoot.chains = first::rest → ∃ depSet,
    boot.configs.dependencySet first.chainID = some depSet ∧
      getFullConfig boot.configs.rollupConfig depSet = some linker
  inPlace : w.InPlace oracle.blocks

variable {oracle : ConsolidateOracle} {ranges : CheckDeps → BlockSeal → ChainID → MapRanges}
  {build : DepositOnlyBuilder ChainConfig BuildError}
  {boot : BootInfo (crossPackages ChainConfig BuildError)} {state : TransitionState}
  {superRoot : SuperV1} {s s' : ConsolidateState (crossPackages ChainConfig BuildError)}

def replacedSet (s : ConsolidateState (crossPackages ChainConfig BuildError)) : Set ChainID :=
  {c | c ∈ s.replacedChains}

theorem replacedSet_setReplaced (i : Nat) (c : ChainID) (outputRoot blockHash : Hash) :
    replacedSet (s.setReplaced i c outputRoot blockHash) = insert c (replacedSet s) := by
  ext x
  exact mem_cons

theorem replaces_unique {chain : ChainIDAndOutput} {optimistic final final' : OptimisticBlock}
    (h : Replaces oracle build boot chain optimistic final)
    (h' : Replaces oracle build boot chain optimistic final') : final = final' := by
  obtain ⟨cfg,l2Cfg,hcfg,hl2Cfg,hbu⟩ := h
  obtain ⟨cfg',l2Cfg',hcfg',hl2Cfg',hbu'⟩ := h'
  rw [hcfg] at hcfg'
  rw [hl2Cfg] at hl2Cfg'
  cases hcfg'
  cases hl2Cfg'
  rw [hbu] at hbu'
  obtain ⟨hash,root⟩ := final
  cases hbu'
  rfl

section
variable (hw : w.ArisesFrom oracle build boot state superRoot linker)
  (hkept : Kept oracle build boot state superRoot s) {i : Nat} {deps : CheckDeps}
include hw

theorem ArisesFrom.chain_at (hc : w.ids[i]? = some c) :
    ∃ chain,superRoot.chains[i]? = some chain ∧ chain.chainID = c := by
  rw [← hw.ids,getElem?_map,map_eq_some_iff] at hc
  exact hc

theorem ArisesFrom.optimistic_at (hc : w.ids[i]? = some c) :
    ∃ optimistic,state.pendingProgress[i]? = some optimistic ∧
      optimistic.blockHash = w.block c := by
  have hget : (state.pendingProgress.map (·.blockHash))[i]? = some (w.block c) := by
    simp [hw.pending,hc]
  rw [getElem?_map,map_eq_some_iff] at hget
  exact hget

include hkept

theorem ArisesFrom.pending_at (hc : w.ids[i]? = some c) :
    ∃ progress,s.pendingProgress[i]? = some progress ∧
      progress.blockHash = w.chosen (replacedSet s) c := by
  obtain ⟨chain,hch,rfl⟩ := hw.chain_at hc
  obtain ⟨optimistic,hopt,hbk⟩ := hw.optimistic_at hc
  by_cases hrep : chain.chainID ∈ s.replacedChains
  · obtain ⟨k,chain',optimistic',final,hch',hid,hopt',hfn,hbu⟩ := hkept.replaced _ hrep
    have hik : i = k := by
      have hlt := lt_of_getElem? hc
      apply (getElem?_inj hlt w.nodup).mp
      rw [hc,← hw.ids,getElem?_map,hch',map_some,hid]
    subst hik
    obtain ⟨outputRoot,hbu'⟩ := hw.builds i chain' optimistic' hch' hopt'
    refine ⟨final,hfn,?_⟩
    rw [replaces_unique hbu hbu',hid]
    exact (chosen_of_mem hrep).symm
  · refine ⟨optimistic,?_,?_⟩
    · rw [(hkept.kept i chain hch hrep).2,hopt]
    · rw [hbk]
      exact (chosen_of_not_mem hrep).symm

omit hw hkept in
theorem canonHeads_ok {chainConfig : ChainID → Option ChainConfig} {pending : List OptimisticBlock}
    {chains : List ChainIDAndOutput} {heads out : List (ChainID × Hash)}
    (h : canonHeads oracle chainConfig pending chains heads = .ok out) :
    out = (zipWith (fun c b => (c.chainID,b.blockHash)) chains pending).reverse ++ heads := by
  induction chains generalizing pending heads with
  | nil =>
    cases pending with
    | nil =>
      cases h
      rfl
    | cons b pending =>
      cases h
      rfl
  | cons chain chains ih =>
    cases pending with
    | nil => cases h
    | cons b pending =>
      unfold canonHeads at h
      split at h
      · cases h
      split at h
      · cases h
      simp [ih h]

theorem ArisesFrom.deps_eq (h : DepsOf oracle boot s deps) :
    deps = w.deps linker (replacedSet s) := by
  obtain ⟨first,rest,depSet,hchs,hdepSet,hnew⟩ := h
  obtain ⟨heads,hhds,hnew⟩ := of_bind_ok hnew
  obtain ⟨linker',hlinker,hnew⟩ := of_bind_ok hnew
  cases hnew
  have hids : s.chains.map (·.chainID) = w.ids := hkept.ids.trans hw.ids
  have hsm : linker' = linker := by
    obtain ⟨first',rest',hrt⟩ : ∃ first' rest',superRoot.chains = first'::rest' := by
      cases hrt : superRoot.chains with
      | nil =>
        have hnil := hkept.ids
        simp [ConsolidateState.ids,hchs,hrt] at hnil
      | cons first' rest' => exact ⟨first',rest',rfl⟩
    have hfst : first.chainID = first'.chainID := by
      have hcs := hkept.ids
      rw [ConsolidateState.ids,hchs,hrt] at hcs
      exact (cons.inj hcs).1
    obtain ⟨depSet',hdepSet',hfu⟩ := hw.links first' rest' hrt
    rw [hfst,hdepSet'] at hdepSet
    cases hdepSet
    have hfu' := of_orFail_ok hlinker
    rw [hfu] at hfu'
    exact (some.inj hfu').symm
  rw [canonHeads_ok hhds,append_nil]
  congr 2
  apply ext_getElem?
  intro i
  rw [getElem?_zipWith,getElem?_map]
  cases hc : w.ids[i]? with
  | none =>
    have hno : s.chains[i]? = none := by
      rw [← hids,getElem?_map,map_eq_none_iff] at hc
      exact hc
    simp [hno]
  | some c =>
    obtain ⟨progress,hprg,hhs⟩ := hw.pending_at hkept hc
    rw [← hids,getElem?_map,map_eq_some_iff] at hc
    obtain ⟨chain,hch,rfl⟩ := hc
    rw [hch,hprg,map_some,← hhs]

theorem ArisesFrom.blockPasses_iff (hdeps : DepsOf oracle boot s deps)
    {progress : OptimisticBlock} (hc : w.ids[i]? = some c) (hnot : c ∉ s.replacedChains)
    (hprogress : s.pendingProgress[i]? = some progress) :
    BlockPasses keccak256 oracle deps c progress.blockHash ↔
      ¬ w.Fails keccak256 oracle.blocks linker (replacedSet s) c := by
  obtain ⟨progress',hprogress',hhs⟩ := hw.pending_at hkept hc
  rw [hprogress] at hprogress'
  cases hprogress'
  rw [hw.deps_eq hkept hdeps,hhs,chosen_of_not_mem (R := replacedSet s) hnot]
  constructor
  · intro hpass hfl
    exact hfl.2 hpass
  intro hnot
  by_contra hpass
  exact hnot ⟨mem_of_getElem? hc,hpass⟩

theorem ArisesFrom.passUpTo (hdeps : DepsOf oracle boot s deps) {n : Nat}
    (hpass : PassUpTo keccak256 oracle deps s 0 s.chains n) (hc : w.ids.idxOf c < n)
    (hnot : c ∉ s.replacedChains) : ¬ w.Fails keccak256 oracle.blocks linker (replacedSet s) c := by
  intro hfl
  have hids : s.chains.map (·.chainID) = w.ids := hkept.ids.trans hw.ids
  have hget := getElem?_idxOf hfl.1
  have hget' := hget
  rw [← hids,getElem?_map,map_eq_some_iff,hids] at hget'
  obtain ⟨chain,hch,rfl⟩ := hget'
  obtain ⟨progress,hprg,hpas⟩ := hpass _ hc chain hch hnot
  rw [Nat.zero_add] at hprg
  exact (hw.blockPasses_iff hkept hdeps hget hnot hprg).mp hpas hfl

end

/-- The run of a consolidation, seen as a set that grows. -/
theorem ArisesFrom.greedy (hw : w.ArisesFrom oracle build boot state superRoot linker) {fuel : Nat}
    (hkept : Kept oracle build boot state superRoot s)
    (h : loop (consolidationRound (crossTasks runDerivation build)
      (crossChecks keccak256 oracle ranges) boot) fuel s = some (.ok s')) :
    Greedy (w.Fails keccak256 oracle.blocks linker) (fun c => w.ids.idxOf c) (replacedSet s)
      (replacedSet s') := by
  induction fuel generalizing s with
  | zero => cases h
  | succ fuel ih =>
    have hids : s.chains.map (·.chainID) = w.ids := hkept.ids.trans hw.ids
    unfold loop at h
    split at h
    · cases h
    · rename_i s₁ hrn
      cases h
      obtain ⟨deps,store,hdps,_,hpass,rfl⟩ := consolidationRound_passed hkept.sound hrn
      refine .done ?_
      intro c hc hfl
      refine hw.passUpTo hkept hdps hpass ?_ hc hfl
      have hlt := idxOf_lt_length_of_mem hfl.1
      rw [← hids,length_map] at hlt
      rw [← hids]
      exact hlt
    rename_i s₁ hrn
    obtain ⟨deps,store,j,chain,progress,final,hdps,hsd,hpass,hget,hnot,hprg,hfl,
      hbu,rfl⟩ := consolidationRound_replaced hkept.sound hrn
    have hc : w.ids[j]? = some chain.chainID := by simp [← hids,hget]
    have hpos : w.ids.idxOf chain.chainID = j := by
      obtain ⟨hlt,heq⟩ := List.getElem?_eq_some_iff.mp hc
      rw [← heq]
      exact w.nodup.idxOf_getElem j hlt
    have hrs := ih ((hkept.withStore hsd).setReplaced hget hnot hprg hbu) h
    rw [replacedSet_setReplaced] at hrs
    refine .step hnot ?_ ?_ hrs
    · by_contra hpas
      exact hfl ((hw.blockPasses_iff hkept hdps hc hnot hprg).mpr hpas)
    intro y hy hyR
    rw [hpos] at hy
    exact hw.passUpTo hkept hdps hpass hy hyR

/-- The chains that a consolidation replaces are the least set that leaves the others consistent,
iff every other chain passes its check with just those of the set replaced that come before it. -/
theorem replaces_least_iff (hw : w.ArisesFrom oracle build boot state superRoot linker)
    {t : UInt64} (htime : w.OneTime keccak256 oracle.blocks linker t)
    (h : consolidate (crossTasks runDerivation build) (crossChecks keccak256 oracle ranges) boot
      state superRoot = some (.ok s)) :
    IsLeast {R | w.Consistent keccak256 oracle.blocks linker R} {c | c ∈ s.replacedChains} ↔
      ∃ R₀,IsLeast {R | w.Consistent keccak256 oracle.blocks linker R} R₀ ∧
        ∀ c ∈ w.ids,c ∉ R₀ → Passes keccak256 oracle.blocks
          (w.deps linker {x | x ∈ R₀ ∧ w.ids.idxOf x < w.ids.idxOf c}) (w.head oracle.blocks c) := by
  have hrun : Greedy (w.Fails keccak256 oracle.blocks linker) (fun c => w.ids.idxOf c) ∅
      (replacedSet s) := by
    have hgreedy := hw.greedy Kept.initial h
    have hemp : replacedSet (newConsolidateState (crossChecks keccak256 oracle ranges) state
        superRoot : ConsolidateState (crossPackages ChainConfig BuildError)) = ∅ :=
      Set.eq_empty_of_forall_notMem fun c hc => absurd hc not_mem_nil
    rwa [hemp] at hgreedy
  have hpos : ∀ {Q Q' : Set ChainID} {x c : ChainID},w.Fails keccak256 oracle.blocks linker Q x →
      w.Fails keccak256 oracle.blocks linker Q' c → w.ids.idxOf x = w.ids.idxOf c → x = c :=
    fun hx _ heq => (idxOf_inj hx.1).mp heq
  refine (Greedy.least_iff (stable hw.inPlace htime) hpos hrun).trans ?_
  constructor
  · rintro ⟨R₀,hleast,hfst⟩
    refine ⟨R₀,hleast,?_⟩
    intro c hc hR₀
    by_contra hnot
    exact hfst c hR₀ ⟨hc,hnot⟩
  · rintro ⟨R₀,hleast,hfst⟩
    refine ⟨R₀,hleast,?_⟩
    intro c hR₀ hfl
    exact hfl.2 (hfst c hfl.1 hR₀)

end

/-! In the order of the chains lies the difference: a chain that executes a log of another one is
spared only when the other one has been replaced before. -/

def relayChains (executing : ChainID) : OptimisticChains where
  ids := [1,2]
  block c := if c = executing then .fill 32 1 else .fill 32 2
  replacement c := if c = executing then .fill 32 3 else .fill 32 4
  nodup := by decide

def relayLinker : FullConfigSet :=
  ⟨[(1,.ofRollupConfig relayConfig),(2,.ofRollupConfig relayConfig)],3600⟩

def relayRun (chains : List (ChainIDAndOutput × OptimisticBlock)) (initiating : ChainID) :
    Option (Except (InteropError (crossPackages Unit Unit))
      (ConsolidateState (crossPackages Unit Unit))) :=
  consolidate relayTasks (relayChecks initiating) relayBoot (relayState chains) (relaySuper chains)

theorem relayRun_replaces {chains : List (ChainIDAndOutput × OptimisticBlock)}
    {initiating : ChainID} {replaced : List ChainID}
    (h : ((relayRun chains initiating).bind Except.toOption).map (·.replacedChains)
      = some replaced) :
    ∃ s,relayRun chains initiating = some (.ok s) ∧ s.replacedChains = replaced := by
  obtain ⟨s,hs,hreplaced⟩ := map_eq_some_iff.mp h
  obtain ⟨r,hr,hs⟩ := bind_eq_some_iff.mp hs
  rw [eq_ok_of_toOption hs] at hr
  exact ⟨s,hr,hreplaced⟩

theorem relayChains_inPlace : (relayChains executing).InPlace (relayOracle initiating).blocks := by
  constructor
  · intro c _
    simp only [relayChains]
    split
    · rfl
    · rfl
  intro c _
  simp only [relayChains]
  split
  · rfl
  · rfl

theorem relayChains_oneTime :
    (relayChains executing).OneTime relayHash (relayOracle initiating).blocks relayLinker 12 := by
  have htm : ∀ c,((relayOracle initiating).blocks ((relayChains executing).block c)).time
      = 12 := by
    intro c
    simp only [relayChains]
    split
    · rfl
    · rfl
  constructor
  · intro c _
    rw [htm]
    exact UInt64.le_refl _
  · intro c _ hne
    exact absurd (htm c) hne

theorem relay_passes {executing initiating : ChainID}
    (h : (executing,initiating) = (1,2) ∨ (executing,initiating) = (2,1)) :
    Passes relayHash (relayOracle initiating).blocks
      ((relayChains executing).deps relayLinker {initiating})
      ((relayChains executing).head (relayOracle initiating).blocks executing) := by
  apply (@checkHazards_none_iff _ _ _ _ ⟨fun _ _ l => l,fun _ _ l => .refl l⟩ _).mp
  rcases h with h | h
  · cases h
    simp only [deps,chosen,Set.mem_singleton_iff]
    decide +kernel
  cases h
  simp only [deps,chosen,Set.mem_singleton_iff]
  decide +kernel

theorem relay_consistent {executing initiating : ChainID}
    (h : (executing,initiating) = (1,2) ∨ (executing,initiating) = (2,1)) :
    (relayChains executing).Consistent relayHash (relayOracle initiating).blocks relayLinker
      {initiating} := by
  have hmem : initiating ∈ (relayChains executing).ids := by
    rcases h with h | h
    · cases h
      decide
    · cases h
      decide
  refine (stable (relayChains_inPlace executing initiating)
    (relayChains_oneTime executing initiating)).consistent ?_ ?_
  · intro c hc
    rw [Set.mem_singleton_iff.mp hc]
    refine ⟨hmem,?_⟩
    simp only [relayChains]
    split
    · rfl
    · rfl
  intro c hc hfl
  have heq : c = executing := by
    have hids : c ∈ [1,2] := hfl.1
    simp only [mem_cons,not_mem_nil,or_false] at hids
    rcases h with h | h
    · cases h
      exact hids.resolve_right hc
    · cases h
      exact hids.resolve_left hc
  rw [heq] at hfl
  exact hfl.2 (relay_passes h)

/-- The chain with the invalid message comes first: only it is replaced, as it has to be. -/
theorem initiating_first_least :
    ∃ s,relayRun [relayInitiating 1,relayExecuting 2] 1 = some (.ok s) ∧
      IsLeast {R | (relayChains 2).Consistent relayHash (relayOracle 1).blocks relayLinker R}
        {c | c ∈ s.replacedChains} := by
  obtain ⟨s,hs,_⟩ := @relayRun_replaces [relayInitiating 1,relayExecuting 2] 1 [1]
    (by decide +kernel)
  have hw : (relayChains 2).ArisesFrom (relayOracle 1) relayBuild relayBoot
      (relayState [relayInitiating 1,relayExecuting 2])
      (relaySuper [relayInitiating 1,relayExecuting 2]) relayLinker := by
    refine ⟨rfl,rfl,?_,?_,relayChains_inPlace 2 1⟩
    · intro i chain optimistic hch hopt
      match i,hch,hopt with
      | 0,rfl,rfl => exact ⟨_,relayConfig,(),rfl,rfl,rfl⟩
      | 1,rfl,rfl => exact ⟨_,relayConfig,(),rfl,rfl,rfl⟩
    · intro first rest hchs
      exact ⟨⟨[1,2],3600⟩,rfl,rfl⟩
  have hleast : IsLeast {R | (relayChains 2).Consistent relayHash (relayOracle 1).blocks
      relayLinker R} {1} := by
    refine ⟨relay_consistent (.inr rfl),?_⟩
    intro R hR c hc
    rw [Set.mem_singleton_iff.mp hc]
    by_contra hnot
    obtain ⟨msgs,hms,hok⟩ := hR.messages 1 (by decide) hnot
    have hrd : receiptsToExecutingMessages ((relayOracle 1).blocks
        ((relayChains 2).block 1)).receipts = some ⟨[(1,relayed 9)],2⟩ := rfl
    have hms' : Messages (relayOracle 1).blocks ((relayChains 2).deps relayLinker R)
        ((relayChains 2).head (relayOracle 1).blocks 1) [(1,relayed 9)] :=
      ⟨2,opens_head (by decide) hnot hrd⟩
    rw [hms.unique hms'] at hok
    have hcan := (hok 1 (relayed 9) mem_cons_self).canExecute
    have hcannot : relayLinker.canExecute 1 12 9 12 = false := by decide +kernel
    exact absurd (hcannot.symm.trans hcan) (by decide)
  refine ⟨s,hs,(replaces_least_iff hw (relayChains_oneTime 2 1) hs).mpr ⟨{1},hleast,?_⟩⟩
  intro c hc hnot
  have heq : c = 2 := by
    have hids : c ∈ [1,2] := hc
    simp only [mem_cons,not_mem_nil,or_false] at hids
    exact hids.resolve_left hnot
  have hset : {x : ChainID | x ∈ ({1} : Set ChainID) ∧
      (relayChains 2).ids.idxOf x < (relayChains 2).ids.idxOf c} = {1} := by
    ext x
    rw [heq]
    constructor
    · intro hx
      exact hx.1
    intro hx
    refine ⟨hx,?_⟩
    rw [Set.mem_singleton_iff.mp hx]
    decide
  rw [hset,heq]
  exact relay_passes (.inr rfl)

/-- The executing chain comes first: it is replaced as well, although the log is there in the
replacement of the other one, which only lacks the invalid message. -/
theorem executing_first_replaced : (∀ c ∈ (relayChains 1).ids,
      ((relayOracle 2).blocks ((relayChains 1).replacement c)).receipts.flatten
        <+: ((relayOracle 2).blocks ((relayChains 1).block c)).receipts.flatten) ∧
    ∃ s,relayRun [relayExecuting 1,relayInitiating 2] 2 = some (.ok s) ∧
      ¬ IsLeast {R | (relayChains 1).Consistent relayHash (relayOracle 2).blocks relayLinker R}
        {c | c ∈ s.replacedChains} := by
  refine ⟨?_,?_⟩
  · intro c _
    simp only [relayChains]
    split
    · exact nil_prefix
    · exact ⟨[_],rfl⟩
  have hrun : ((relayRun [relayExecuting 1,relayInitiating 2] 2).bind Except.toOption).map
      (·.replacedChains) = some [2,1] := by decide +kernel
  obtain ⟨s,hs⟩ := relayRun_replaces hrun
  refine ⟨s,hs.1,?_⟩
  intro hleast
  have hmem : (1 : ChainID) ∈ ({2} : Set ChainID) := by
    apply hleast.2 (relay_consistent (.inl rfl))
    rw [hs.2]
    decide
  exact absurd (Set.mem_singleton_iff.mp hmem) (by decide)

end OptimisticChains

end OpStack.Interop
