import OpStack.Proofs.Config
import OpStack.Proofs.Consolidation
import OpStack.Proofs.HazardCycle

namespace OpStack.Interop
open Lib Eth Rollup List

section
variable {ChainConfig BuildError : Type}
  {runDerivation : Config → ChainConfig → DependencySet → ChainConfig → Hash → Hash → UInt64 →
    Except (CheckDepsError ⊕ BuildError) DerivationResult}

def Replaces (oracle : ConsolidateOracle) (build : DepositOnlyBuilder ChainConfig BuildError)
    (boot : BootInfo (crossPackages ChainConfig BuildError)) (chain : ChainIDAndOutput)
    (optimistic final : OptimisticBlock) : Prop :=
  ∃ rollupCfg l2Cfg,boot.configs.rollupConfig chain.chainID = some rollupCfg ∧
    boot.configs.chainConfig chain.chainID = some l2Cfg ∧
    build rollupCfg l2Cfg boot.l1Head chain.output (oracle.blocks optimistic.blockHash)
      = .ok (final.blockHash,final.outputRoot)

variable {keccak256 : Bytes → Hash} {oracle : ConsolidateOracle}
  {ranges : CheckDeps → BlockSeal → ChainID → MapRanges}
  {build : DepositOnlyBuilder ChainConfig BuildError}
  {boot : BootInfo (crossPackages ChainConfig BuildError)}

variable {store : ExecMessageCache}

theorem buildDepositOnlyBlock_ok {chain : ChainIDAndOutput} {optimistic : OptimisticBlock}
    {store' : ExecMessageCache} {r : Hash × Hash}
    (h : buildDepositOnlyBlock (crossTasks runDerivation build) boot chain
      (oracle.blocks optimistic.blockHash) store = (store',.ok r)) :
    store' = store ∧ Replaces oracle build boot chain optimistic ⟨r.1,r.2⟩ := by
  unfold buildDepositOnlyBlock at h
  split at h
  · cases h
  rename_i rollupCfg hrollup
  split at h
  · cases h
  rename_i l2Cfg hl2
  simp only [Prod.mk.injEq] at h
  obtain ⟨hstore,hres⟩ := h
  exact ⟨hstore.symm,rollupCfg,l2Cfg,hrollup,hl2,of_mapError_ok (of_mapError_ok hres)⟩

def BlockPasses (keccak256 : Bytes → Hash) (oracle : ConsolidateOracle) (deps : CheckDeps)
    (chainID : ChainID) (h : Hash) : Prop :=
  Passes keccak256 oracle.blocks deps (chainID,blockSeal oracle.blocks h)

/-- The chains from `i` on, up to but not including chain `i + n`, pass or have been replaced. -/
def PassUpTo (keccak256 : Bytes → Hash) (oracle : ConsolidateOracle) (deps : CheckDeps)
    (s : ConsolidateState (crossPackages ChainConfig BuildError)) (i : Nat)
    (rest : List ChainIDAndOutput) (n : Nat) : Prop :=
  ∀ j < n,∀ chain,rest[j]? = some chain → chain.chainID ∉ s.replacedChains →
    ∃ progress,s.pendingProgress[i + j]? = some progress ∧
      BlockPasses keccak256 oracle deps chain.chainID progress.blockHash

inductive RoundEnd (keccak256 : Bytes → Hash) (oracle : ConsolidateOracle)
    (build : DepositOnlyBuilder ChainConfig BuildError)
    (boot : BootInfo (crossPackages ChainConfig BuildError)) (deps : CheckDeps)
    (s : ConsolidateState (crossPackages ChainConfig BuildError)) (i : Nat)
    (rest : List ChainIDAndOutput) : ConsolidateState (crossPackages ChainConfig BuildError) ×
      Except (InteropError (crossPackages ChainConfig BuildError)) Unit → Prop where
  | passed (store : ExecMessageCache) :
      CacheSound oracle.blocks store →
      PassUpTo keccak256 oracle deps s i rest rest.length →
      RoundEnd keccak256 oracle build boot deps s i rest ({ s with store },.ok ())
  | replaced (store : ExecMessageCache) (j : Nat) (chain : ChainIDAndOutput)
      (progress final : OptimisticBlock) :
      CacheSound oracle.blocks store →
      PassUpTo keccak256 oracle deps s i rest j →
      rest[j]? = some chain →
      chain.chainID ∉ s.replacedChains →
      s.pendingProgress[i + j]? = some progress →
      ¬ BlockPasses keccak256 oracle deps chain.chainID progress.blockHash →
      Replaces oracle build boot chain progress final →
      RoundEnd keccak256 oracle build boot deps s i rest
        (({ s with store } : ConsolidateState _).setReplaced (i + j) chain.chainID
          final.outputRoot final.blockHash,.error .invalidBlockReplacement)
  | stopped (s' : ConsolidateState (crossPackages ChainConfig BuildError))
      (e : InteropError (crossPackages ChainConfig BuildError)) :
      e ≠ .invalidBlockReplacement →
      RoundEnd keccak256 oracle build boot deps s i rest (s',.error e)

section
variable {deps : CheckDeps} {s : ConsolidateState (crossPackages ChainConfig BuildError)} {i : Nat}
  {chain : ChainIDAndOutput} {rest : List ChainIDAndOutput}

section
variable (hfirst : chain.chainID ∉ s.replacedChains →
  ∃ progress,s.pendingProgress[i]? = some progress ∧
    BlockPasses keccak256 oracle deps chain.chainID progress.blockHash)
include hfirst

theorem PassUpTo.cons {n : Nat} (h : PassUpTo keccak256 oracle deps s (i + 1) rest n) :
    PassUpTo keccak256 oracle deps s i (chain::rest) (n + 1) := by
  intro j hj c hc hnot
  cases j with
  | zero =>
    cases hc
    exact hfirst hnot
  | succ j =>
    obtain ⟨progress,hget,hps⟩ := h j (Nat.lt_of_succ_lt_succ hj) c hc hnot
    refine ⟨progress,?_,hps⟩
    rw [← hget]
    congr 1
    omega

theorem RoundEnd.cons {out : ConsolidateState (crossPackages ChainConfig BuildError) ×
      Except (InteropError (crossPackages ChainConfig BuildError)) Unit}
    (h : RoundEnd keccak256 oracle build boot deps { s with store } (i + 1) rest out) :
    RoundEnd keccak256 oracle build boot deps s i (chain::rest) out := by
  cases h with
  | passed store' hsound hps => exact .passed store' hsound (PassUpTo.cons hfirst hps)
  | replaced store' j c progress final hsound hps hget hnot hprg hfl hbu =>
    have hidx : i + 1 + j = i + (j + 1) := by omega
    rw [hidx] at hprg ⊢
    exact .replaced store' (j + 1) c progress final hsound (PassUpTo.cons hfirst hps) hget hnot
      hprg hfl hbu
  | stopped s' e he => exact .stopped s' e he

end

theorem checkChains_ends (hsound : CacheSound oracle.blocks s.store) :
    RoundEnd keccak256 oracle build boot deps s i rest
      (checkChains (crossTasks runDerivation build) (crossChecks keccak256 oracle ranges) boot deps
        s i rest) := by
  induction rest generalizing s i with
  | nil =>
    refine .passed s.store hsound ?_
    intro j hj
    exact absurd hj (Nat.not_lt_zero j)
  | cons chain rest ih =>
    unfold checkChains
    split
    · rename_i hmem
      exact RoundEnd.cons (fun hnot => absurd hmem hnot) (ih (s := { s with store := s.store }) hsound)
    rename_i hnot
    split
    · exact .stopped s _ (by simp)
    rename_i progress hprg
    obtain ⟨store,r,hck,hsound',hr⟩ := @checkHazards_eq keccak256 oracle.blocks deps s.store
      chain.chainID (ranges deps (blockSeal oracle.blocks progress.blockHash) chain.chainID)
      (blockSeal oracle.blocks progress.blockHash) hsound
    unfold blockSeal at hck
    simp only [crossChecks,hck]
    cases r with
    | none =>
      exact RoundEnd.cons (fun _ => ⟨progress,hprg,hr.mp rfl⟩)
        (ih (s := { s with store }) hsound')
    | some e =>
      have hfl : ¬ BlockPasses keccak256 oracle deps chain.chainID progress.blockHash := by
        intro hps
        have hno := hr.mpr hps
        cases hno
      simp only
      split
      · split
        · rename_i hbu
          exact .stopped _ _ (buildDepositOnlyBlock_error hbu)
        rename_i store' blockHash outputRoot hbu
        obtain ⟨rfl,hbuilt⟩ := buildDepositOnlyBlock_ok hbu
        refine .replaced store' 0 chain progress ⟨blockHash,outputRoot⟩ hsound' ?_ rfl hnot
          hprg hfl hbuilt
        intro j hj
        exact absurd hj (Nat.not_lt_zero j)
      · exact .stopped _ _ (by simp)

end

def DepsOf (oracle : ConsolidateOracle) (boot : BootInfo (crossPackages ChainConfig BuildError))
    (s : ConsolidateState (crossPackages ChainConfig BuildError)) (deps : CheckDeps) : Prop :=
  ∃ first rest depSet,s.chains = first::rest ∧
    boot.configs.dependencySet first.chainID = some depSet ∧
    newConsolidateCheckDeps oracle depSet boot.configs s.pendingProgress s.chains = .ok deps

section
variable {s s' : ConsolidateState (crossPackages ChainConfig BuildError)}

variable (hsound : CacheSound oracle.blocks s.store)
include hsound

theorem singleRoundConsolidation_ends :
    (∃ deps,DepsOf oracle boot s deps ∧ RoundEnd keccak256 oracle build boot deps s 0 s.chains
        (singleRoundConsolidation (crossTasks runDerivation build)
          (crossChecks keccak256 oracle ranges) boot s)) ∨
    ∃ e,e ≠ .invalidBlockReplacement ∧ singleRoundConsolidation (crossTasks runDerivation build)
        (crossChecks keccak256 oracle ranges) boot s = (s,.error e) := by
  unfold singleRoundConsolidation
  split
  · exact .inr ⟨_,by simp,rfl⟩
  rename_i first rest hchs
  split
  · exact .inr ⟨_,by simp,rfl⟩
  rename_i depSet hdepSet
  split
  · exact .inr ⟨_,by simp,rfl⟩
  rename_i deps hdps
  exact .inl ⟨deps,⟨first,rest,depSet,hchs,hdepSet,of_mapError_ok hdps⟩,checkChains_ends hsound⟩

theorem consolidationRound_passed
    (h : consolidationRound (crossTasks runDerivation build) (crossChecks keccak256 oracle ranges)
      boot s = .ok (.inr s')) :
    ∃ deps store,DepsOf oracle boot s deps ∧ CacheSound oracle.blocks store ∧
      PassUpTo keccak256 oracle deps s 0 s.chains s.chains.length ∧ s' = { s with store } := by
  unfold consolidationRound at h
  split at h
  · rename_i s₁ hrn
    cases h
    rcases singleRoundConsolidation_ends hsound with ⟨deps,hdps,hend⟩ | ⟨e,_,heq⟩
    · rw [hrn] at hend
      cases hend with
      | passed store hstore hps => exact ⟨deps,store,hdps,hstore,hps,rfl⟩
    · simp [hrn] at heq
  · cases h
  · cases h

theorem consolidationRound_replaced
    (h : consolidationRound (crossTasks runDerivation build) (crossChecks keccak256 oracle ranges)
      boot s = .ok (.inl s')) :
    ∃ deps store j chain progress final,DepsOf oracle boot s deps ∧
      CacheSound oracle.blocks store ∧ PassUpTo keccak256 oracle deps s 0 s.chains j ∧
      s.chains[j]? = some chain ∧ chain.chainID ∉ s.replacedChains ∧
      s.pendingProgress[j]? = some progress ∧
      ¬ BlockPasses keccak256 oracle deps chain.chainID progress.blockHash ∧
      Replaces oracle build boot chain progress final ∧
      s' = ({ s with store } : ConsolidateState _).setReplaced j chain.chainID final.outputRoot
        final.blockHash := by
  unfold consolidationRound at h
  split at h
  · cases h
  · rename_i s₁ hrn
    cases h
    rcases singleRoundConsolidation_ends hsound with ⟨deps,hdps,hend⟩ | ⟨e,hne,heq⟩
    · rw [hrn] at hend
      cases hend with
      | replaced store j chain progress final hstore hps hget hnot hprg hfl hbu =>
        rw [Nat.zero_add] at hprg ⊢
        exact ⟨deps,store,j,chain,progress,final,hdps,hstore,hps,hget,hnot,hprg,hfl,hbu,rfl⟩
      | stopped _ _ hne => exact absurd rfl hne
    · rw [hrn] at heq
      cases heq
      exact absurd rfl hne
  · cases h

end

/-! The invariant of the rounds. -/

/-- A chain of the super root that is not replaced still has its output and its block, and the
others have a block that was built from these. -/
structure Kept (oracle : ConsolidateOracle) (build : DepositOnlyBuilder ChainConfig BuildError)
    (boot : BootInfo (crossPackages ChainConfig BuildError)) (state : TransitionState)
    (superRoot : SuperV1) (s : ConsolidateState (crossPackages ChainConfig BuildError)) : Prop where
  sound : CacheSound oracle.blocks s.store
  ids : s.ids = superRoot.chains.map (·.chainID)
  kept : ∀ (i : Nat) (chain : ChainIDAndOutput),superRoot.chains[i]? = some chain →
    chain.chainID ∉ s.replacedChains →
    s.chains[i]? = some chain ∧ s.pendingProgress[i]? = state.pendingProgress[i]?
  blocks : ∀ (i : Nat) (chain : ChainIDAndOutput) final,superRoot.chains[i]? = some chain →
    s.pendingProgress[i]? = some final → ∃ optimistic,state.pendingProgress[i]? = some optimistic ∧
      (final = optimistic ∨ Replaces oracle build boot chain optimistic final)
  replaced : ∀ c ∈ s.replacedChains,∃ (i : Nat) (chain : ChainIDAndOutput) (optimistic final : _),
    superRoot.chains[i]? = some chain ∧ chain.chainID = c ∧
    state.pendingProgress[i]? = some optimistic ∧ s.pendingProgress[i]? = some final ∧
    Replaces oracle build boot chain optimistic final

variable {state : TransitionState} {superRoot : SuperV1}
  {s s' : ConsolidateState (crossPackages ChainConfig BuildError)} {j : Nat}
  {chain : ChainIDAndOutput}

theorem Kept.initial : Kept oracle build boot state superRoot
    (newConsolidateState (crossChecks keccak256 oracle ranges) state superRoot) where
  sound := fun _ _ h => nomatch h
  ids := rfl
  kept := fun _ _ h _ => ⟨h,rfl⟩
  blocks := fun _ _ final _ hfinal => ⟨final,hfinal,.inl rfl⟩
  replaced := fun _ h => absurd h not_mem_nil

section
variable (h : Kept oracle build boot state superRoot s)
include h

theorem Kept.withStore (hsound : CacheSound oracle.blocks store) :
    Kept oracle build boot state superRoot { s with store } :=
  ⟨hsound,h.ids,h.kept,h.blocks,h.replaced⟩

theorem Kept.chain_eq (hget : s.chains[j]? = some chain)
    (hnot : chain.chainID ∉ s.replacedChains) : superRoot.chains[j]? = some chain := by
  have hid : (superRoot.chains.map (·.chainID))[j]? = some chain.chainID := by
    simp [← h.ids,ConsolidateState.ids,hget]
  rw [getElem?_map,Option.map_eq_some_iff] at hid
  obtain ⟨chain₀,hget₀,hid⟩ := hid
  rw [← hid] at hnot
  have hsm := (h.kept j chain₀ hget₀ hnot).1
  rw [hget] at hsm
  rw [hget₀,← hsm]

theorem Kept.setReplaced {progress final : OptimisticBlock}
    (hget : s.chains[j]? = some chain) (hnot : chain.chainID ∉ s.replacedChains)
    (hprogress : s.pendingProgress[j]? = some progress)
    (hbuilt : Replaces oracle build boot chain progress final) :
    Kept oracle build boot state superRoot
      (s.setReplaced j chain.chainID final.outputRoot final.blockHash) := by
  have hch := h.chain_eq hget hnot
  have hoptimistic : state.pendingProgress[j]? = some progress := by
    rw [← (h.kept j chain hch hnot).2,hprogress]
  have hat : (s.pendingProgress.set j final)[j]? = some final := by
    rw [List.getElem?_set_self (lt_of_getElem? hprogress)]
  refine ⟨h.sound,?_,?_,?_,?_⟩
  · rw [ConsolidateState.ids_setReplaced]
    exact h.ids
  · intro i c hc hnew
    have hne := ne_of_not_mem_cons hnew
    have hold := not_mem_of_not_mem_cons hnew
    have hij : j ≠ i := by
      rintro rfl
      rw [hch] at hc
      cases hc
      exact hne rfl
    obtain ⟨hchs,hpen⟩ := h.kept i c hc hold
    constructor
    · change (s.chains.modify j _)[i]? = _
      rw [getElem?_modify,hchs]
      simp [hij]
    · change (s.pendingProgress.set j _)[i]? = _
      rw [getElem?_set_ne hij,hpen]
  · intro i c new hc hnew
    change (s.pendingProgress.set j final)[i]? = _ at hnew
    by_cases hij : j = i
    · subst hij
      rw [hat] at hnew
      rw [hch] at hc
      cases hnew
      cases hc
      exact ⟨progress,hoptimistic,.inr hbuilt⟩
    · rw [getElem?_set_ne hij] at hnew
      exact h.blocks i c new hc hnew
  · intro c hc
    rcases mem_cons.mp hc with rfl | hc
    · exact ⟨j,chain,progress,final,hch,rfl,hoptimistic,hat,hbuilt⟩
    obtain ⟨i,chain',optimistic,new,hch',hid,hopt,hnew,hrep⟩ := h.replaced c hc
    have hij : j ≠ i := by
      rintro rfl
      rw [hch] at hch'
      cases hch'
      exact hnot (hid ▸ hc)
    refine ⟨i,chain',optimistic,new,hch',hid,hopt,?_,hrep⟩
    change (s.pendingProgress.set j _)[i]? = _
    rw [getElem?_set_ne hij,hnew]

end

def Settled (keccak256 : Bytes → Hash) (oracle : ConsolidateOracle)
    (boot : BootInfo (crossPackages ChainConfig BuildError))
    (s : ConsolidateState (crossPackages ChainConfig BuildError)) : Prop :=
  ∃ deps,DepsOf oracle boot s deps ∧ PassUpTo keccak256 oracle deps s 0 s.chains s.chains.length

theorem consolidationRound_keeps (h : Kept oracle build boot state superRoot s) :
    Ends (Keeps (Kept oracle build boot state superRoot)
        (fun s => Kept oracle build boot state superRoot s ∧ Settled keccak256 oracle boot s))
      (fun _ => True)
      (consolidationRound (crossTasks runDerivation build) (crossChecks keccak256 oracle ranges)
        boot s) := by
  apply Ends.of_forall
  intro out hout
  cases out with
  | inl s' =>
    obtain ⟨deps,store,j,chain,progress,final,_,hsound,_,hget,hnot,hprg,_,hbu,rfl⟩ :=
      consolidationRound_replaced h.sound hout
    exact (h.withStore hsound).setReplaced hget hnot hprg hbu
  | inr s' =>
    obtain ⟨deps,store,hdps,hsound,hps,rfl⟩ := consolidationRound_passed h.sound hout
    exact ⟨h.withStore hsound,deps,hdps,hps⟩

theorem consolidate_settles
    (h : consolidate (crossTasks runDerivation build) (crossChecks keccak256 oracle ranges) boot
      state superRoot = some (.ok s)) :
    Kept oracle build boot state superRoot s ∧ Settled keccak256 oracle boot s :=
  loop_keeps (fun _ => consolidationRound_keeps) Kept.initial h

/-- What a chain ends with: its own block, which passes the check, or the replacement that was built
on its agreed output. -/
structure Consolidated (keccak256 : Bytes → Hash) (oracle : ConsolidateOracle)
    (build : DepositOnlyBuilder ChainConfig BuildError)
    (boot : BootInfo (crossPackages ChainConfig BuildError)) (replaced : List ChainID)
    (deps : CheckDeps) (chain : ChainIDAndOutput) (optimistic final : OptimisticBlock) : Prop where
  origin : final = optimistic ∨ Replaces oracle build boot chain optimistic final
  kept : chain.chainID ∉ replaced → final = optimistic
  passes : chain.chainID ∉ replaced → ∀ ranges,
    (checkHazards oracle.blocks deps ranges keccak256 (blockSeal oracle.blocks final.blockHash)
      chain.chainID fun _ => none).2 = none

/-- A consolidation of `n` chains ends within `n + 1` rounds. A super root that it returns is that
of the next timestamp, the same chains and their blocks of the end. -/
theorem consolidation_consistent (keccak256 : Bytes → Hash) (oracle : ConsolidateOracle)
    (ranges : CheckDeps → BlockSeal → ChainID → MapRanges)
    (runDerivation : Config → ChainConfig → DependencySet → ChainConfig → Hash → Hash → UInt64 →
      Except (CheckDepsError ⊕ BuildError) DerivationResult)
    (build : DepositOnlyBuilder ChainConfig BuildError)
    (boot : BootInfo (crossPackages ChainConfig BuildError)) (state : TransitionState)
    (superRoot : SuperV1) :
    (consolidate (crossTasks runDerivation build) (crossChecks keccak256 oracle ranges) boot state
      superRoot).isSome = true ∧
    ∀ root,runConsolidation (crossTasks runDerivation build) (crossChecks keccak256 oracle ranges)
        boot keccak256 state superRoot = .ok root →
      ∃ s deps out,
        consolidate (crossTasks runDerivation build) (crossChecks keccak256 oracle ranges) boot
          state superRoot = some (.ok s) ∧
        DepsOf oracle boot s deps ∧
        root = SuperV1.root keccak256 ⟨superRoot.timestamp + 1,out⟩ ∧
        out.map (·.chainID) = superRoot.chains.map (·.chainID) ∧
        (∀ (i : Nat) chain,superRoot.chains[i]? = some chain → ∃ optimistic final,
          state.pendingProgress[i]? = some optimistic ∧ s.pendingProgress[i]? = some final ∧
          out[i]? = some ⟨chain.chainID,final.outputRoot⟩ ∧
          Consolidated keccak256 oracle build boot s.replacedChains deps chain optimistic final) ∧
        ∀ c ∈ s.replacedChains,∃ (i : Nat) (chain : ChainIDAndOutput) (optimistic final : _),
          superRoot.chains[i]? = some chain ∧ chain.chainID = c ∧
          state.pendingProgress[i]? = some optimistic ∧ s.pendingProgress[i]? = some final ∧
          Replaces oracle build boot chain optimistic final := by
  refine ⟨consolidate_returns state superRoot,?_⟩
  intro root hrt
  obtain ⟨s,out,hrun,hout,hrt⟩ := runConsolidation_ok hrt
  obtain ⟨hkp,deps,hdps,hps⟩ := consolidate_settles hrun
  obtain ⟨hids,hall⟩ := consolidatedChains_ok hout
  refine ⟨s,deps,out,hrun,hdps,hrt,hids.trans hkp.ids,?_,hkp.replaced⟩
  intro i chain hch
  -- the chain at the index may have another output by now, but not another id
  have hid : (s.chains.map (·.chainID))[i]? = some chain.chainID := by
    simp [show s.chains.map (·.chainID) = _ from hkp.ids,hch]
  rw [getElem?_map,Option.map_eq_some_iff] at hid
  obtain ⟨chain',hch',hid⟩ := hid
  obtain ⟨final,hfn,houti⟩ := hall i chain' hch'
  rw [hid] at houti
  obtain ⟨optimistic,hopt,hor⟩ := hkp.blocks i chain final hch hfn
  refine ⟨optimistic,final,hopt,hfn,houti,hor,?_,?_⟩
  · intro hnot
    have hsm := (hkp.kept i chain hch hnot).2
    rw [hfn,hopt] at hsm
    exact Option.some.inj hsm
  intro hnot
  have hlt := lt_of_getElem? hch'
  obtain ⟨progress,hprg,hpas⟩ := hps i hlt chain' hch' (hid ▸ hnot)
  rw [Nat.zero_add,hfn] at hprg
  cases hprg
  rw [hid] at hpas
  intro ranges
  exact checkHazards_none_iff.mpr hpas

end

/-! Two chains, of which the first executes a log of the second, in the same second. The second has
a message to a chain that is not in the dependency set, and its replacement lacks that message. -/

def relayHash (_ : Bytes) : Hash := .fill 32 7

def relayed (chainID : ChainID) : ExecutingMessage :=
  ⟨chainID,2,0,12,ChecksumArgs.checksum relayHash ⟨2,0,12,chainID,.fill 32 7⟩⟩

def relayBlock (receipts : List (List Log)) (h : receipts.flatten.length < 2 ^ 32) : Block :=
  ⟨2,.fill 32 0,12,receipts,h⟩

def relayOracle (initiating : ChainID) : ConsolidateOracle where
  blocks h :=
    match h.bytes.headD 0 with
    | 1 => relayBlock [[⟨.fill 32 7,.message (relayed initiating)⟩]] (by simp)
    | 2 => relayBlock [[⟨.fill 32 7,.nothing⟩],[⟨.fill 32 7,.message (relayed 9)⟩]] (by decide)
    | 3 => relayBlock [] (by decide)
    | 4 => relayBlock [[⟨.fill 32 7,.nothing⟩]] (by decide)
    | _ => ⟨1,.fill 32 0,10,[],by decide⟩
  isOutputV0 _ := true

def relayConfig : Config := { Proofs.Config.sampleConfig with interopTime := some 0 }

def relayBoot : BootInfo (crossPackages Unit Unit) where
  configs.rollupConfig c := if c = 1 ∨ c = 2 then some relayConfig else none
  configs.chainConfig _ := some ()
  configs.l1ChainConfig _ := some ()
  configs.dependencySet _ := some ⟨[1,2],3600⟩
  l1Head := .fill 32 0
  agreedPrestate := .fill 32 0
  gameTimestamp := 12

def relayBuild : DepositOnlyBuilder Unit Unit := fun _ _ _ agreed _ =>
  .ok (if agreed = .fill 32 11 then (.fill 32 3,.fill 32 23) else (.fill 32 4,.fill 32 24))

def relayTasks : TaskExecutor (crossPackages Unit Unit) :=
  crossTasks (fun _ _ _ _ _ _ _ => .error (.inr ())) relayBuild

def relayChecks (initiating : ChainID) : Checks (crossPackages Unit Unit) :=
  crossChecks relayHash (relayOracle initiating) fun _ _ _ => ⟨fun _ _ l => l,fun _ _ l => .refl l⟩

def relayExecuting (c : ChainID) : ChainIDAndOutput × OptimisticBlock :=
  (⟨c,.fill 32 11⟩,⟨.fill 32 1,.fill 32 21⟩)

def relayInitiating (c : ChainID) : ChainIDAndOutput × OptimisticBlock :=
  (⟨c,.fill 32 12⟩,⟨.fill 32 2,.fill 32 22⟩)

def relayState (l : List (ChainIDAndOutput × OptimisticBlock)) : TransitionState :=
  ⟨[],l.map Prod.snd,0⟩

def relaySuper (l : List (ChainIDAndOutput × OptimisticBlock)) : SuperV1 := ⟨11,l.map Prod.fst⟩

/-- When the chain with the invalid message comes first, the other one keeps its block. -/
theorem relay_consolidates : runConsolidation relayTasks (relayChecks 1) relayBoot relayHash
      (relayState [relayInitiating 1,relayExecuting 2])
      (relaySuper [relayInitiating 1,relayExecuting 2]) = .ok (.fill 32 7) ∧
    ∃ s deps final,consolidate relayTasks (relayChecks 1) relayBoot
        (relayState [relayInitiating 1,relayExecuting 2])
        (relaySuper [relayInitiating 1,relayExecuting 2]) = some (.ok s) ∧
      DepsOf (relayOracle 1) relayBoot s deps ∧ s.pendingProgress[1]? = some final ∧
      Consolidated relayHash (relayOracle 1) relayBuild relayBoot s.replacedChains deps
        (relayExecuting 2).1 (relayExecuting 2).2 final := by
  have hrun : runConsolidation relayTasks (relayChecks 1) relayBoot relayHash
      (relayState [relayInitiating 1,relayExecuting 2])
      (relaySuper [relayInitiating 1,relayExecuting 2]) = .ok (.fill 32 7) := by
    apply eq_ok_of_toOption
    decide +kernel
  obtain ⟨s,deps,out,hs,hdps,_,_,hall,_⟩ := (consolidation_consistent relayHash (relayOracle 1)
    (fun _ _ _ => ⟨fun _ _ l => l,fun _ _ l => .refl l⟩) (fun _ _ _ _ _ _ _ => .error (.inr ()))
    relayBuild relayBoot _ _).2 _ hrun
  obtain ⟨optimistic,final,hopt,hfn,_,hfn'⟩ := hall 1 (relayExecuting 2).1 rfl
  cases hopt
  exact ⟨hrun,s,deps,final,hs,hdps,hfn,hfn'⟩

end OpStack.Interop
