import OpStack.Interop.Consolidate
import OpStack.Lib.Lists

namespace OpStack.Interop
open Lib Eth List

variable {P : Packages} {tasks : TaskExecutor P} {checks : Checks P} {boot : BootInfo P}

namespace ConsolidateState

def ids (s : ConsolidateState P) : List ChainID := s.chains.map (·.chainID)

@[simp] theorem ids_setReplaced (s : ConsolidateState P) (i : Nat) (c : ChainID) (o b : Hash) :
    (s.setReplaced i c o b).ids = s.ids :=
  map_modify_eq fun _ => rfl

def unreplaced (s : ConsolidateState P) : Nat := s.ids.countP fun c => c ∉ s.replacedChains

end ConsolidateState

/-- What the loop of a round over `rest` can do to the state: the chains stay, and a round that has
to be repeated has replaced the block of one more of them. -/
structure RoundDone (s : ConsolidateState P) (rest : List ChainIDAndOutput)
    (out : ConsolidateState P × Except (InteropError P) Unit) : Prop where
  ids : out.1.ids = s.ids
  replaced : out.2 = .error .invalidBlockReplacement →
    ∃ c ∈ rest,c.chainID ∉ s.replacedChains ∧ out.1.replacedChains = c.chainID :: s.replacedChains

variable {s s' : ConsolidateState P} {state : TransitionState} {superRoot : SuperV1}
  {rest chains : List ChainIDAndOutput} {e : InteropError P} {blocks : List OptimisticBlock}
  {f : ChainID → Hash} {keccak256 : Bytes → Hash}

theorem RoundDone.cons
    {out : ConsolidateState P × Except (InteropError P) Unit} (h : RoundDone s' rest out)
    (hids : s'.ids = s.ids) (hreplaced : s'.replacedChains = s.replacedChains)
    (c : ChainIDAndOutput) : RoundDone s (c::rest) out := by
  refine ⟨h.ids.trans hids,?_⟩
  intro hout
  obtain ⟨d,hd,hnot,heq⟩ := h.replaced hout
  rw [hreplaced] at hnot heq
  exact ⟨d,mem_cons_of_mem c hd,hnot,heq⟩

theorem RoundDone.stop (hids : s'.ids = s.ids)
    (he : e ≠ .invalidBlockReplacement) : RoundDone s rest (s',.error e) :=
  ⟨hids,fun h => absurd (Except.error.inj h) he⟩

theorem buildDepositOnlyBlock_error {chain : ChainIDAndOutput} {block : P.Block}
    {store store' : P.Store}
    (h : buildDepositOnlyBlock tasks boot chain block store = (store',.error e)) :
    e ≠ .invalidBlockReplacement := by
  unfold buildDepositOnlyBlock at h
  split at h
  · cases h
    simp
  split at h
  · cases h
    simp
  rename_i rollupCfg _ _ l2ChainConfig _
  cases hca : tasks.buildDepositOnlyBlock rollupCfg l2ChainConfig boot.l1Head chain.output
    block store with
  | mk store₁ result =>
    simp only [hca] at h
    cases result with
    | ok r => cases h
    | error e' =>
      cases h
      simp

theorem checkChains_done (deps : P.CheckDeps) (s : ConsolidateState P) (i : Nat)
    (rest : List ChainIDAndOutput) :
    RoundDone s rest (checkChains tasks checks boot deps s i rest) := by
  induction rest generalizing s i with
  | nil => exact ⟨rfl,nofun⟩
  | cons chain rest ih =>
    unfold checkChains
    split
    · exact (ih s (i + 1)).cons rfl rfl chain
    rename_i hop
    split
    · exact .stop rfl (by simp)
    simp only []
    split
    · rename_i store _
      have hnx := ih ⟨s.pendingProgress,s.replacedChains,s.chains,store⟩ (i + 1)
      exact RoundDone.cons (s := s) hnx rfl rfl chain
    split
    · split
      · rename_i hbu
        exact .stop rfl (buildDepositOnlyBlock_error hbu)
      refine ⟨?_,fun _ => ⟨chain,mem_cons_self,hop,rfl⟩⟩
      rw [ConsolidateState.ids_setReplaced]
      rfl
    · exact .stop rfl (by simp)

theorem singleRoundConsolidation_done (s : ConsolidateState P) :
    RoundDone s s.chains (singleRoundConsolidation tasks checks boot s) := by
  unfold singleRoundConsolidation
  split
  · exact .stop rfl (by simp)
  split
  · exact .stop rfl (by simp)
  split
  · exact .stop rfl (by simp)
  · exact checkChains_done _ s 0 s.chains

theorem RoundDone.unreplaced_lt (h : RoundDone s s.chains (s',.error .invalidBlockReplacement)) :
    s'.unreplaced < s.unreplaced := by
  obtain ⟨c,hc,hnot,heq⟩ := h.replaced rfl
  have hids := h.ids
  have hmem : c.chainID ∈ s.ids := mem_map_of_mem hc
  unfold ConsolidateState.unreplaced
  rw [hids,heq]
  apply countP_lt _ hmem (decide_eq_true hnot) (by simp)
  intro d _ hd
  simp only [mem_cons,not_or,decide_eq_true_eq] at hd ⊢
  exact hd.2

theorem consolidationRound_ends (ids : List ChainID) (k : Nat) (s : ConsolidateState P)
    (h : s.unreplaced = k ∧ s.ids = ids) :
    Ends (Rounds (fun k s => s.unreplaced = k ∧ s.ids = ids) (fun s => s.ids = ids) k)
      (fun _ => True) (consolidationRound tasks checks boot s) := by
  obtain ⟨rfl,rfl⟩ := h
  have hdo : RoundDone s s.chains (singleRoundConsolidation tasks checks boot s) :=
    singleRoundConsolidation_done s
  unfold consolidationRound
  split
  · rename_i s' heq
    rw [heq] at hdo
    exact hdo.ids
  · rename_i s' heq
    rw [heq] at hdo
    exact ⟨s'.unreplaced,hdo.unreplaced_lt,rfl,hdo.ids⟩
  · trivial

/-- As many rounds as there are chains, and one more, are enough. -/
theorem consolidate_returns (state : TransitionState) (superRoot : SuperV1) :
    (consolidate tasks checks boot state superRoot).isSome = true := by
  have hct : (newConsolidateState checks state superRoot).unreplaced
      < superRoot.chains.length + 1 := by
    have hle : (newConsolidateState checks state superRoot).unreplaced
        ≤ (superRoot.chains.map (·.chainID)).length := countP_le_length
    rw [length_map] at hle
    exact Nat.lt_succ_of_le hle
  exact loop_returns (consolidationRound_ends _) ⟨rfl,rfl⟩ hct

theorem consolidate_ids (h : consolidate tasks checks boot state superRoot = some (.ok s)) :
    s.ids = superRoot.chains.map (·.chainID) :=
  loop_ends (consolidationRound_ends _) ⟨rfl,rfl⟩ h

theorem consolidatedChains_eq {ids : List ChainID} (hids : chains.map (·.chainID) = ids)
    (hroots : blocks.map (·.outputRoot) = ids.map f) :
    (consolidatedChains chains blocks : Except (InteropError P) _)
      = .ok (ids.map fun c => ⟨c,f c⟩) := by
  induction ids generalizing chains blocks with
  | nil =>
    rw [map_eq_nil_iff] at hids
    rw [hids]
    rfl
  | cons c ids ih =>
    obtain ⟨chain,chains,rfl,rfl,hrs⟩ := map_eq_cons_iff.mp hids
    obtain ⟨block,blocks,rfl,hrt,hbs⟩ := map_eq_cons_iff.mp hroots
    simp [consolidatedChains,ih hrs hbs,hrt]

theorem runConsolidation_eq (h : consolidate tasks checks boot state superRoot = some (.ok s))
    (hroots : s.pendingProgress.map (·.outputRoot) = (superRoot.chains.map (·.chainID)).map f) :
    runConsolidation tasks checks boot keccak256 state superRoot
      = .ok (SuperV1.root keccak256 ⟨superRoot.timestamp + 1,
          (superRoot.chains.map (·.chainID)).map fun c => ⟨c,f c⟩⟩) := by
  unfold runConsolidation
  rw [h]
  simp [consolidatedChains_eq (consolidate_ids h) hroots]

theorem consolidatedChains_ok {out : List ChainIDAndOutput}
    (h : (consolidatedChains chains blocks : Except (InteropError P) _) = .ok out) :
    out.map (·.chainID) = chains.map (·.chainID) ∧
    ∀ (i : Nat) chain,chains[i]? = some chain → ∃ block,blocks[i]? = some block ∧
      out[i]? = some ⟨chain.chainID,block.outputRoot⟩ := by
  induction chains generalizing blocks out with
  | nil =>
    cases h
    exact ⟨rfl,fun i chain hget => by simp at hget⟩
  | cons first chains ih =>
    cases blocks with
    | nil => cases h
    | cons block blocks =>
      obtain ⟨rest,hrs,hout⟩ := of_bind_ok h
      cases hout
      obtain ⟨hids,hall⟩ := ih hrs
      refine ⟨by simp [hids],?_⟩
      intro i chain hget
      cases i with
      | zero =>
        cases hget
        exact ⟨block,rfl,rfl⟩
      | succ i => exact hall i chain hget

theorem runConsolidation_ok {root : Hash}
    (h : runConsolidation tasks checks boot keccak256 state superRoot = .ok root) :
    ∃ s out,consolidate tasks checks boot state superRoot = some (.ok s) ∧
      (consolidatedChains s.chains s.pendingProgress : Except (InteropError P) _) = .ok out ∧
      root = SuperV1.root keccak256 ⟨superRoot.timestamp + 1,out⟩ := by
  obtain ⟨s,hs,h⟩ := of_bind_ok h
  obtain ⟨out,hout,h⟩ := of_bind_ok h
  cases h
  cases hrun : consolidate tasks checks boot state superRoot with
  | none => simp [hrun] at hs
  | some result =>
    rw [hrun] at hs
    exact ⟨s,out,congrArg some hs,hout,rfl⟩

end OpStack.Interop
