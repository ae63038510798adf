import OpStack.Proofs.Config
import OpStack.Supernode.VerifiedAt

namespace OpStack.Supernode
open Lib Eth OpStack.Proofs.Config

/-! The blocks that are served as verified. -/

/-- What is served as verified is what has been verified. -/
def ServesVerified (chainID : ChainID) (activationTimestamp : UInt64) (s : Serving) : Prop :=
  ∀ ts b l1,activationTimestamp ≤ ts →
    s.node.verifiedAt activationTimestamp s.verifiedDB ts = .found (b,l1) →
    ∃ r,s.verifiedDB.get ts = some r ∧ r.l2Heads.lookup chainID = some b

/-- The node has no other block at a timestamp than the results that are stored or in hand. -/
def Agrees (chainID : ChainID) (node : ChainNode) (s : Serving) : Prop :=
  ∀ r,r ∈ s.verifiedDB ∨ s.pending = some r → ∀ b,
    node.localSafeBlockAtTimestamp r.timestamp = .found b →
    r.l2Heads.lookup chainID = some b.id

/-- A step by which the chain does not leave a verified block behind. -/
def KeptStep (chainID : ChainID) (firstVerifiable : UInt64) (s s' : Serving) : Prop :=
  ServingStep chainID firstVerifiable s s' ∧ Agrees chainID s'.node s

section
variable {chainID : ChainID} {firstVerifiable activationTimestamp : UInt64} {s s' : Serving}
  {db db' : VerifiedDB} {r x : VerifiedResult} {n : ChainNode}

theorem mem_of_commit (h : db.commit r = .ok db') (hx : x ∈ db') : x ∈ db ∨ x = r := by
  have happend : x ∈ db ++ [r] → x ∈ db ∨ x = r := by simp
  unfold VerifiedDB.commit at h
  split at h
  · cases h
    exact happend hx
  split at h
  · cases h
    exact happend hx
  split at h
  · split at h
    · cases h
    split at h
    · cases h
      exact .inl hx
    · cases h
  · cases h

theorem optimisticAt_found {ts : UInt64} {b l1 : BlockID} (h : n.optimisticAt ts = .found (b,l1)) :
    ∃ l2,n.localSafeBlockAtTimestamp ts = .found l2 ∧ l2.id = b := by
  unfold ChainNode.optimisticAt at h
  split at h
  · cases h
  · cases h
  case h_3 l2 hl2 =>
    split at h
    · cases h
    · cases h
    · cases h
      exact ⟨l2,hl2,rfl⟩

theorem agrees_step (hagrees : Agrees chainID s.node s)
    (hstep : KeptStep chainID firstVerifiable s s') : Agrees chainID s'.node s' := by
  obtain ⟨hstep,hkp⟩ := hstep
  cases hstep with
  | moves node => exact hkp
  | observes hnx hobserved hhd =>
    rintro r (hr | hr) b hb
    · exact hagrees r (.inl hr) b hb
    cases hr
    obtain ⟨l2,hl2,rfl⟩ := optimisticAt_found hobserved
    cases hl2.symm.trans hb
    exact hhd
  | ends => exact fun r hr => hagrees r (.inl (hr.resolve_right nofun))
  | commits hr hcommit =>
    rintro x (hx | hx)
    · obtain hx | rfl := mem_of_commit hcommit hx
      · exact hagrees x (.inl hx)
      · exact hagrees x (.inr hr)
    · cases hx
  | rewinds hls =>
    rintro x (hx | hx)
    · exact hagrees x (.inl (List.mem_filter.mp hx).1)
    · exact hagrees x (.inr hx)

theorem Agrees.servesVerified (h : Agrees chainID s.node s) :
    ServesVerified chainID activationTimestamp s := by
  intro ts b l1 hts hser
  unfold ChainNode.verifiedAt at hser
  split at hser
  case h_1 served hobserved =>
    split at hser
    case isTrue hver =>
      cases hser
      rw [Bool.or_eq_true,decide_eq_true_eq] at hver
      obtain ⟨r,hr⟩ := Option.isSome_iff_exists.mp (hver.resolve_left (UInt64.not_lt.mpr hts))
      obtain ⟨l2,hl2,rfl⟩ := optimisticAt_found hobserved
      have hts' : r.timestamp = ts := by simpa using List.find?_some hr
      exact ⟨r,hr,h r (.inl (List.mem_of_find?_eq_some hr)) l2 (hts' ▸ hl2)⟩
    · cases hser
  case h_2 hno => exact absurd hser (hno (b,l1))

/-- As long as the chain keeps the blocks of the results, only verified blocks are served. -/
theorem served_blocks_verified (hempty : s.verifiedDB = [] ∧ s.pending = none)
    (h : Reaches (KeptStep chainID firstVerifiable) s s') :
    ServesVerified chainID activationTimestamp s' := by
  have hsta : Agrees chainID s.node s := by
    rintro r (hr | hr)
    · simp [hempty.1] at hr
    · simp [hempty.2] at hr
  have hagrees : Agrees chainID s'.node s' :=
    @Reaches.invariant _ _ (fun x => Agrees chainID x.node x) _ _ h hsta fun _ _ => agrees_step
  exact hagrees.servesVerified

end

def forkNode (b : Nat) : ChainNode where
  rollup := sampleConfig
  localSafeL2 := some ⟨hashOf b,50,hashOf 3,101,⟨hashOf 1,0⟩,0⟩
  l2BlockRefByNumber num := .found ⟨hashOf b,num,hashOf 3,101,⟨hashOf 1,0⟩,0⟩
  l1AtSafeHead _ := .found ⟨hashOf 9,9⟩

def forkResult : VerifiedResult := ⟨101,⟨hashOf 9,9⟩,[(1,⟨hashOf 4,50⟩)]⟩

theorem forkResult_observed :
    ServingStep 1 101 ⟨forkNode 4,[],none⟩ ⟨forkNode 4,[],some forkResult⟩ :=
  .observes rfl (by rfl) rfl

/-- The fork with a block more. -/
def grownNode : ChainNode where
  rollup := sampleConfig
  localSafeL2 := some ⟨hashOf 6,51,hashOf 4,103,⟨hashOf 1,0⟩,1⟩
  l2BlockRefByNumber num :=
    if num = 51 then .found ⟨hashOf 6,51,hashOf 4,103,⟨hashOf 1,0⟩,1⟩
    else (forkNode 4).l2BlockRefByNumber num
  l1AtSafeHead _ := .found ⟨hashOf 9,9⟩

theorem agrees_forkResult {node : ChainNode} {s : Serving}
    (hnode : node.localSafeBlockAtTimestamp 101 =
      .found ⟨hashOf 4,50,hashOf 3,101,⟨hashOf 1,0⟩,0⟩)
    (hall : ∀ r,r ∈ s.verifiedDB ∨ s.pending = some r → r = forkResult) : Agrees 1 node s := by
  intro r hr b hb
  cases hall r hr
  cases hnode.symm.trans hb
  rfl

/-- The chain grows after the commit, and the verified block is served still. -/
theorem served_blocks_verified_fork :
    grownNode.verifiedAt 101 [forkResult] 101 = .found (⟨hashOf 4,50⟩,⟨hashOf 9,9⟩) ∧
      ServesVerified 1 101 ⟨grownNode,[forkResult],none⟩ := by
  refine ⟨rfl,@served_blocks_verified 1 101 101 ⟨forkNode 4,[],none⟩ _ ⟨rfl,rfl⟩
    (.tail (.tail (.single ⟨forkResult_observed,?_⟩) ⟨.commits rfl rfl,?_⟩)
      ⟨.moves grownNode,?_⟩)⟩
  · exact agrees_forkResult rfl (by simp)
  · exact agrees_forkResult rfl (by simp)
  · exact agrees_forkResult rfl (by simp)

/-- The chain moves to another fork, whose block is served before a round finds out. -/
theorem reorged_block_served_as_verified :
    Reaches (ServingStep 1 101) ⟨forkNode 4,[],none⟩ ⟨forkNode 5,[forkResult],none⟩ ∧
      ¬ ServesVerified 1 101 ⟨forkNode 5,[forkResult],none⟩ := by
  refine ⟨.tail (.tail (.single forkResult_observed) (.commits rfl rfl)) (.moves (forkNode 5)),?_⟩
  intro h
  obtain ⟨r,hr,hhd⟩ := h 101 ⟨hashOf 5,50⟩ ⟨hashOf 9,9⟩ (by decide) (by rfl)
  cases hr
  exact absurd hhd (by decide)

end OpStack.Supernode
