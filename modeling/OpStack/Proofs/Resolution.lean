import OpStack.DisputeMon.Resolve
import OpStack.Lib.Lists

namespace OpStack.Proofs.Resolution
open Eth Lib Fault DisputeMon BidirectionalClaim List Option

structure Ordered (claims : List Claim) : Prop where
  index : ∀ {i : Nat} {c : Claim},claims[i]? = some c → c.contractIndex = i
  root : ∀ {i : Nat} {c : Claim},claims[i]? = some c → c.isRoot = decide (i = 0)
  parent : ∀ {i : Nat} {c : Claim},claims[i]? = some c → 0 < i → c.parentContractIndex < i

structure ChildOf (claims : List Claim) (i j : Nat) (d : Claim) : Prop where
  claim : claims[j]? = some d
  pos : 0 < j
  parent : d.parentContractIndex = i

structure Links (claims : List Claim) (tree : BidirectionalTree) : Prop where
  holds : tree.map BidirectionalClaim.claim = claims
  children : ∀ {i j : Nat} {node : BidirectionalClaim},tree[i]? = some node →
    (j ∈ node.children ↔ ∃ d,ChildOf claims i j d)

variable {claims : List Claim} {tree : BidirectionalTree} {i j : Nat} {c : Claim}
  {node : BidirectionalClaim}

theorem Ordered.of_snoc (h : Ordered (claims ++ [c])) : Ordered claims :=
  ⟨fun hc => h.index (getElem?_append_of_some hc),fun hc => h.root (getElem?_append_of_some hc),
    fun hc => h.parent (getElem?_append_of_some hc)⟩

theorem ChildOf.lt {d : Claim} (h : ChildOf claims i j d) (ho : Ordered claims) :
    i < j ∧ j < claims.length := by
  refine ⟨?_,lt_of_getElem? h.claim⟩
  rw [← h.parent]
  exact ho.parent h.claim h.pos

theorem childOf_snoc_iff {d : Claim} : ChildOf (claims ++ [c]) i j d ↔
    ChildOf claims i j d ∨ j = claims.length ∧ d = c ∧ 0 < j ∧ c.parentContractIndex = i := by
  constructor
  · rintro ⟨hd,hpos,hpar⟩
    obtain hd | ⟨rfl,rfl⟩ := getElem?_concat_cases hd
    · exact .inl ⟨hd,hpos,hpar⟩
    · exact .inr ⟨rfl,rfl,hpos,hpar⟩
  · rintro (h | ⟨rfl,rfl,hpos,hpar⟩)
    · exact ⟨getElem?_append_of_some h.claim,h.pos,h.parent⟩
    · exact ⟨by simp,hpos,hpar⟩

theorem Links.claim_at (hl : Links claims tree) (hn : tree[i]? = some node) :
    claims[i]? = some node.claim := by
  simp [← hl.holds,hn]

theorem Links.node_at (hl : Links claims tree) (hc : claims[i]? = some c) :
    ∃ node,tree[i]? = some node ∧ node.claim = c := by
  rw [← hl.holds,getElem?_map] at hc
  exact map_eq_some_iff.mp hc

theorem Links.length_eq (hl : Links claims tree) : tree.length = claims.length := by
  rw [← hl.holds,length_map]

theorem locate_eq (hindex : ∀ {i : Nat} {node : BidirectionalClaim},tree[i]? = some node →
    node.claim.contractIndex = i) (hi : i < tree.length) : locate tree i = some i := by
  have hp : ∀ k,(tree[k]?.any fun node => decide (node.claim.contractIndex = i)) = true ↔
      k < tree.length ∧ k = i := by
    intro k
    cases hk : tree[k]? with
    | none =>
      rw [getElem?_eq_none_iff] at hk
      simp
      omega
    | some node =>
      have := lt_of_getElem? hk
      simp [hindex hk,this]
  have hso : (locate tree i).isSome = true := by
    rw [locate,find?_isSome]
    exact ⟨i,by simpa using hi,(hp i).mpr ⟨hi,rfl⟩⟩
  obtain ⟨k,hk⟩ := isSome_iff_exists.mp hso
  have := find?_some hk
  rw [hk,((hp k).mp this).2]

theorem addClaim_links (hl : Links claims tree) (ho : Ordered (claims ++ [c])) :
    ∃ tree',addClaim tree c = .ok tree' ∧ Links (claims ++ [c]) tree' := by
  have hls : (claims ++ [c])[claims.length]? = some c := by simp
  have hlen := hl.length_eq
  have hnd : ∀ {i : Nat} {node : BidirectionalClaim},(tree ++ [⟨c,[]⟩])[i]? = some node →
      (claims ++ [c])[i]? = some node.claim := by
    intro i node hn
    obtain hn | ⟨rfl,rfl⟩ := getElem?_concat_cases hn
    · exact getElem?_append_of_some (hl.claim_at hn)
    · rw [hlen]
      exact hls
  -- Before the new claim is linked, the tree has the children among the earlier claims.
  have hold : ∀ {i j : Nat} {node : BidirectionalClaim},(tree ++ [⟨c,[]⟩])[i]? = some node →
      (j ∈ node.children ↔ ∃ d,ChildOf claims i j d) := by
    intro i j node hn
    obtain hn | ⟨rfl,rfl⟩ := getElem?_concat_cases hn
    · exact hl.children hn
    refine ⟨fun h => by simp at h,fun ⟨d,hd⟩ => ?_⟩
    have := hd.lt ho.of_snoc
    omega
  cases Nat.eq_zero_or_pos claims.length with
  | inl h0 =>
    refine ⟨tree ++ [⟨c,[]⟩],?_,?_,?_⟩
    · rw [addClaim,ho.root hls,decide_eq_true h0]
      rfl
    · simp [hl.holds]
    intro i j node hn
    rw [hold hn]
    refine exists_congr fun d => ?_
    rw [childOf_snoc_iff]
    exact ⟨.inl,fun h => h.resolve_right fun h => by omega⟩
  | inr hpos =>
    have hpar := ho.parent hls hpos
    have hlocate : locate (tree ++ [⟨c,[]⟩]) c.parentContractIndex =
        some c.parentContractIndex := by
      refine locate_eq (fun hn => ho.index (hnd hn)) ?_
      rw [length_append]
      omega
    refine ⟨(tree ++ [mk c []]).modify c.parentContractIndex fun node =>
      { node with children := node.children ++ [tree.length] },?_,?_,?_⟩
    · rw [addClaim,ho.root hls,decide_eq_false (by omega)]
      simp [hlocate]
    · rw [map_modify_eq (by intro node; rfl)]
      simp [hl.holds]
    intro i j node hn
    rw [getElem?_modify] at hn
    obtain ⟨old,hat,rfl⟩ := map_eq_some_iff.mp hn
    have hnew : (∃ d,ChildOf (claims ++ [c]) i j d) ↔
        j ∈ old.children ∨ j = claims.length ∧ c.parentContractIndex = i := by
      simp only [childOf_snoc_iff,exists_or,← hold hat]
      refine or_congr Iff.rfl ⟨fun ⟨d,hj,_,_,hi⟩ => ⟨hj,hi⟩,fun ⟨hj,hi⟩ => ⟨c,hj,rfl,?_,hi⟩⟩
      omega
    rw [hnew]
    by_cases h : c.parentContractIndex = i
    · simp [h,hlen]
    · simp [h]

theorem createBidirectionalTree_links (ho : Ordered claims) :
    ∃ tree,createBidirectionalTree claims = .ok tree ∧ Links claims tree := by
  induction claims using reverseRecOn with
  | nil => exact ⟨[],rfl,rfl,fun hn => by simp at hn⟩
  | append_singleton claims c ih =>
    obtain ⟨tree,htree,hl⟩ := ih ho.of_snoc
    obtain ⟨tree',hadd,hl'⟩ := addClaim_links hl ho
    refine ⟨tree',?_,hl'⟩
    rw [createBidirectionalTree] at htree ⊢
    rw [foldlM_append,htree]
    simp [foldlM_nil,bind,Except.bind,hadd,pure,Except.pure]

theorem leftmost_spec (who : Address) (children : List Claim) :
    (∀ d ∈ children,d.counteredBy ≠ Address.zero) ∧
      children.foldl nextCounter (who,none) = (who,none) ∨
    ∃ d ∈ children,d.counteredBy = Address.zero ∧
      children.foldl nextCounter (who,none) = (d.claimant,some d.position.indexAtDepth) ∧
      ∀ e ∈ children,e.counteredBy = Address.zero →
        d.position.indexAtDepth ≤ e.position.indexAtDepth := by
  induction children using reverseRecOn with
  | nil => exact .inl ⟨fun _ h => by simp at h,rfl⟩
  | append_singleton children c ih =>
    simp only [mem_append,mem_singleton]
    by_cases hc : c.counteredBy = Address.zero
    · right
      obtain ⟨hall,heq⟩ | ⟨d,hd,hz,heq,hmin⟩ := ih
      · refine ⟨c,.inr rfl,hc,by simp [heq,nextCounter,hc],?_⟩
        rintro e (he | rfl) hez
        · exact absurd hez (hall e he)
        · exact Nat.le_refl _
      obtain hlt | hge := Nat.lt_or_ge c.position.indexAtDepth d.position.indexAtDepth
      · refine ⟨c,.inr rfl,hc,by simp [heq,nextCounter,hc,hlt],?_⟩
        rintro e (he | rfl) hez
        · exact Nat.le_trans (Nat.le_of_lt hlt) (hmin e he hez)
        · exact Nat.le_refl _
      refine ⟨d,.inl hd,hz,by simp [heq,nextCounter,hc,Nat.not_lt.mpr hge],?_⟩
      rintro e (he | rfl) hez
      · exact hmin e he hez
      · exact hge
    · obtain ⟨hall,heq⟩ | ⟨d,hd,hz,heq,hmin⟩ := ih
      · refine .inl ⟨?_,by simp [heq,nextCounter,hc]⟩
        rintro e (he | rfl)
        · exact hall e he
        · exact hc
      refine .inr ⟨d,.inl hd,hz,by simp [heq,nextCounter,hc],?_⟩
      rintro e (he | rfl) hez
      · exact hmin e he hez
      · exact absurd hez hc

def settle (tree : BidirectionalTree) (node : BidirectionalClaim) : BidirectionalClaim :=
  { node with claim := { node.claim with counteredBy := counterClaimant tree node } }

theorem counterClaimant_congr {tree' : BidirectionalTree}
    (h : ∀ j ∈ node.children,tree'[j]? = tree[j]?) :
    counterClaimant tree' node = counterClaimant tree node := by
  have hmap : (node.children.filterMap fun j => tree'[j]?.map claim) =
      node.children.filterMap fun j => tree[j]?.map claim :=
    filterMap_congr fun j hj => by rw [h j hj]
  simp [counterClaimant,hmap]

/-- From the last claim on, every claim is settled by children that are settled before it. -/
theorem resolveClaims_spec (n : Nat) : ∀ {tree : BidirectionalTree},
    (∀ {i : Nat} {node : BidirectionalClaim},tree[i]? = some node → ∀ j ∈ node.children,i < j) →
    (∀ i,n ≤ i → (resolveClaims n tree)[i]? = tree[i]?) ∧
    ∀ i < n,(resolveClaims n tree)[i]? = tree[i]?.map (settle (resolveClaims n tree)) := by
  induction n with
  | zero =>
    intro tree _
    exact ⟨fun _ _ => rfl,fun i hi => by omega⟩
  | succ n ih =>
    intro tree hla
    have hat : ∀ i,(resolveClaim tree n)[i]? =
        if n = i then tree[i]?.map (settle tree) else tree[i]? := by
      intro i
      rw [resolveClaim,getElem?_modify]
      by_cases h : n = i
      · simp only [h]
        rfl
      · simp [h]
    have hla' : ∀ {i : Nat} {node : BidirectionalClaim},
        (resolveClaim tree n)[i]? = some node → ∀ j ∈ node.children,i < j := by
      intro i node hn
      rw [hat] at hn
      by_cases h : n = i
      · rw [if_pos h] at hn
        obtain ⟨old,hold,rfl⟩ := map_eq_some_iff.mp hn
        exact @hla i old hold
      · rw [if_neg h] at hn
        exact hla hn
    obtain ⟨hab,hbe⟩ := ih hla'
    rw [resolveClaims]
    constructor
    · intro i hi
      rw [hab i (by omega),hat,if_neg (by omega)]
    intro i hi
    by_cases h : n = i
    · subst h
      rw [hab n (Nat.le_refl n),hat,if_pos rfl]
      cases hn : tree[n]? with
      | none => rfl
      | some node =>
        have hsm := @counterClaimant_congr tree node (resolveClaims n (resolveClaim tree n))
          fun j hj => by
            have := hla hn j hj
            rw [hab j (by omega),hat,if_neg (by omega)]
        simp [settle,hsm]
    · rw [hbe i (by omega),hat,if_neg h]

def counteredAt (tree : BidirectionalTree) (i : Nat) : Address :=
  match tree[i]? with
  | some node => node.claim.counteredBy
  | none => Address.zero

/-- A claim is countered by the claimant of the leftmost child that stands, and stays as it was if
none stands. -/
inductive Outcome (claims : List Claim) (who : Nat → Address) (i : Nat) (c : Claim) : Prop where
  | kept (hall : ∀ j d,ChildOf claims i j d → who j ≠ Address.zero) (heq : who i = c.counteredBy)
  | countered (j : Nat) (d : Claim) (hd : ChildOf claims i j d) (hstands : who j = Address.zero)
      (heq : who i = d.claimant) (hmin : ∀ k e,ChildOf claims i k e → who k = Address.zero →
        d.position.indexAtDepth ≤ e.position.indexAtDepth)

theorem resolve_at (ho : Ordered claims) (hl : Links claims tree) :
    (resolve tree).2[i]? = tree[i]?.map (settle (resolve tree).2) := by
  have hla : ∀ {i : Nat} {node : BidirectionalClaim},tree[i]? = some node →
      ∀ j ∈ node.children,i < j := by
    intro i node hn j hj
    obtain ⟨d,hd⟩ := (hl.children hn).mp hj
    exact (hd.lt ho).1
  obtain ⟨hab,hbe⟩ := resolveClaims_spec tree.length hla
  obtain hlt | hge := Nat.lt_or_ge i tree.length
  · exact hbe i hlt
  have hno := getElem?_eq_none_iff.mpr hge
  rw [hno]
  exact (hab i hge).trans hno

theorem resolve_claim (ho : Ordered claims) (hl : Links claims tree) (hc : claims[i]? = some c) :
    ∃ node,(resolve tree).2[i]? = some node ∧
      node.claim = { c with counteredBy := counteredAt (resolve tree).2 i } := by
  obtain ⟨node,hn,rfl⟩ := hl.node_at hc
  have hat := @resolve_at _ _ i ho hl
  rw [hn] at hat
  refine ⟨_,hat,?_⟩
  rw [counteredAt,hat]
  rfl

theorem resolve_outcome (ho : Ordered claims) (hl : Links claims tree)
    (hc : claims[i]? = some c) : Outcome claims (counteredAt (resolve tree).2) i c := by
  obtain ⟨node,hn,rfl⟩ := hl.node_at hc
  have hat := @resolve_at _ _ i ho hl
  rw [hn] at hat
  generalize hout : (resolve tree).2 = out at hat ⊢
  have hwho : counteredAt out i = counterClaimant out node := by
    rw [counteredAt,hat]
    rfl
  have hmem : ∀ {e : Claim},e ∈ (node.children.filterMap fun j =>
      out[j]?.map claim) ↔
      ∃ j d,ChildOf claims i j d ∧ e = { d with counteredBy := counteredAt out j } := by
    intro e
    rw [mem_filterMap]
    constructor
    · rintro ⟨j,hj,he⟩
      obtain ⟨d,hd⟩ := (hl.children hn).mp hj
      obtain ⟨child,hcd,hclm⟩ := resolve_claim ho hl hd.claim
      rw [hout] at hcd hclm
      rw [hcd,map_some,some.injEq,hclm] at he
      exact ⟨j,d,hd,he.symm⟩
    · rintro ⟨j,d,hd,rfl⟩
      obtain ⟨child,hcd,hclm⟩ := resolve_claim ho hl hd.claim
      rw [hout] at hcd hclm
      refine ⟨j,(hl.children hn).mpr ⟨d,hd⟩,?_⟩
      rw [hcd,map_some,hclm]
  obtain ⟨hall,heq⟩ | ⟨e,he,hz,heq,hmin⟩ := leftmost_spec node.claim.counteredBy
    (node.children.filterMap fun j => out[j]?.map claim)
  · refine .kept (fun j d hd => ?_) (hwho.trans (congrArg Prod.fst heq))
    exact hall _ (hmem.mpr ⟨j,d,hd,rfl⟩)
  obtain ⟨j,d,hd,rfl⟩ := hmem.mp he
  refine .countered j d hd hz (hwho.trans (congrArg Prod.fst heq)) fun k e hk hstd => ?_
  exact hmin { e with counteredBy := counteredAt out k } (hmem.mpr ⟨k,e,hk,rfl⟩) hstd

theorem resolve_status : (resolve tree).1 = .defenderWon ↔
    counteredAt (resolve tree).2 0 = Address.zero := by
  rw [resolve]
  generalize resolveClaims tree.length tree = out
  cases out with
  | nil => simp [gameStatus,counteredAt]
  | cons root out =>
    simp only [gameStatus,counteredAt]
    by_cases h : root.claim.counteredBy = Address.zero
    · simp [h]
    · simp [h]

end OpStack.Proofs.Resolution
