import OpStack.Supernode.Round

namespace OpStack.Supernode
open Lib Eth List

/-! The L1 block that is stored with a verified result. -/

def LastHighest (blocks : List BlockID) (b : BlockID) : Prop :=
  ∃ before after,blocks = before ++ b::after ∧ (∀ x ∈ before,x.number ≤ b.number) ∧
    ∀ x ∈ after,x.number < b.number

def l1Sources (answers : ChainID → Fetched (BlockID × BlockID)) (order : List ChainID) :
    List BlockID :=
  order.filterMap fun c => match answers c with
    | .found (_,l1) => some l1
    | _ => none

def FoundCanonical (s : RoundScript) (heads : List BlockID) (b : BlockID) : Prop :=
  b ≠ .zero ∧ ∃ before after ref,heads = before ++ b::after ∧
    s.canonical (before.countP (· ≠ .zero)) = some ref ∧ ref.hash = b.hash

structure CoversHeads (s : RoundScript) (db : VerifiedDB) (v : VerifiedResult) : Prop where
  canonical : FoundCanonical s ((db.getLast?.map VerifiedResult.l1Inclusion).toList ++
    l1Sources s.readyAt s.headOrder) v.l1Inclusion
  above : ∀ c head l1,(c,head) ∈ v.l2Heads → s.readyAt c = .found (head,l1) →
    l1.number ≤ v.l1Inclusion.number

structure RoundScript.OverChains (s : RoundScript) (chains : List ChainID) : Prop where
  nodup : chains.Nodup
  arrival : s.arrival.Perm chains
  headOrder : s.headOrder.Perm chains
  inclusionOrder : s.inclusionOrder.Perm chains
  verifyOrder : s.verifyOrder.Perm chains

section
variable {s : RoundScript} {order chains : List ChainID} {b current : BlockID}

variable {obs : RoundObservation} {r : Result} {db : VerifiedDB} {first : UInt64} {x : BlockID}
  {blocks heads : List BlockID} {answers : List (ChainID × BlockID × BlockID)} {c : ChainID}
  {r' : Result}

theorem LastHighest.cons (h : LastHighest (b::blocks) current) (hle : x.number ≤ b.number) :
    LastHighest (x::b::blocks) current := by
  obtain ⟨before,after,heq,hbef,haf⟩ := h
  refine ⟨x::before,after,congrArg _ heq,?_,haf⟩
  intro y hy
  obtain rfl | hy := mem_cons.mp hy
  · cases before with
    | nil =>
      cases heq
      exact hle
    | cons z before =>
      cases heq
      exact UInt64.le_trans hle (hbef _ mem_cons_self)
  · exact hbef y hy

theorem LastHighest.skip (h : LastHighest (b::blocks) current) (hlt : x.number < b.number) :
    LastHighest (b::x::blocks) current := by
  obtain ⟨before,after,heq,hbef,haf⟩ := h
  cases before with
  | nil =>
    cases heq
    refine ⟨[],x::blocks,rfl,hbef,?_⟩
    intro y hy
    obtain rfl | hy := mem_cons.mp hy
    · exact hlt
    · exact haf y hy
  | cons z before =>
    cases heq
    refine ⟨b::x::before,after,rfl,?_,haf⟩
    intro y hy
    have hb := hbef b mem_cons_self
    obtain rfl | hy := mem_cons.mp hy
    · exact hb
    obtain rfl | hy := mem_cons.mp hy
    · exact UInt64.le_trans (UInt64.le_of_lt hlt) hb
    · exact hbef y (mem_cons_of_mem _ hy)

theorem l1Inclusion_lastHighest (h : l1Inclusion s order current = .ok b) :
    LastHighest (current::l1Sources s.inclusionAt order) b := by
  induction order generalizing current with
  | nil =>
    cases h
    exact ⟨[],[],rfl,by simp,by simp⟩
  | cons c rest ih =>
    unfold l1Inclusion at h
    unfold l1Sources
    cases hc : s.inclusionAt c with
    | notFound => simp [hc] at h
    | failed => simp [hc] at h
    | found answer =>
      simp only [hc] at h
      simp only [filterMap_cons,hc]
      split at h
      case isTrue hle => exact (ih h).cons hle
      case isFalse hlt => exact (ih h).skip (UInt64.not_le.mp hlt)

theorem LastHighest.of_zero (hne : blocks ≠ [])
    (h : LastHighest (.zero::blocks) b) : LastHighest blocks b := by
  obtain ⟨before,after,heq,hbef,haf⟩ := h
  cases before with
  | nil =>
    cases heq
    obtain ⟨x,hx⟩ := exists_mem_of_ne_nil _ hne
    exact absurd (haf x hx) (by simp [BlockID.zero])
  | cons z before =>
    cases heq
    exact ⟨before,after,rfl,fun x hx => hbef x (mem_cons_of_mem _ hx),haf⟩

theorem LastHighest.unique {b' : BlockID} (h : LastHighest blocks b)
    (h' : LastHighest blocks b') : b = b' := by
  obtain ⟨before,after,rfl,hbef,haf⟩ := h
  obtain ⟨before',after',heq,hbef',haf'⟩ := h'
  obtain ⟨mid,rfl,heq'⟩ | ⟨mid,rfl,heq'⟩ := append_eq_append_iff.mp heq
  · cases mid with
    | nil =>
      cases heq'
      rfl
    | cons x mid =>
      cases heq'
      have hlt := haf b' (by simp)
      exact absurd (hbef' b (by simp)) (UInt64.not_le.mpr hlt)
  cases mid with
  | nil =>
    cases heq'
    rfl
  | cons x mid =>
    cases heq'
    have hlt := haf' b (by simp)
    exact absurd (hbef b' (by simp)) (UInt64.not_le.mpr hlt)

theorem sameL1Chain_found {k : Nat} {before after : List BlockID}
    (h : sameL1Chain s k heads = .ok true) (heq : heads = before ++ b::after) (hb : b ≠ .zero) :
    ∃ ref,s.canonical (k + before.countP (· ≠ .zero)) = some ref ∧ ref.hash = b.hash := by
  induction heads generalizing k before with
  | nil => simp at heq
  | cons head rest ih =>
    unfold sameL1Chain at h
    cases before with
    | nil =>
      cases heq
      rw [if_neg hb] at h
      split at h
      · cases h
      case h_2 ref href =>
        split at h
        · cases h
        case isFalse hne => exact ⟨ref,href,not_not.mp hne⟩
    | cons x before =>
      cases heq
      split at h
      case isTrue hz =>
        have := ih h rfl
        simpa [hz] using this
      case isFalse hne =>
        split at h
        · cases h
        split at h
        · cases h
        have := ih h rfl
        rw [countP_cons_of_pos (by simpa using hne)]
        simpa [Nat.add_assoc,Nat.add_comm 1] using this

theorem foundCanonical_iff (h : sameL1Chain s 0 heads = .ok true) :
    FoundCanonical s heads b ↔ b ≠ .zero ∧ b ∈ heads := by
  constructor
  · rintro ⟨hb,before,after,ref,rfl,-,-⟩
    exact ⟨hb,by simp⟩
  rintro ⟨hb,hmem⟩
  obtain ⟨before,after,heq⟩ := append_of_mem hmem
  obtain ⟨ref,href,hhs⟩ := sameL1Chain_found h heq hb
  exact ⟨hb,before,after,ref,heq,by simpa using href,hhs⟩

theorem checkChainsReady_found (h : checkChainsReady s order = .ok answers) :
    answers.map Prod.fst = order ∧ ∀ a ∈ answers,s.readyAt a.1 = .found a.2 := by
  induction order generalizing answers with
  | nil =>
    cases h
    exact ⟨rfl,by simp⟩
  | cons c rest ih =>
    unfold checkChainsReady at h
    split at h
    case h_1 b l hc hrs =>
      cases h
      obtain ⟨hfst,hfd⟩ := ih hrs
      refine ⟨by rw [map_cons,hfst],?_⟩
      intro a ha
      obtain rfl | ha := mem_cons.mp ha
      · exact hc
      · exact hfd a ha
    all_goals cases h

theorem lookup_answers {β : Type} {g : BlockID × BlockID → β} (hnodup : order.Nodup)
    (h : checkChainsReady s order = .ok answers) (hc : c ∈ order) :
    ∃ a,s.readyAt c = .found a ∧ (answers.map fun a => (a.1,g a.2)).lookup c = some (g a) := by
  obtain ⟨rfl,hfd⟩ := checkChainsReady_found h
  obtain ⟨a,ha,rfl⟩ := mem_map.mp hc
  refine ⟨a.2,hfd a ha,lookup_of_mem ?_ (mem_map_of_mem ha)⟩
  rw [map_map]
  exact hnodup

theorem verifyChains_heads {blocks : List (ChainID × BlockID)}
    (h : verifyChains s blocks order r = .ok r') : r'.l1Inclusion = r.l1Inclusion ∧
      ∀ c,r'.l2Heads c = (if c ∈ order then blocks.lookup c else none).or (r.l2Heads c) := by
  induction order generalizing r with
  | nil =>
    cases h
    exact ⟨rfl,fun c => rfl⟩
  | cons c rest ih =>
    unfold verifyChains at h
    cases hbk : blocks.lookup c with
    | none =>
      rw [hbk] at h
      obtain ⟨hl1,hhds⟩ := ih h
      refine ⟨hl1,?_⟩
      intro c'
      rw [hhds]
      by_cases hc : c' = c
      · simp [hc,hbk]
      · simp [hc]
    | some block =>
      have hset : ∀ {r₁ : Result},r₁.l2Heads = Function.update r.l2Heads c (some block) →
          ∀ c',(if c' ∈ rest then blocks.lookup c' else none).or (r₁.l2Heads c') =
            (if c' ∈ c::rest then blocks.lookup c' else none).or (r.l2Heads c') := by
        intro r₁ heq c'
        rw [heq]
        by_cases hc : c' = c
        · rw [hc,Function.update_self,if_pos mem_cons_self,hbk]
          split
          · rfl
          · rfl
        · simp [hc]
      rw [hbk] at h
      obtain ⟨invalid,-,h⟩ := of_bind_ok h
      cases invalid with
      | none =>
        obtain ⟨hl1,hhds⟩ := ih h
        exact ⟨hl1,fun c' => (hhds c').trans (hset rfl c')⟩
      | some invalid =>
        obtain ⟨hl1,hhds⟩ := ih h
        exact ⟨hl1,fun c' => (hhds c').trans (hset rfl c')⟩

theorem observeRound_ready (h : observeRound s db first = .ok obs)
    (hready : obs.chainsReady = true) : ∃ answers,checkChainsReady s s.arrival = .ok answers ∧
      obs.blocksAtTS = answers.map (fun a => (a.1,a.2.1)) ∧
      sameL1Chain s 0 (headsToCheck s db.getLast? (answers.map fun a => (a.1,a.2.2))) =
        .ok obs.l1Consistent := by
  unfold observeRound at h
  simp only at h
  split at h
  · cases h
    cases hready
  split at h
  · cases h
    cases hready
  · cases h
  case h_3 answers hans =>
    obtain ⟨same,hsm,h⟩ := of_bind_ok h
    cases h
    exact ⟨answers,hans,rfl,hsm⟩

theorem checkPreconditions_none (h : checkPreconditions obs = none) :
    obs.chainsReady = true ∧ obs.l1Consistent = true := by
  unfold checkPreconditions at h
  split at h
  · cases h
  split at h
  · cases h
  case isFalse hrdy =>
    split at h
    · cases h
    case isFalse hcst => exact ⟨by simpa using hrdy,by simpa using hcst⟩

theorem decideVerifiedResult_advance
    (h : decideVerifiedResult chains r = ⟨.advance,some r'⟩) : r = r' := by
  unfold decideVerifiedResult at h
  split at h
  · cases h
  split at h
  · cases h
  · cases h
    rfl

/-- What is behind a round that advances: both sets of answers, and the L1 blocks it checked. -/
theorem progressInterop_advance
    (h : progressInterop s chains db first = .ok (⟨.advance,some r⟩,obs)) :
    ∃ answers,checkChainsReady s s.arrival = .ok answers ∧
      sameL1Chain s 0 (headsToCheck s db.getLast? (answers.map fun a => (a.1,a.2.2))) = .ok true ∧
      l1Inclusion s s.inclusionOrder .zero = .ok r.l1Inclusion ∧
      ∀ c,r.l2Heads c = if c ∈ s.verifyOrder then
        (answers.map fun a => (a.1,a.2.1)).lookup c else none := by
  obtain ⟨obs',hobs,h⟩ := of_bind_ok h
  split at h
  case h_1 early hearly =>
    cases h
    unfold checkPreconditions at hearly
    repeat' split at hearly
    all_goals cases hearly
  case h_2 hno =>
    obtain ⟨hrdy,hcst⟩ := checkPreconditions_none hno
    obtain ⟨answers,hans,hbs,hsm⟩ := observeRound_ready hobs hrdy
    obtain ⟨result,hvf,h⟩ := of_bind_ok h
    obtain ⟨inclusion,hinclusion,hvf⟩ := of_bind_ok hvf
    obtain ⟨hl1,hhds⟩ := verifyChains_heads hvf
    cases decideVerifiedResult_advance (congrArg Prod.fst (Except.ok.inj h))
    refine ⟨answers,hans,hcst ▸ hsm,hl1 ▸ hinclusion,?_⟩
    intro c
    rw [hhds,hbs,Option.or_none]

theorem mem_l1Sources {answers : ChainID → Fetched (BlockID × BlockID)} :
    b ∈ l1Sources answers order ↔ ∃ c ∈ order,∃ head,answers c = .found (head,b) := by
  unfold l1Sources
  rw [mem_filterMap]
  refine exists_congr fun c => and_congr_right fun _ => ?_
  cases answers c with
  | found a => simp [Prod.ext_iff]
  | notFound => simp
  | failed => simp

theorem headsToCheck_eq {last : Option VerifiedResult} (ho : s.OverChains chains)
    (h : checkChainsReady s s.arrival = .ok answers) :
    headsToCheck s last (answers.map fun a => (a.1,a.2.2)) =
      (last.map VerifiedResult.l1Inclusion).toList ++ l1Sources s.readyAt s.headOrder := by
  refine congrArg _ (filterMap_congr ?_)
  intro c hc
  have hnd := ho.arrival.nodup_iff.mpr ho.nodup
  have hmem := ho.arrival.mem_iff.mpr (ho.headOrder.mem_iff.mp hc)
  obtain ⟨a,ha,hlk⟩ := lookup_answers (g := Prod.snd) hnd h hmem
  rw [hlk,ha]

theorem mem_l2Heads (ho : s.OverChains chains) (h : checkChainsReady s s.arrival = .ok answers)
    (hheads : ∀ c,r.l2Heads c = if c ∈ s.verifyOrder then
      (answers.map fun a => (a.1,a.2.1)).lookup c else none) {head l1 : BlockID}
    (hfound : s.readyAt c = .found (head,l1)) :
    (c,head) ∈ (r.toVerifiedResult chains).l2Heads ↔ c ∈ chains := by
  unfold Result.toVerifiedResult
  simp only [mem_filterMap,Option.map_eq_some_iff,Prod.mk.injEq]
  constructor
  · rintro ⟨c',hc,-,-,rfl,-⟩
    exact hc
  intro hc
  refine ⟨c,hc,head,?_,rfl,rfl⟩
  obtain ⟨a,ha,hlk⟩ := lookup_answers (g := Prod.fst) (ho.arrival.nodup_iff.mpr ho.nodup) h
    (ho.arrival.mem_iff.mpr hc)
  rw [hheads,if_pos (ho.verifyOrder.mem_iff.mpr hc),hlk]
  cases hfound.symm.trans ha
  rfl

/-- The stored block is the latest L1 block of the second answers: it covers the heads exactly where
that block was checked and no first source is above it. -/
theorem committed_covers_heads_iff {db' : VerifiedDB} {v : VerifiedResult}
    (ho : s.OverChains chains) (h : Commits s chains db first v db') :
    CoversHeads s db v ↔ ∃ b,LastHighest (l1Sources s.inclusionAt s.inclusionOrder) b ∧ b ≠ .zero ∧
      (b ∈ l1Sources s.readyAt chains ∨ ∃ last ∈ db.getLast?,last.l1Inclusion = b) ∧
      ∀ l1 ∈ l1Sources s.readyAt chains,l1.number ≤ b.number := by
  obtain ⟨obs,r,hrn,rfl,-⟩ := h
  obtain ⟨answers,hans,hsm,hinclusion,hhds⟩ := progressInterop_advance hrn
  rw [headsToCheck_eq ho hans] at hsm
  have hls := l1Inclusion_lastHighest hinclusion
  have hchecked : FoundCanonical s ((db.getLast?.map VerifiedResult.l1Inclusion).toList ++
        l1Sources s.readyAt s.headOrder) r.l1Inclusion ↔ r.l1Inclusion ≠ .zero ∧
      (r.l1Inclusion ∈ l1Sources s.readyAt chains ∨
        ∃ last ∈ db.getLast?,last.l1Inclusion = r.l1Inclusion) := by
    rw [foundCanonical_iff hsm,or_comm]
    simp [mem_l1Sources,ho.headOrder.mem_iff]
  have hab : (∀ c head l1,(c,head) ∈ (r.toVerifiedResult chains).l2Heads →
        s.readyAt c = .found (head,l1) → l1.number ≤ r.l1Inclusion.number) ↔
      ∀ l1 ∈ l1Sources s.readyAt chains,l1.number ≤ r.l1Inclusion.number := by
    constructor
    · intro h l1 hl1
      obtain ⟨c,hc,head,hfd⟩ := mem_l1Sources.mp hl1
      exact h c head l1 ((mem_l2Heads ho hans hhds hfd).mpr hc) hfd
    intro h c head l1 hmem hfd
    exact h l1 (mem_l1Sources.mpr ⟨c,(mem_l2Heads ho hans hhds hfd).mp hmem,head,hfd⟩)
  constructor
  · intro hcov
    obtain ⟨hne,hmem⟩ := hchecked.mp hcov.canonical
    refine ⟨r.l1Inclusion,hls.of_zero ?_,hne,hmem,hab.mp hcov.above⟩
    intro hnil
    rw [hnil] at hls
    exact hne (hls.unique ⟨[],[],rfl,by simp,by simp⟩)
  rintro ⟨b,hb,hne,hmem,hle⟩
  have hnil : l1Sources s.inclusionAt s.inclusionOrder ≠ [] := by
    rintro hnil
    obtain ⟨before,after,heq,-⟩ := hb
    simp [hnil] at heq
  cases hb.unique (hls.of_zero hnil)
  exact ⟨hchecked.mpr ⟨hne,hmem⟩,hab.mpr hle⟩

end

def twiceAsked (observed stored : BlockID) : RoundScript where
  pauseAtTimestamp := 0
  arrival := [1]
  readyAt := fun _ => .found (⟨.fill 32 7,10⟩,observed)
  headOrder := [1]
  canonical := fun _ => some ⟨observed.hash,observed.number,observed.hash,60⟩
  inclusionOrder := [1]
  inclusionAt := fun _ => .found (⟨.fill 32 7,10⟩,stored)
  verifyOrder := [1]
  invalidHead := fun _ _ => .ok none

def twiceAskedRecord (stored : BlockID) : VerifiedResult :=
  ⟨100,stored,[(1,⟨.fill 32 7,10⟩)]⟩

/-- Two chains, with a result before: chain 1 has its source at 5 and chain 2 at 4. -/
def bothAsked : RoundScript where
  pauseAtTimestamp := 0
  arrival := [2,1]
  readyAt := fun c => .found (⟨.fill 32 7,10⟩,if c = 1 then ⟨.fill 32 5,5⟩ else ⟨.fill 32 4,4⟩)
  headOrder := [1,2]
  canonical := fun k => [3,5,4][k]?.map fun n => ⟨.fill 32 n,n.toUInt64,.fill 32 0,60⟩
  inclusionOrder := [2,1]
  inclusionAt := fun c => .found (⟨.fill 32 7,10⟩,if c = 1 then ⟨.fill 32 5,5⟩ else ⟨.fill 32 4,4⟩)
  verifyOrder := [2,1]
  invalidHead := fun _ _ => .ok none

def bothBefore : VerifiedDB := [⟨99,⟨.fill 32 3,3⟩,[(1,⟨.fill 32 6,9⟩),(2,⟨.fill 32 6,9⟩)]⟩]

def bothRecord : VerifiedResult :=
  ⟨100,⟨.fill 32 5,5⟩,[(1,⟨.fill 32 7,10⟩),(2,⟨.fill 32 7,10⟩)]⟩

theorem committed_covers_heads_agreed :
    Commits bothAsked [1,2] bothBefore 99 bothRecord (bothBefore ++ [bothRecord]) ∧
      CoversHeads bothAsked bothBefore bothRecord := by
  have hcommits : Commits bothAsked [1,2] bothBefore 99 bothRecord (bothBefore ++ [bothRecord]) :=
    ⟨_,_,rfl,rfl,rfl⟩
  have hover : bothAsked.OverChains [1,2] :=
    ⟨by decide,.swap 1 2 [],.refl _,.swap 1 2 [],.swap 1 2 []⟩
  have hsources : ∀ l1 ∈ l1Sources bothAsked.readyAt [1,2],l1.number ≤ 5 := by decide +kernel
  refine ⟨hcommits,(committed_covers_heads_iff hover hcommits).mpr
    ⟨⟨.fill 32 5,5⟩,⟨[⟨.fill 32 4,4⟩],[],rfl,by simp,by simp⟩,by decide,.inl ?_,hsources⟩⟩
  exact mem_cons_self

/-- The L1 reorgs between the two questions: the block is stored with one that was never
checked, below the source it was observed with. -/
theorem reorg_between_passes_uncovered :
    Commits (twiceAsked ⟨.fill 32 5,5⟩ ⟨.fill 32 4,4⟩) [1] [] 100
        (twiceAskedRecord ⟨.fill 32 4,4⟩) [twiceAskedRecord ⟨.fill 32 4,4⟩] ∧
      ¬ CoversHeads (twiceAsked ⟨.fill 32 5,5⟩ ⟨.fill 32 4,4⟩) []
        (twiceAskedRecord ⟨.fill 32 4,4⟩) := by
  refine ⟨⟨_,_,rfl,rfl,rfl⟩,?_⟩
  intro h
  have hle := h.above 1 ⟨.fill 32 7,10⟩ ⟨.fill 32 5,5⟩ (mem_singleton_self _) rfl
  exact absurd hle (by decide)

end OpStack.Supernode
