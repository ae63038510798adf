import OpStack.Supernode.Superroot

namespace OpStack.Supernode
open Lib Eth List

theorem takeLower_cases (min b : BlockID) : takeLower min b = b ∨ takeLower min b = min := by
  unfold takeLower
  split
  · exact .inl rfl
  · exact .inr rfl

theorem takeLower_le (min b : BlockID) : (takeLower min b).number ≤ b.number := by
  unfold takeLower
  split
  · exact UInt64.le_refl _
  · rename_i h
    exact UInt64.not_lt.mp fun hlt => h (.inl hlt)

theorem foldl_takeLower_mem (min : BlockID) (bs : List BlockID) :
    bs.foldl takeLower min ∈ min::bs := by
  induction bs generalizing min with
  | nil => simp
  | cons b bs ih =>
    rw [foldl_cons]
    rcases mem_cons.mp (ih (takeLower min b)) with heq | hmem
    · rw [heq]
      rcases takeLower_cases min b with hb | hm
      · simp [hb]
      · simp [hm]
    · simp [hmem]

theorem foldl_takeLower_zero_mem {bs : List BlockID} (h : bs ≠ []) :
    bs.foldl takeLower .zero ∈ bs := by
  cases bs with
  | nil => exact absurd rfl h
  | cons b bs => exact foldl_takeLower_mem b bs

def ChainContainer.verifiedL1 (timestamp : UInt64) (chain : ChainContainer) : BlockID :=
  match chain.verifiedAt timestamp with
  | .found (_,l1) => l1
  | _ => .zero

section
variable {timestamp : UInt64} {chains : List (ChainID × ChainContainer)} {keccak256 : Bytes → Hash}

theorem aggregate_ok (agg : Aggregate) : (∃ agg',aggregate agg chains = .ok agg') ↔
    ∀ c ∈ chains,c.2.syncStatus.isSome = true := by
  induction chains generalizing agg with
  | nil => simp [aggregate]
  | cons c cs ih =>
    obtain ⟨chainID,chain⟩ := c
    rw [forall_mem_cons]
    cases hs : chain.syncStatus with
    | none => simp [aggregate,hs,orFail]
    | some status =>
      simp only [aggregate,hs,Option.isSome_some,true_and]
      exact ih _

def ChainContainer.Verifies (timestamp : UInt64) (chain : ChainContainer) : Prop :=
  ∃ l2 l1,chain.verifiedAt timestamp = .found (l2,l1) ∧
    (chain.outputRootAtL2BlockNumber l2.number).isSome = true

theorem collectVerified_found (v : Verified) (h : ∀ c ∈ chains,c.2.Verifies timestamp) :
    ∃ v',collectVerified timestamp v chains = .ok v' ∧ v'.notFound = v.notFound ∧
      v'.minVerifiedRequiredL1 = (chains.map (·.2.verifiedL1 timestamp)).foldl takeLower
        v.minVerifiedRequiredL1 := by
  induction chains generalizing v with
  | nil => exact ⟨v,rfl,rfl,rfl⟩
  | cons c cs ih =>
    obtain ⟨chainID,chain⟩ := c
    obtain ⟨hfst,hrs⟩ := forall_mem_cons.mp h
    obtain ⟨l2,l1,hat,hrt⟩ : chain.Verifies timestamp := hfst
    obtain ⟨root,hrt⟩ := Option.isSome_iff_exists.mp hrt
    have hl1 : chain.verifiedL1 timestamp = l1 := by simp only [ChainContainer.verifiedL1,hat]
    simp only [collectVerified,hat,hrt,map_cons,foldl_cons,hl1]
    exact ih _ hrs

theorem collectVerified_verifies {v v' : Verified}
    (h : collectVerified timestamp v chains = .ok v') (hfound : v'.notFound = false) :
    v.notFound = false ∧ ∀ c ∈ chains,c.2.Verifies timestamp := by
  induction chains generalizing v with
  | nil =>
    cases h
    exact ⟨hfound,by simp⟩
  | cons c cs ih =>
    obtain ⟨chainID,chain⟩ := c
    unfold collectVerified at h
    split at h
    · cases (ih h).1
    · cases h
    rename_i l2 l1 hat
    obtain ⟨root,hrt,hnx⟩ := of_bind_ok h
    have hrs := ih hnx
    refine ⟨hrs.1,forall_mem_cons.mpr ⟨⟨l2,l1,hat,?_⟩,hrs.2⟩⟩
    cases hout : chain.outputRootAtL2BlockNumber l2.number with
    | none => simp [hout,orFail] at hrt
    | some out => rfl

theorem optimisticOf_ok {chainID : ChainID} {chain : ChainContainer} :
    (∃ o,optimisticOf keccak256 timestamp chainID chain = .ok o) ↔
      chain.optimisticOutputAtTimestamp timestamp ≠ .failed ∧
        ∀ o,chain.optimisticOutputAtTimestamp timestamp = .found o →
          chain.optimisticAt timestamp ≠ .failed := by
  unfold optimisticOf
  cases chain.optimisticOutputAtTimestamp timestamp with
  | notFound => simp
  | failed => simp
  | found o => cases chain.optimisticAt timestamp <;> simp

theorem collectOptimistic_ok (optimistic : ChainID → Option OutputWithRequiredL1) :
    (∃ o,collectOptimistic keccak256 timestamp optimistic chains = .ok o) ↔
      ∀ c ∈ chains,∃ o,optimisticOf keccak256 timestamp c.1 c.2 = .ok o := by
  induction chains generalizing optimistic with
  | nil => simp [collectOptimistic]
  | cons c cs ih =>
    obtain ⟨chainID,chain⟩ := c
    rw [forall_mem_cons]
    cases ho : optimisticOf keccak256 timestamp chainID chain with
    | error e => simp [collectOptimistic,ho]
    | ok o =>
      cases o with
      | none =>
        simp only [collectOptimistic,ho,Except.ok.injEq,exists_eq',true_and]
        exact ih _
      | some output =>
        simp only [collectOptimistic,ho,Except.ok.injEq,exists_eq',true_and]
        exact ih _

end

structure ChainContainer.Serves (timestamp : UInt64) (chain : ChainContainer) : Prop where
  status : chain.syncStatus.isSome = true
  verified : chain.Verifies timestamp
  optimistic : chain.optimisticOutputAtTimestamp timestamp ≠ .failed ∧
    ∀ o,chain.optimisticOutputAtTimestamp timestamp = .found o →
      chain.optimisticAt timestamp ≠ .failed

namespace Superroot
variable {s : Superroot} {keccak256 : Bytes → Hash} {timestamp : UInt64} {r : s.Ranges}
  {c : ChainID × ChainContainer}

theorem atTimestamp_serves (r : s.Ranges) (h : ∀ c ∈ s.chains,c.2.Serves timestamp) :
    ∃ res data,s.atTimestamp keccak256 r timestamp = .ok res ∧ res.data = some data := by
  obtain ⟨agg,hagg⟩ := (aggregate_ok ⟨[],.zero,none,none,none⟩).mpr
    fun c hc => (h c (r.statuses_perm.mem_iff.mp hc)).status
  obtain ⟨v,hv,hfd,-⟩ := collectVerified_found ⟨.zero,[],false⟩
    fun c hc => (h c (r.verified_perm.mem_iff.mp hc)).verified
  obtain ⟨o,ho⟩ := (collectOptimistic_ok (fun _ => none)).mpr fun c hc => optimisticOf_ok.mpr
    (h c (r.optimistic_perm.mem_iff.mp hc)).optimistic
  refine ⟨response keccak256 timestamp agg v o,
    ⟨v.minVerifiedRequiredL1,some (newSuperV1 timestamp v.chainOutputs)⟩,?_,by simp [response,hfd]⟩
  unfold atTimestamp
  rw [hagg]
  rw [hv]
  rw [ho]
  rfl

/-- Only those chains give an answer with data, and its L1 block is the fold over theirs. -/
theorem atTimestamp_data {res : AtTimestampResponse} {data : SuperRootResponseData}
    (h : s.atTimestamp keccak256 r timestamp = .ok res) (hdata : res.data = some data) :
    (∀ c ∈ s.chains,c.2.Serves timestamp) ∧ data.verifiedRequiredL1
        = (r.verified.map (·.2.verifiedL1 timestamp)).foldl takeLower .zero := by
  obtain ⟨agg,hagg,h⟩ := of_bind_ok h
  obtain ⟨v,hv,h⟩ := of_bind_ok h
  obtain ⟨o,ho,h⟩ := of_bind_ok h
  cases h
  cases hfd : v.notFound with
  | true => simp [response,hfd] at hdata
  | false =>
    have hall := (collectVerified_verifies hv hfd).2
    obtain ⟨v',hv',-,hmin⟩ := collectVerified_found ⟨.zero,[],false⟩ hall
    cases hv.symm.trans hv'
    simp only [response,hfd,Bool.false_eq_true,↓reduceIte,Option.some.injEq] at hdata
    refine ⟨fun c hc => ?_,by rw [← hdata,← hmin]⟩
    exact {
      status := (aggregate_ok _).mp ⟨agg,hagg⟩ c (r.statuses_perm.mem_iff.mpr hc)
      verified := hall c (r.verified_perm.mem_iff.mpr hc)
      optimistic := optimisticOf_ok.mp
        ((collectOptimistic_ok _).mp ⟨o,ho⟩ c (r.optimistic_perm.mem_iff.mpr hc)) }

/-- The L1 block of an answer covers the chains: it is that of one of them and none needs a later
one. -/
def Covers (s : Superroot) (timestamp : UInt64) (l1 : BlockID) : Prop :=
  (∃ c ∈ s.chains,∃ l2,c.2.verifiedAt timestamp = .found (l2,l1)) ∧
    ∀ c ∈ s.chains,∀ l2 l1',c.2.verifiedAt timestamp = .found (l2,l1') → l1'.number ≤ l1.number

theorem verifiedL1_of_serves {chain : ChainContainer} (h : chain.Serves timestamp) :
    ∃ l2,chain.verifiedAt timestamp = .found (l2,chain.verifiedL1 timestamp) := by
  obtain ⟨l2,l1,hat,-⟩ := h.verified
  exact ⟨l2,by simp only [ChainContainer.verifiedL1,hat]⟩

theorem exists_range_last (hc : c ∈ s.chains) :
    ∃ (r : s.Ranges) (cs : List (ChainID × ChainContainer)),r.verified = cs ++ [c] := by
  obtain ⟨pre,post,hsp⟩ := append_of_mem hc
  refine ⟨⟨s.chains,pre ++ post ++ [c],s.chains,List.Perm.refl _,?_,List.Perm.refl _⟩,
    pre ++ post,rfl⟩
  rw [hsp]
  exact (perm_append_singleton c (pre ++ post)).trans perm_middle.symm

theorem required_le_last {cs : List (ChainID × ChainContainer)} (hr : r.verified = cs ++ [c]) :
    ((r.verified.map (·.2.verifiedL1 timestamp)).foldl takeLower .zero).number
      ≤ (c.2.verifiedL1 timestamp).number := by
  rw [hr,map_append,foldl_append]
  exact takeLower_le _ _

theorem required_mem (r : s.Ranges) (hne : s.chains ≠ []) : ∃ c ∈ s.chains,c.2.verifiedL1 timestamp
    = (r.verified.map (·.2.verifiedL1 timestamp)).foldl takeLower .zero := by
  have hver : r.verified.map (·.2.verifiedL1 timestamp) ≠ [] := by
    intro hnil
    apply hne
    rw [map_eq_nil_iff] at hnil
    exact (hnil ▸ r.verified_perm).nil_eq.symm
  obtain ⟨c,hc,heq⟩ := mem_map.mp (foldl_takeLower_zero_mem hver)
  exact ⟨c,r.verified_perm.mem_iff.mp hc,heq⟩

/-- The required L1 block covers every chain, in whatever order the maps are ranged over, exactly
when there are chains and all were verified at L1 blocks of one number. -/
theorem required_l1_covers_iff (s : Superroot) (keccak256 : Bytes → Hash) (timestamp : UInt64) :
    (∀ (r : s.Ranges) res data,s.atTimestamp keccak256 r timestamp = .ok res →
        res.data = some data →
        s.Covers timestamp data.verifiedRequiredL1 ∧
          ∀ (r' : s.Ranges) res' data',s.atTimestamp keccak256 r' timestamp = .ok res' →
            res'.data = some data' →
            data'.verifiedRequiredL1.number = data.verifiedRequiredL1.number) ↔
      ((∀ c ∈ s.chains,c.2.Serves timestamp) → s.chains ≠ [] ∧ ∀ c ∈ s.chains,∀ d ∈ s.chains,
          (c.2.verifiedL1 timestamp).number = (d.2.verifiedL1 timestamp).number) := by
  constructor
  · intro h hsrv
    have hcov (r : s.Ranges) : s.Covers timestamp
        ((r.verified.map (·.2.verifiedL1 timestamp)).foldl takeLower .zero) := by
      obtain ⟨res,data,hres,hda⟩ := @atTimestamp_serves _ keccak256 _ r hsrv
      rw [← (atTimestamp_data hres hda).2]
      exact (h r res data hres hda).1
    have hle : ∀ c ∈ s.chains,∀ d ∈ s.chains,
        (c.2.verifiedL1 timestamp).number ≤ (d.2.verifiedL1 timestamp).number := by
      intro c hc d hd
      obtain ⟨r,cs,hr⟩ := exists_range_last hd
      obtain ⟨l2,hat⟩ := verifiedL1_of_serves (hsrv c hc)
      exact UInt64.le_trans ((hcov r).2 c hc l2 _ hat) (required_le_last hr)
    refine ⟨fun hnil => ?_,fun c hc d hd => UInt64.le_antisymm (hle c hc d hd) (hle d hd c hc)⟩
    obtain ⟨c,hc,-⟩ := (hcov ⟨s.chains,s.chains,s.chains,.refl _,.refl _,.refl _⟩).1
    simp [hnil] at hc
  · intro h r res data hres hda
    obtain ⟨hsrv,hfo⟩ := atTimestamp_data hres hda
    obtain ⟨hne,hsm⟩ := h hsrv
    obtain ⟨c,hc,heq⟩ := @required_mem _ timestamp r hne
    rw [← hfo] at heq
    refine ⟨⟨⟨c,hc,heq ▸ verifiedL1_of_serves (hsrv c hc)⟩,fun d hd l2 l1 hat => ?_⟩,
      fun r' res' data' hres' hda' => ?_⟩
    · have hl1 : d.2.verifiedL1 timestamp = l1 := by simp only [ChainContainer.verifiedL1,hat]
      rw [← heq,← hl1]
      exact UInt64.le_of_eq (hsm d hd c hc)
    obtain ⟨d,hd,heq'⟩ := @required_mem _ timestamp r' hne
    rw [← (atTimestamp_data hres' hda').2] at heq'
    rw [← heq,← heq']
    exact hsm d hd c hc

end Superroot

def sampleChain (number l1 : UInt64) : ChainContainer where
  syncStatus := some none
  verifierCurrentL1s := []
  verifiedAt _ := .found (⟨.fill 32 1,number⟩,⟨.fill 32 2,l1⟩)
  outputRootAtL2BlockNumber _ := some (.fill 32 0)
  optimisticOutputAtTimestamp _ := .notFound
  optimisticAt _ := .notFound

def sampleSuperroot : Superroot where
  chains := [(10,sampleChain 100 1000),(420,sampleChain 200 1100)]
  distinct := by decide

def sampleRanges : sampleSuperroot.Ranges where
  statuses := sampleSuperroot.chains
  verified := sampleSuperroot.chains
  optimistic := sampleSuperroot.chains
  statuses_perm := .refl _
  verified_perm := .refl _
  optimistic_perm := .refl _

/-- The second chain needs L1 block 1100, but the answer requires only block 1000. -/
theorem required_l1_misses_chain :
    ∃ res data,sampleSuperroot.atTimestamp (fun _ => .fill 32 3) sampleRanges 123 = .ok res ∧
      res.data = some data ∧ data.verifiedRequiredL1 = ⟨.fill 32 2,1000⟩ ∧
      ∃ chain,(420,chain) ∈ sampleSuperroot.chains ∧
        chain.verifiedAt 123 = .found (⟨.fill 32 1,200⟩,⟨.fill 32 2,1100⟩) := by
  have hsrv : ∀ c ∈ sampleSuperroot.chains,c.2.Serves 123 := by
    intro c hc
    obtain ⟨number,l1,hch⟩ : ∃ number l1,c.2 = sampleChain number l1 := by
      rcases mem_pair.mp hc with rfl | rfl
      · exact ⟨100,1000,rfl⟩
      · exact ⟨200,1100,rfl⟩
    rw [hch]
    exact ⟨rfl,⟨_,_,rfl,rfl⟩,by simp [sampleChain],by simp [sampleChain]⟩
  obtain ⟨res,data,hres,hda⟩ := Superroot.atTimestamp_serves sampleRanges hsrv
  refine ⟨res,data,hres,hda,?_,sampleChain 200 1100,by simp [sampleSuperroot],rfl⟩
  rw [(Superroot.atTimestamp_data hres hda).2]
  rfl

def ChainContainer.currentL1s (chain : ChainContainer) : List BlockID :=
  ((chain.syncStatus.getD none).getD SyncStatus.zero).currentL1.id :: chain.verifierCurrentL1s

theorem ChainContainer.currentL1s_ne_nil (chain : ChainContainer) : chain.currentL1s ≠ [] :=
  cons_ne_nil _ _

def ChainContainer.lastL1 (chain : ChainContainer) : BlockID :=
  chain.currentL1s.getLast chain.currentL1s_ne_nil

section
variable {chains : List (ChainID × ChainContainer)} {agg agg' : Aggregate}
  {min b : BlockID} {bs : List BlockID}

theorem aggregate_currentL1 (h : aggregate agg chains = .ok agg') :
    agg'.currentL1 = (chains.flatMap (·.2.currentL1s)).foldl takeLower agg.currentL1 := by
  induction chains generalizing agg with
  | nil =>
    cases h
    rfl
  | cons c cs ih =>
    obtain ⟨answer,han,h⟩ := of_bind_ok h
    rw [ih h,flatMap_cons]
    simp [ChainContainer.currentL1s,of_orFail_ok han,foldl_cons]

/-- Among blocks without the marker the fold is never raised again. -/
theorem foldl_takeLower_le (hmin : min ≠ .zero) (hzero : .zero ∉ bs) :
    ∀ b ∈ min::bs,(bs.foldl takeLower min).number ≤ b.number := by
  induction bs generalizing min with
  | nil =>
    intro b hb
    rw [mem_singleton.mp hb]
    exact UInt64.le_refl _
  | cons x bs ih =>
    rw [mem_cons,not_or] at hzero
    have hnx : takeLower min x ≠ .zero := by
      rcases takeLower_cases min x with h | h
      · rw [h]
        exact fun heq => hzero.1 heq.symm
      · rw [h]
        exact hmin
    have hfo := ih hnx hzero.2
    have hfst := hfo _ mem_cons_self
    have hlow : (takeLower min x).number ≤ min.number := by
      unfold takeLower
      split
      · rename_i hlt
        exact UInt64.le_of_lt (hlt.resolve_right hmin)
      · exact UInt64.le_refl _
    intro b hb
    rcases mem_cons.mp hb with rfl | hb
    · exact UInt64.le_trans hfst hlow
    rcases mem_cons.mp hb with rfl | hb
    · exact UInt64.le_trans hfst (takeLower_le min b)
    · exact hfo b (mem_cons_of_mem _ hb)

theorem foldl_takeLower_genesis (hmin : min.number = 0) (hne : min ≠ .zero) :
    bs.foldl takeLower min = min := by
  induction bs with
  | nil => rfl
  | cons x bs ih =>
    have hkp : takeLower min x = min := by
      unfold takeLower
      rw [if_neg]
      rintro (hlt | heq)
      · rw [hmin] at hlt
        exact Nat.not_lt_zero _ hlt
      · exact hne heq
    rw [foldl_cons,hkp]
    exact ih

theorem foldl_takeLower_of_genesis (hb : b ∈ bs) (hnumber : b.number = 0)
    (hne : b ≠ .zero) : (bs.foldl takeLower min).number = 0 := by
  obtain ⟨pre,post,rfl⟩ := append_of_mem hb
  rw [foldl_append,foldl_cons]
  rcases takeLower_cases (pre.foldl takeLower min) b with h | h
  · rw [h,foldl_takeLower_genesis hnumber hne]
    exact hnumber
  -- then the minimum was such a block already
  have hle := takeLower_le (pre.foldl takeLower min) b
  have hz : (pre.foldl takeLower min).number = 0 := by
    rw [h,hnumber] at hle
    exact UInt64.toNat_inj.mp (Nat.le_zero.mp hle)
  have hmarker : pre.foldl takeLower min ≠ .zero := by
    intro heq
    have hb' : takeLower (pre.foldl takeLower min) b = b := by
      unfold takeLower
      rw [if_pos (.inr heq)]
    rw [h,heq] at hb'
    exact hne hb'.symm
  rw [h,foldl_takeLower_genesis hz hmarker]
  exact hz

theorem foldl_takeLower_last (chain : ChainContainer) :
    ∃ m,(bs ++ chain.currentL1s).foldl takeLower min = takeLower m chain.lastL1 := by
  refine ⟨(bs ++ chain.currentL1s.dropLast).foldl takeLower min,?_⟩
  have hsp : bs ++ chain.currentL1s = (bs ++ chain.currentL1s.dropLast) ++ [chain.lastL1] := by
    rw [append_assoc,ChainContainer.lastL1,dropLast_append_getLast]
  simp [hsp]

theorem takeLower_ne_zero (hb : b ≠ .zero) : takeLower min b ≠ .zero := by
  unfold takeLower
  split
  · exact hb
  · rename_i h
    exact fun heq => h (.inr heq)

end

def Superroot.currentL1s (s : Superroot) : List BlockID := s.chains.flatMap (·.2.currentL1s)

/-- The number is the lowest of those that the chains and their verifiers report. -/
def Superroot.LowestL1 (s : Superroot) (number : UInt64) : Prop :=
  (∃ b ∈ s.currentL1s,b.number = number) ∧ ∀ b ∈ s.currentL1s,number ≤ b.number

/-- The aggregate reports the lowest L1 block in every order of the chains, iff none reports the
zero block, or one a real block of number 0, or each chain the zero block last. -/
theorem aggregate_lowest_iff (s : Superroot) (hne : s.chains ≠ [])
    (hstatus : ∀ c ∈ s.chains,c.2.syncStatus.isSome = true) : (∀ order agg,order.Perm s.chains →
        aggregate ⟨[],.zero,none,none,none⟩ order = .ok agg →
        s.LowestL1 agg.currentL1.number) ↔
      .zero ∉ s.currentL1s ∨
      (∃ b ∈ s.currentL1s,b.number = 0 ∧ b ≠ .zero) ∨
      ∀ c ∈ s.chains,c.2.lastL1 = .zero := by
  have hmem : ∀ {order : List (ChainID × ChainContainer)},order.Perm s.chains → ∀ b,
      b ∈ order.flatMap (·.2.currentL1s) ↔ b ∈ s.currentL1s :=
    fun hpm b => (hpm.flatMap_right _).mem_iff
  constructor
  · intro h
    by_contra hcd
    rw [not_or,not_or,not_not] at hcd
    obtain ⟨hz,hgen,hls⟩ := hcd
    push Not at hgen hls
    obtain ⟨c,hc,hcl⟩ := hls
    obtain ⟨pre,post,hsp⟩ := append_of_mem hc
    have hpm : (pre ++ post ++ [c]).Perm s.chains := by
      rw [hsp]
      exact (perm_append_singleton c (pre ++ post)).trans perm_middle.symm
    obtain ⟨agg,hagg⟩ := (@aggregate_ok (pre ++ post ++ [c]) ⟨[],.zero,none,none,none⟩).mpr
      fun d hd => hstatus d (hpm.mem_iff.mp hd)
    have hfo := aggregate_currentL1 hagg
    have hlow := (h _ agg hpm hagg).2 _ hz
    have hnotzero : agg.currentL1 ≠ .zero := by
      rw [hfo,flatMap_append,flatMap_singleton]
      obtain ⟨m,hm⟩ := @foldl_takeLower_last .zero ((pre ++ post).flatMap (·.2.currentL1s)) c.2
      rw [hm]
      exact takeLower_ne_zero hcl
    have hin : agg.currentL1 ∈ s.currentL1s := by
      rw [hfo]
      apply (hmem hpm _).mp
      apply foldl_takeLower_zero_mem
      intro hnil
      have hno := (hmem hpm .zero).mpr hz
      rw [hnil] at hno
      exact absurd hno not_mem_nil
    refine hnotzero (hgen _ hin ?_)
    exact UInt64.toNat_inj.mp (Nat.le_zero.mp hlow)
  intro hcd order agg hpm hagg
  have hfo := aggregate_currentL1 hagg
  have hod : order.flatMap (·.2.currentL1s) ≠ [] := by
    intro hnil
    rw [flatMap_eq_nil_iff] at hnil
    obtain ⟨c,hc⟩ := exists_mem_of_ne_nil _ hne
    exact cons_ne_nil _ _ (hnil c (hpm.mem_iff.mpr hc))
  have hin : agg.currentL1 ∈ s.currentL1s := by
    rw [hfo]
    exact (hmem hpm _).mp (foldl_takeLower_zero_mem hod)
  refine ⟨⟨_,hin,rfl⟩,?_⟩
  have hbottom : agg.currentL1.number = 0 → ∀ b ∈ s.currentL1s,agg.currentL1.number ≤ b.number := by
    intro h b _
    rw [h]
    exact Nat.zero_le _
  rcases hcd with hz | ⟨b,hb,hnum,hbne⟩ | hls
  · intro b hb
    obtain ⟨x,bs,hbs⟩ := exists_cons_of_ne_nil hod
    have hxbs : ∀ y,y ∈ x::bs ↔ y ∈ s.currentL1s := by
      intro y
      rw [← hbs]
      exact hmem hpm y
    have hfst : takeLower .zero x = x := by simp [takeLower]
    rw [hfo,hbs,foldl_cons]
    rw [← hxbs,mem_cons,not_or] at hz
    exact foldl_takeLower_le (fun heq => hz.1 heq.symm) hz.2 b ((hxbs b).mpr hb)
  · apply hbottom
    rw [hfo]
    exact foldl_takeLower_of_genesis ((hmem hpm b).mpr hb) hnum hbne
  · apply hbottom
    have hordne : order ≠ [] := fun hnil => hod (by rw [hnil]; rfl)
    have hc := hls _ (hpm.mem_iff.mp (getLast_mem hordne))
    rw [hfo,← dropLast_append_getLast hordne,flatMap_append,flatMap_singleton]
    obtain ⟨m,hm⟩ := @foldl_takeLower_last .zero
      (order.dropLast.flatMap (·.2.currentL1s)) (order.getLast hordne).2
    rw [hm,hc]
    have hle := takeLower_le m .zero
    exact UInt64.toNat_inj.mp (Nat.le_zero.mp hle)

def chainAt (number : UInt64) (verifiers : List BlockID) : ChainContainer :=
  { sampleChain 0 0 with
    syncStatus := some (some { SyncStatus.zero with
      currentL1 := { L1BlockRef.zero with hash := .fill 32 1, number := number } })
    verifierCurrentL1s := verifiers }

def syncedChains (verifier : BlockID) : Superroot where
  chains := [(10,chainAt 1000 [verifier]),(420,chainAt 1100 [])]
  distinct := by simp

theorem synced_lowest : BlockID.zero ∉ (syncedChains ⟨.fill 32 2,900⟩).currentL1s ∧
    ∀ order agg,order.Perm (syncedChains ⟨.fill 32 2,900⟩).chains →
      aggregate ⟨[],BlockID.zero,none,none,none⟩ order = .ok agg →
      (syncedChains ⟨.fill 32 2,900⟩).LowestL1 agg.currentL1.number :=
  ⟨by decide,(aggregate_lowest_iff (syncedChains ⟨.fill 32 2,900⟩) (by simp [syncedChains])
    (by simp [syncedChains,chainAt])).mpr (.inl (by decide))⟩

/-- The verifier of the first chain has not processed any L1 block, but the aggregate is at the L1
block of the second chain. -/
theorem rewound_verifier_ignored :
    ∃ agg,aggregate ⟨[],.zero,none,none,none⟩ (syncedChains .zero).chains = .ok agg ∧
      agg.currentL1.number = 1100 ∧
      ¬ (syncedChains .zero).LowestL1 agg.currentL1.number := by
  obtain ⟨agg,hagg⟩ := (@aggregate_ok (syncedChains BlockID.zero).chains
    ⟨[],BlockID.zero,none,none,none⟩).mpr (by simp [syncedChains,chainAt])
  have hnum : agg.currentL1.number = 1100 := by
    rw [aggregate_currentL1 hagg]
    decide
  refine ⟨agg,hagg,hnum,?_⟩
  intro hlow
  have hle := hlow.2 BlockID.zero (by decide)
  rw [hnum] at hle
  exact absurd hle (by decide)

end OpStack.Supernode
