import OpStack.Proofs.CycleGraph

namespace OpStack.Supernode
open Lib Eth Interop Relation List DependencyNode Nat

namespace ChainMessages
variable {m : ChainMessages} {ts : UInt64} {count : ChainID → WithTop Nat} {a b : NodeRef}
  {em : ExecutingMessage}

/-! The order of all logs of the blocks, of which the graph has the executing ones only. -/

def IsLog (m : ChainMessages) (count : ChainID → WithTop Nat) (x : ChainID × Nat) : Prop :=
  x.1 ∈ m.entries.map Prod.fst ∧ x.2 < count x.1

def position (x : NodeRef) : ChainID × Nat := (x.1,x.2.toNat)

inductive LogAfter (m : ChainMessages) (ts : UInt64) (count : ChainID → WithTop Nat) :
    ChainID × Nat → ChainID × Nat → Prop
  | next (c : ChainID) (i : Nat) (h : m.IsLog count (c,i + 1)) : LogAfter m ts count (c,i + 1) (c,i)
  | refers (x : NodeRef) (em : ExecutingMessage) (h : m.ExecutesAt ts x em)
      (hx : m.IsLog count (position x)) (hy : m.IsLog count (em.chainID,em.logIdx.toNat)) :
      LogAfter m ts count (position x) (em.chainID,em.logIdx.toNat)

structure InRange (m : ChainMessages) (ts : UInt64) (count : ChainID → WithTop Nat) : Prop where
  executes : ∀ x em,m.ExecutesAt ts x em → x.2.toNat < count x.1
  refers : ∀ x em,m.ExecutesAt ts x em → em.chainID ∈ m.entries.map Prod.fst →
    em.logIdx.toNat < count em.chainID

theorem ExecutesAt.chain (h : m.ExecutesAt ts a em) : a.1 ∈ m.entries.map Prod.fst := by
  obtain ⟨-,ems,he,-⟩ := h
  exact mem_map.mpr ⟨_,he,rfl⟩

theorem ExecutesAt.latest (h : m.ExecutesAt ts a em) : m.Latest ts a.1 a.2.toNat a :=
  ⟨rfl,⟨em,h⟩,le_rfl,fun _ _ _ hle => hle⟩

variable {c : ChainID} {k : Nat} {x y : ChainID × Nat}

theorem latest_unique (ha : m.Latest ts c k a) (hb : m.Latest ts c k b) : a = b := by
  obtain ⟨em,hem⟩ := ha.executes
  obtain ⟨em',hem'⟩ := hb.executes
  have hac : a = (c,a.2) := Prod.ext ha.chain rfl
  have hbc : b = (c,b.2) := Prod.ext hb.chain rfl
  have hle := hb.last a.2 em (hac ▸ hem) ha.le
  have hge := ha.last b.2 em' (hbc ▸ hem') hb.le
  rw [hac,hbc,UInt32.toNat_inj.mp (le_antisymm hle hge)]

/-- The log of a chain either executes a message or has the latest one of the log before it. -/
theorem latest_succ : (∃ a,position a = (c,k + 1) ∧ ∃ em,m.ExecutesAt ts a em) ∨
    ∀ b,m.Latest ts c k b ↔ m.Latest ts c (k + 1) b := by
  by_cases hex : ∃ i em,i.toNat = k + 1 ∧ m.ExecutesAt ts (c,i) em
  · obtain ⟨i,em,hi,hem⟩ := hex
    exact .inl ⟨(c,i),Prod.ext rfl hi,em,hem⟩
  have hlw : ∀ i em,m.ExecutesAt ts (c,i) em → i.toNat ≤ k + 1 → i.toNat ≤ k := by
    intro i em hem hle
    have hne : i.toNat ≠ k + 1 := fun he => hex ⟨i,em,he,hem⟩
    omega
  refine .inr fun b => ⟨fun h => ?_,fun h => ?_⟩
  · exact ⟨h.chain,h.executes,le_succ_of_le h.le,
      fun i em hem hle => h.last i em hem (hlw i em hem hle)⟩
  obtain ⟨em,hem⟩ := h.executes
  have hbc : b = (c,b.2) := Prod.ext h.chain rfl
  exact ⟨h.chain,h.executes,hlw b.2 em (hbc ▸ hem) h.le,
    fun i em hem hle => h.last i em hem (le_succ_of_le hle)⟩

theorem exists_latest {i : UInt32} (h : m.ExecutesAt ts (c,i) em) (hle : i.toNat ≤ k) :
    ∃ b,m.Latest ts c k b := by
  induction k with
  | zero =>
    have hz : i.toNat = 0 := by omega
    exact ⟨(c,i),hz ▸ h.latest⟩
  | succ k ih =>
    rcases @latest_succ m ts c k with ⟨a,ha,em',hem'⟩ | hsm
    · obtain ⟨hc,hk⟩ := Prod.mk.inj ha
      exact ⟨a,hc ▸ hk ▸ hem'.latest⟩
    by_cases hk : i.toNat ≤ k
    · obtain ⟨b,hb⟩ := ih hk
      exact ⟨b,(hsm b).mp hb⟩
    · have heq : i.toNat = k + 1 := by omega
      exact ⟨(c,i),heq ▸ h.latest⟩

theorem logAfter_down {i j : Nat} (h : m.IsLog count (c,i)) (hle : j ≤ i) :
    ReflTransGen (m.LogAfter ts count) (c,i) (c,j) := by
  induction i with
  | zero => rw [le_zero.mp hle]
  | succ i ih =>
    rcases eq_or_lt_of_le hle with rfl | hlt
    · exact .refl
    have hlog : m.IsLog count (c,i) := ⟨h.1,lt_trans (WithTop.coe_lt_coe.mpr (lt_succ_self i)) h.2⟩
    exact .head (.next c i h) (ih hlog (by omega))

theorem depends_logAfter (hin : m.InRange ts count) (h : m.Depends ts a b) :
    TransGen (m.LogAfter ts count) (position a) (position b) := by
  obtain ⟨em,hem,hdep⟩ := h
  have hlog : m.IsLog count (position a) := ⟨hem.chain,hin.executes a em hem⟩
  rcases hdep with ⟨k,hk,hlat⟩ | hlat
  · have ha : position a = (a.1,k + 1) := Prod.ext rfl hk
    have hb : position b = (a.1,b.2.toNat) := Prod.ext hlat.chain rfl
    rw [ha] at hlog ⊢
    rw [hb]
    have hbe : m.IsLog count (a.1,k) :=
      ⟨hlog.1,lt_trans (WithTop.coe_lt_coe.mpr (lt_succ_self k)) hlog.2⟩
    exact .head' (.next a.1 k hlog) (logAfter_down hbe hlat.le)
  · have hb : position b = (em.chainID,b.2.toNat) := Prod.ext hlat.chain rfl
    obtain ⟨em',hem'⟩ := hlat.executes
    have hch := hlat.chain ▸ hem'.chain
    have hy : m.IsLog count (em.chainID,em.logIdx.toNat) := ⟨hch,hin.refers a em hem hch⟩
    rw [hb]
    exact .head' (.refers a em hem hlog hy) (logAfter_down hy hlat.le)

/-- A step down the logs is one of the graph, or stays at the same executing log. -/
theorem logAfter_depends (h : m.LogAfter ts count x y) (hb : m.Latest ts y.1 y.2 b) :
    ∃ a,m.Latest ts x.1 x.2 a ∧ (m.Depends ts a b ∨ a = b ∧ x.1 = y.1 ∧ y.2 < x.2) := by
  cases h with
  | next c i hlog =>
    rcases @latest_succ m ts c i with ⟨a,ha,em,hem⟩ | hsm
    · obtain ⟨hc,hi⟩ := Prod.mk.inj ha
      refine ⟨a,hc ▸ hi ▸ hem.latest,.inl ⟨em,hem,.inl ⟨i,hi,?_⟩⟩⟩
      rw [hc]
      exact hb
    · exact ⟨b,(hsm b).mp hb,.inr ⟨rfl,rfl,lt_succ_self i⟩⟩
  | refers x em hem hx hy => exact ⟨x,hem.latest,.inl ⟨em,hem,.inr hb⟩⟩

theorem logsAfter_depends (h : TransGen (m.LogAfter ts count) x y) (hb : m.Latest ts y.1 y.2 b) :
    ∃ a,m.Latest ts x.1 x.2 a ∧ (TransGen (m.Depends ts) a b ∨ a = b ∧ x.1 = y.1 ∧ y.2 < x.2) := by
  induction h using TransGen.head_induction_on with
  | single hst =>
    obtain ⟨a,ha,hdep⟩ := logAfter_depends hst hb
    exact ⟨a,ha,hdep.imp_left .single⟩
  | head hst _ ih =>
    obtain ⟨c,hc,hrs⟩ := ih
    obtain ⟨a,ha,hdep⟩ := logAfter_depends hst hc
    refine ⟨a,ha,?_⟩
    rcases hdep with hdep | ⟨rfl,hch,hlt⟩
    · rcases hrs with hrs | ⟨rfl,-,-⟩
      · exact .inl (.head hdep hrs)
      · exact .inl (.single hdep)
    rcases hrs with hrs | ⟨rfl,hch',hlt'⟩
    · exact .inl hrs
    · exact .inr ⟨rfl,hch.trans hch',hlt'.trans hlt⟩

theorem depends_iff_logAfter (hin : m.InRange ts count) (ha : m.ExecutesAt ts a em)
    {em' : ExecutingMessage} (hb : m.ExecutesAt ts b em') :
    TransGen (m.Depends ts) a b ↔ TransGen (m.LogAfter ts count) (position a) (position b) := by
  constructor
  · intro h
    exact h.lift' position fun _ _ => depends_logAfter hin
  intro h
  obtain ⟨a',ha',hdep⟩ := logsAfter_depends h hb.latest
  cases latest_unique ha' ha.latest
  rcases hdep with hdep | ⟨rfl,-,hlt⟩
  · exact hdep
  · exact absurd hlt (lt_irrefl _)

theorem logsAfter_down (hnone : ∀ i em,m.ExecutesAt ts (x.1,i) em → ¬ i.toNat ≤ x.2)
    (h : TransGen (m.LogAfter ts count) x y) : y.1 = x.1 ∧ y.2 < x.2 := by
  induction h with
  | single hst =>
    cases hst with
    | next c i hlog => exact ⟨rfl,lt_succ_self i⟩
    | refers z em hem hz hy => exact absurd le_rfl (hnone z.2 em hem)
  | tail _ hst ih =>
    cases hst with
    | next c i hlog => exact ⟨ih.1,lt_trans (lt_succ_self i) ih.2⟩
    | refers z em hem hz hy =>
      obtain ⟨hch,hlt⟩ := ih
      refine absurd (le_of_lt hlt) (hnone z.2 em ?_)
      rw [← hch]
      exact hem

theorem exists_cycle_iff (hin : m.InRange ts count) :
    (∃ x,OnCycle (m.LogAfter ts count) x) ↔ ∃ a,OnCycle (m.Depends ts) a := by
  constructor
  · rintro ⟨x,hx⟩
    have hex : ∃ i em,m.ExecutesAt ts (x.1,i) em ∧ i.toNat ≤ x.2 := by
      by_contra hno
      push Not at hno
      exact absurd (logsAfter_down (fun i em hem => not_le.mpr (hno i em hem)) hx).2 (lt_irrefl _)
    obtain ⟨i,em,hem,hle⟩ := hex
    obtain ⟨b,hb⟩ := exists_latest hem hle
    obtain ⟨a,ha,hdep⟩ := logsAfter_depends hx hb
    cases latest_unique ha hb
    rcases hdep with hdep | ⟨-,-,hlt⟩
    · exact ⟨_,hdep⟩
    · exact absurd hlt (lt_irrefl _)
  · rintro ⟨a,ha⟩
    have hlift : ∀ a b,m.Depends ts a b → TransGen (m.LogAfter ts count) (position a) (position b) :=
      fun _ _ => depends_logAfter hin
    exact ⟨position a,.lift' position hlift a a ha⟩

theorem onCycle_executes (h : OnCycle (m.Depends ts) a) : ∃ em,m.ExecutesAt ts a em := by
  obtain ⟨c,⟨em,hem,-⟩,-⟩ := TransGen.head'_iff.mp h
  exact ⟨em,hem⟩

theorem onCycle_iff_logAfter (hin : m.InRange ts count) (ha : m.ExecutesAt ts a em) :
    OnCycle (m.Depends ts) a ↔ OnCycle (m.LogAfter ts count) (position a) :=
  depends_iff_logAfter hin ha ha

variable {second : m.SecondPass ts}

theorem edge_eq : (m.buildCycleGraph ts second).Edge = m.Depends ts := by
  funext a b
  exact propext edge_iff

theorem graph_peeled : (m.buildCycleGraph ts second).map (peeled fun _ => false)
    = m.buildCycleGraph ts second := by
  refine (map_congr_left fun n hn => ?_).trans (map_id _)
  obtain ⟨x,em,-,rfl⟩ := mem_graph.mp hn
  simp [peeled,withEdges,newNodeAt]

theorem checkCycle_eq_peel (fuel : Nat) (g : DependencyGraph) :
    checkCycle (fuel + 1) g = peel (fuel + 1) g := by
  unfold checkCycle
  split
  · rename_i hemp
    rw [isEmpty_iff.mp hemp]
    rfl
  · rfl

/-- The check of the graph ends and leaves the executing logs that a cycle leads to. -/
theorem checkCycle_ends {fuel : Nat} (hfuel : (m.nodes ts).length < fuel) :
    ∃ g err,checkCycle fuel (m.buildCycleGraph ts second) = some (g,err) ∧
      (err = true ↔ ∃ a,OnCycle (m.Depends ts) a) ∧
      ∀ c,c ∈ collectCycleParticipants g ↔
        ∃ i em,m.ExecutesAt ts (c,i) em ∧ AfterCycle (m.Depends ts) (c,i) := by
  have hct : (m.buildCycleGraph ts second).countP (fun _ => !false) < fuel := by
    apply lt_of_le_of_lt (countP_le_length)
    rw [buildCycleGraph_eq,length_map]
    exact hfuel
  obtain ⟨final,hpeel,hfn⟩ := @peel_ends (m.buildCycleGraph ts second) (fun _ => false)
    graph_linked graph_unique fuel (by simp) hct
  rw [graph_peeled,edge_eq] at *
  obtain ⟨fuel,rfl⟩ : ∃ k,fuel = k + 1 := ⟨fuel - 1,by omega⟩
  refine ⟨_,_,(checkCycle_eq_peel fuel _).trans hpeel,?_,fun c => ?_⟩
  · rw [any_eq_true]
    constructor
    · rintro ⟨n,hn,hlf⟩
      obtain ⟨a,ha,-⟩ := (hfn n hn).mp (by simpa using hlf)
      exact ⟨a,ha⟩
    rintro ⟨a,ha⟩
    obtain ⟨em,hem⟩ := onCycle_executes ha
    have hn := hem.mem_graph second
    exact ⟨_,hn,by simpa using (hfn _ hn).mpr ha.afterCycle⟩
  unfold collectCycleParticipants
  rw [mem_map]
  constructor
  · rintro ⟨p,hp,rfl⟩
    obtain ⟨hp,hlf⟩ := mem_filter.mp hp
    obtain ⟨n,hn,rfl⟩ := mem_map.mp hp
    have haf := (hfn n hn).mp (by simpa [peeled] using hlf)
    obtain ⟨x,em,hem,rfl⟩ := mem_graph.mp hn
    exact ⟨x.2,em,hem,haf⟩
  · rintro ⟨i,em,hem,haf⟩
    have hn := hem.mem_graph second
    refine ⟨_,mem_filter.mpr ⟨mem_map_of_mem hn,?_⟩,rfl⟩
    simpa [peeled] using (hfn _ hn).mpr haf

/-- The check fails exactly when the logs have a cycle, and then blames exactly the chains with an
executing message on a cycle of the graph. -/
def BlamesCycles (m : ChainMessages) (ts : UInt64) (count : ChainID → WithTop Nat)
    (second : m.SecondPass ts) : Prop :=
  ∀ fuel,(m.nodes ts).length < fuel →
    ∃ g err,checkCycle fuel (m.buildCycleGraph ts second) = some (g,err) ∧
      (err = true ↔ ∃ x,OnCycle (m.LogAfter ts count) x) ∧
      (err = true → ∀ c,c ∈ collectCycleParticipants g ↔ ∃ i em,m.ExecutesAt ts (c,i) em ∧
          OnCycle (m.buildCycleGraph ts second).Edge (c,i))

/-- The check keeps this promise exactly when every chain with an executing message that a cycle
comes after has one on a cycle itself. -/
theorem blames_cycles_iff (m : ChainMessages) (ts : UInt64) (count : ChainID → WithTop Nat)
    (second : m.SecondPass ts) (hin : m.InRange ts count) : m.BlamesCycles ts count second ↔
      ∀ a b em em',m.ExecutesAt ts a em → m.ExecutesAt ts b em' →
        OnCycle (m.LogAfter ts count) (position a) →
        TransGen (m.LogAfter ts count) (position a) (position b) →
        ∃ i em,m.ExecutesAt ts (b.1,i) em ∧ OnCycle (m.LogAfter ts count) (b.1,i.toNat) := by
  constructor
  · intro h a b em em' ha hb hcyc hab
    obtain ⟨g,err,hck,-,hblames⟩ := h _ (lt_succ_self _)
    obtain ⟨g',err',hck',herr,hlf⟩ := @checkCycle_ends m ts second _ (lt_succ_self _)
    cases hck.symm.trans hck'
    have hcyc' := (onCycle_iff_logAfter hin ha).mpr hcyc
    have haf : AfterCycle (m.Depends ts) b :=
      ⟨a,hcyc',((depends_iff_logAfter hin ha hb).mpr hab).to_reflTransGen⟩
    have hblamed := (hlf b.1).mpr ⟨b.2,em',hb,haf⟩
    obtain ⟨i,em₁,hi,hon⟩ := (hblames (herr.mpr ⟨a,hcyc'⟩) b.1).mp hblamed
    rw [edge_eq] at hon
    exact ⟨i,em₁,hi,(onCycle_iff_logAfter hin hi).mp hon⟩
  intro h fuel hfuel
  obtain ⟨g,err,hck,herr,hlf⟩ := @checkCycle_ends m ts second _ hfuel
  refine ⟨g,err,hck,herr.trans (exists_cycle_iff hin).symm,fun _ c => ?_⟩
  rw [hlf,edge_eq]
  constructor
  · rintro ⟨i,em,hi,a,hcyc,hab⟩
    obtain ⟨em₁,ha⟩ := onCycle_executes hcyc
    rcases reflTransGen_iff_eq_or_transGen.mp hab with heq | htrans
    · cases heq
      exact ⟨i,em,hi,hcyc⟩
    obtain ⟨j,em₂,hj,hon⟩ := h a (c,i) em₁ em ha hi ((onCycle_iff_logAfter hin ha).mp hcyc)
      ((depends_iff_logAfter hin ha hi).mp htrans)
    exact ⟨j,em₂,hj,(onCycle_iff_logAfter hin hj).mpr hon⟩
  · rintro ⟨i,em,hi,hon⟩
    exact ⟨i,em,hi,hon.afterCycle⟩

end ChainMessages

open ChainMessages

def sampleMessage (chainID : ChainID) (logIdx : UInt32) : ExecutingMessage :=
  ⟨chainID,0,logIdx,100,.fill 32 0⟩

def mutualMessages : ChainMessages where
  entries := [(1,[(0,some (sampleMessage 2 0))]),(2,[(0,some (sampleMessage 1 0))])]
  chains_nodup := by decide
  logs_nodup := by decide

theorem mutual_nodup : ([1,2] : List ChainID).Nodup := by decide

def mutualPass : mutualMessages.SecondPass 100 where
  order := [1,2]
  nodup := mutual_nodup
  mem_iff := by simp [nodes,newNode,mutualMessages,sampleMessage,eq_comm]

theorem inRange_top (m : ChainMessages) (ts : UInt64) : m.InRange ts fun _ => ⊤ :=
  ⟨fun _ _ _ => WithTop.coe_lt_top _,fun _ _ _ _ => WithTop.coe_lt_top _⟩

theorem mutual_blames : mutualMessages.BlamesCycles 100 (fun _ => ⊤) mutualPass := by
  have h₁ : mutualMessages.ExecutesAt 100 (1,0) (sampleMessage 2 0) :=
    ⟨rfl,_,mem_cons_self,mem_cons_self⟩
  have h₂ : mutualMessages.ExecutesAt 100 (2,0) (sampleMessage 1 0) :=
    ⟨rfl,_,mem_cons_of_mem _ mem_cons_self,mem_cons_self⟩
  have h₁₂ : mutualMessages.Depends 100 (1,0) (2,0) := ⟨_,h₁,.inr h₂.latest⟩
  have h₂₁ : mutualMessages.Depends 100 (2,0) (1,0) := ⟨_,h₂,.inr h₁.latest⟩
  have hin := inRange_top mutualMessages 100
  refine (ChainMessages.blames_cycles_iff mutualMessages 100 (fun _ => ⊤) mutualPass hin).mpr ?_
  intro a b em em' _ hb _ _
  have hch := hb.chain
  rcases mem_pair.mp hch with hone | htwo
  · rw [hone]
    exact ⟨0,_,h₁,(onCycle_iff_logAfter hin h₁).mp (.head h₁₂ (.single h₂₁))⟩
  · rw [htwo]
    exact ⟨0,_,h₂,(onCycle_iff_logAfter hin h₂).mp (.head h₂₁ (.single h₁₂))⟩

/-- The cycle between the first two chains depends on a message of the third, which depends on
nothing but a log of the fourth. -/
def bystanderMessages : ChainMessages where
  entries := [(1,[(0,some (sampleMessage 2 1))]),
    (2,[(0,some (sampleMessage 3 0)),(1,some (sampleMessage 1 0))]),
    (3,[(0,some (sampleMessage 4 0))])]
  chains_nodup := by decide
  logs_nodup := by decide

def bystanderPass : bystanderMessages.SecondPass 100 where
  order := [1,2,3]
  nodup := by decide
  mem_iff := by simp [nodes,newNode,bystanderMessages,sampleMessage,eq_comm]

theorem bystander_blamed :
    ∃ g,checkCycle 5 (bystanderMessages.buildCycleGraph 100 bystanderPass) = some (g,true) ∧
      3 ∈ collectCycleParticipants g ∧
      ¬ ∃ i em,bystanderMessages.ExecutesAt 100 (3,i) em ∧
        OnCycle (bystanderMessages.buildCycleGraph 100 bystanderPass).Edge (3,i) := by
  have h₁ : bystanderMessages.ExecutesAt 100 (1,0) (sampleMessage 2 1) :=
    ⟨rfl,_,mem_cons_self,mem_cons_self⟩
  have h₂ : bystanderMessages.ExecutesAt 100 (2,0) (sampleMessage 3 0) :=
    ⟨rfl,_,mem_cons_of_mem _ mem_cons_self,mem_cons_self⟩
  have h₂' : bystanderMessages.ExecutesAt 100 (2,1) (sampleMessage 1 0) :=
    ⟨rfl,_,mem_cons_of_mem _ mem_cons_self,mem_cons_of_mem _ mem_cons_self⟩
  have h₃ : bystanderMessages.ExecutesAt 100 (3,0) (sampleMessage 4 0) :=
    ⟨rfl,_,mem_cons_of_mem _ (mem_cons_of_mem _ mem_cons_self),mem_cons_self⟩
  have hcyc : OnCycle (bystanderMessages.Depends 100) (2,1) :=
    .head ⟨_,h₂',.inr h₁.latest⟩ (.single ⟨_,h₁,.inr h₂'.latest⟩)
  have haf : AfterCycle (bystanderMessages.Depends 100) (3,0) :=
    ⟨(2,1),hcyc,.head ⟨_,h₂',.inl ⟨0,rfl,h₂.latest⟩⟩ (.single ⟨_,h₂,.inr h₃.latest⟩)⟩
  obtain ⟨g,err,hck,herr,hblamed⟩ :=
    @checkCycle_ends bystanderMessages 100 bystanderPass 5 (by decide)
  have htrue := herr.mpr ⟨_,hcyc⟩
  subst htrue
  refine ⟨g,hck,(hblamed 3).mpr ⟨0,_,h₃,haf⟩,?_⟩
  rintro ⟨i,em,hem,hon⟩
  rw [edge_eq] at hon
  obtain ⟨b,hdep,-⟩ := TransGen.head'_iff.mp hon
  obtain ⟨em',⟨-,ems,hems,hen⟩,hlat⟩ := hdep
  have hthree : ems = [(0,some (sampleMessage 4 0))] := by simpa [bystanderMessages] using hems
  rw [hthree,mem_singleton] at hen
  cases hen
  rcases hlat with ⟨k,hk,-⟩ | hlat
  · cases hk
  obtain ⟨em,hem⟩ := hlat.executes
  have hfour := hem.chain
  rw [hlat.chain] at hfour
  revert hfour
  decide

end OpStack.Supernode
