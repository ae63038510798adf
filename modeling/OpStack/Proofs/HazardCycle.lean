import OpStack.Proofs.HazardSet
import OpStack.Interop.HazardCycle

namespace OpStack.Interop
open Lib Eth KahnGraph List UInt32 Relation

/-! The graph of some logs: what its edges are, and when it is refused. -/

variable {roots : List LogNode} {g g' : LogGraph} {l : ChainLogs} {hazards : HazardEntries}
  {logCounts : List (ChainID × UInt32)} {c : ChainID} {i : UInt32} {m : ExecutingMessage}
  {msgs : ExecMsgs} {logs : List ChainLogs} {ranges : MapRanges}

def SeqEdge (c : ChainID) (k : Nat) (e : LogNode × LogNode) : Prop :=
  ∃ i,0 < i ∧ i < k ∧ e = ((c,.ofNat (i - 1)),(c,.ofNat i))

theorem range_addLogs (c : ChainID) (k : Nat) (hk : k ≤ 2 ^ 32) (hbuilt : Built roots g)
    (hfresh : ∀ a b,(a,b) ∈ g.outgoingEdges → b.1 ≠ c) :
    Built (if k = 0 then roots else (c,0)::roots) ((range k).foldl (addLog c) g) ∧
    ∀ e,e ∈ ((range k).foldl (addLog c) g).outgoingEdges ↔ e ∈ g.outgoingEdges ∨ SeqEdge c k e := by
  induction k with
  | zero =>
    refine ⟨hbuilt,fun e => ⟨.inl,?_⟩⟩
    rintro (he | ⟨i,_,hi,_⟩)
    · exact he
    · exact absurd hi (Nat.not_lt_zero i)
  | succ k ih =>
    obtain ⟨hbuilt',hed⟩ := ih (by omega)
    rw [range_succ,foldl_append,foldl_cons,foldl_nil,addLog]
    by_cases hk0 : k = 0
    · subst hk0
      refine ⟨?_,?_⟩
      · apply hbuilt'.addRoot
        intro b hb
        exact hfresh b (c,0) hb rfl
      intro e
      constructor
      · exact .inl
      rintro (he | ⟨i,hpos,hi,_⟩)
      · exact he
      · omega
    rw [if_neg hk0] at hbuilt'
    rw [if_neg hk0]
    refine ⟨hbuilt'.addEdge _ _,?_⟩
    intro e
    rw [addEdge_outgoingEdges,mem_cons,hed]
    constructor
    · rintro (rfl | he | ⟨i,hpos,hi,rfl⟩)
      · exact .inr ⟨k,by omega,by omega,rfl⟩
      · exact .inl he
      · exact .inr ⟨i,hpos,by omega,rfl⟩
    rintro (he | ⟨i,hpos,hi,rfl⟩)
    · exact .inr (.inl he)
    by_cases hik : i = k
    · exact .inl (by rw [hik])
    · exact .inr (.inr ⟨i,hpos,by omega,rfl⟩)

theorem addLogs_built (hbuilt : Built roots g)
    (hfresh : ∀ a b,(a,b) ∈ g.outgoingEdges → b.1 ≠ l.chainID) :
    Built (if l.logCount.toNat = 0 then roots else (l.chainID,0)::roots) (addLogs g l) ∧
    ∀ e,e ∈ (addLogs g l).outgoingEdges ↔
      e ∈ g.outgoingEdges ∨ SeqEdge l.chainID l.logCount.toNat e :=
  range_addLogs l.chainID l.logCount.toNat (Nat.le_of_lt l.logCount.toNat_lt) hbuilt hfresh

def firstLogs (logs : List ChainLogs) : List LogNode :=
  (logs.filter fun l => l.logCount.toNat ≠ 0).map fun l => (l.chainID,0)

theorem foldl_addLogs (logs : List ChainLogs) (hnodup : (logs.map ChainLogs.chainID).Nodup)
    (hbuilt : Built roots g)
    (hfresh : ∀ a b,(a,b) ∈ g.outgoingEdges → b.1 ∉ logs.map ChainLogs.chainID) :
    ∃ roots',(∀ a,a ∈ roots' ↔ a ∈ roots ∨ a ∈ firstLogs logs) ∧
      Built roots' (logs.foldl addLogs g) ∧
      ∀ e,e ∈ (logs.foldl addLogs g).outgoingEdges ↔
        e ∈ g.outgoingEdges ∨ ∃ l ∈ logs,SeqEdge l.chainID l.logCount.toNat e := by
  induction logs generalizing g roots with
  | nil => exact ⟨roots,by simp [firstLogs],hbuilt,by simp⟩
  | cons l logs ih =>
    obtain ⟨hl,hnodup⟩ := nodup_cons.mp hnodup
    obtain ⟨hbuilt₁,hed₁⟩ := @addLogs_built roots g l hbuilt (by
      intro a b hab heq
      exact hfresh a b hab (heq ▸ mem_cons_self))
    obtain ⟨roots',hrts',hbuilt',hed'⟩ := ih hnodup hbuilt₁ (by
      intro a b hab hb
      rcases (hed₁ _).mp hab with hab | ⟨i,_,_,heq⟩
      · exact hfresh a b hab (mem_cons_of_mem _ hb)
      rw [Prod.mk.injEq] at heq
      rw [heq.2] at hb
      exact hl hb)
    refine ⟨roots',?_,hbuilt',?_⟩
    · intro a
      rw [hrts']
      by_cases hz : l.logCount.toNat = 0
      · simp [firstLogs,hz]
      simp only [hz,↓reduceIte,firstLogs,mem_cons,ne_eq,not_false_eq_true,
        filter_cons,decide_true,map_cons]
      tauto
    · intro e
      rw [foldl_cons,hed',hed₁]
      simp only [mem_cons,exists_eq_or_imp]
      tauto

def MsgEdge (c : ChainID) (msgs : ExecMsgs) (e : LogNode × LogNode) : Prop :=
  ∃ i m,(i,m) ∈ msgs ∧ e = (initiatingNode m,(c,i))

structure Fits (hazards : HazardEntries) (logCounts : List (ChainID × UInt32)) (c : ChainID)
    (i : UInt32) (m : ExecutingMessage) : Prop where
  hazard : ∃ b,hazards.lookup m.chainID = some b
  log : ∃ n,logCounts.lookup m.chainID = some n ∧ m.logIdx < n
  other : initiatingNode m ≠ (c,i)

theorem addMessageEdge_cases :
    addMessageEdge hazards logCounts c g (i,m) = .ok (g.addEdge (initiatingNode m) (c,i)) ∧
      Fits hazards logCounts c i m ∨
    addMessageEdge hazards logCounts c g (i,m) = .error .conflict ∧
      ¬ Fits hazards logCounts c i m := by
  unfold addMessageEdge
  cases hb : hazards.lookup m.chainID with
  | none =>
    refine .inr ⟨rfl,fun h => ?_⟩
    obtain ⟨b,hb'⟩ := h.hazard
    simp [hb] at hb'
  | some b =>
    cases hn : logCounts.lookup m.chainID with
    | none =>
      refine .inr ⟨rfl,fun h => ?_⟩
      obtain ⟨n,hn',_⟩ := h.log
      simp [hn] at hn'
    | some n =>
      simp only [orFail_some,ok_bind]
      by_cases hle : n ≤ m.logIdx
      · refine .inr ⟨if_pos hle,fun h => ?_⟩
        obtain ⟨n',hn',hlt⟩ := h.log
        rw [hn] at hn'
        cases hn'
        exact absurd hlt (UInt32.not_lt.mpr hle)
      · rw [if_neg hle]
        by_cases hsl : initiatingNode m = (c,i)
        · exact .inr ⟨if_pos hsl,fun h => h.other hsl⟩
        · exact .inl ⟨if_neg hsl,⟨b,hb⟩,⟨n,hn,UInt32.not_le.mp hle⟩,hsl⟩

theorem addMessageEdges_cases : (∃ g',addMessageEdges hazards logCounts c msgs g = .ok g') ∧
      (∀ i m,(i,m) ∈ msgs → Fits hazards logCounts c i m) ∨
    addMessageEdges hazards logCounts c msgs g = .error .conflict ∧
      ∃ i m,(i,m) ∈ msgs ∧ ¬ Fits hazards logCounts c i m := by
  induction msgs generalizing g with
  | nil => exact .inl ⟨⟨g,rfl⟩,fun i m hm => absurd hm not_mem_nil⟩
  | cons msg rest ih =>
    obtain ⟨i,m⟩ := msg
    unfold addMessageEdges
    rcases @addMessageEdge_cases g hazards logCounts c i m with ⟨hone,hfi⟩ | ⟨hone,hno⟩
    · rw [hone]
      rcases @ih (g.addEdge (initiatingNode m) (c,i)) with ⟨hrs,hall⟩ | ⟨hrs,j,m',hm',hno⟩
      · refine .inl ⟨hrs,fun j m' hm' => ?_⟩
        rcases mem_cons.mp hm' with heq | hm'
        · cases heq
          exact hfi
        · exact hall j m' hm'
      · exact .inr ⟨hrs,j,m',mem_cons_of_mem _ hm',hno⟩
    · rw [hone]
      exact .inr ⟨rfl,i,m,mem_cons_self,hno⟩

theorem addMessageEdges_ok (hbuilt : Built roots g)
    (h : addMessageEdges hazards logCounts c msgs g = .ok g') :
    Built roots g' ∧ ∀ e,e ∈ g'.outgoingEdges ↔ e ∈ g.outgoingEdges ∨ MsgEdge c msgs e := by
  induction msgs generalizing g with
  | nil =>
    cases h
    refine ⟨hbuilt,fun e => ⟨.inl,?_⟩⟩
    rintro (he | ⟨i,m,hm,_⟩)
    · exact he
    · exact absurd hm not_mem_nil
  | cons msg rest ih =>
    obtain ⟨i,m⟩ := msg
    obtain ⟨g₁,hone,hrs⟩ := of_bind_ok h
    rcases @addMessageEdge_cases g hazards logCounts c i m with ⟨hone',_⟩ | ⟨hone',_⟩
    · rw [hone] at hone'
      cases hone'
      obtain ⟨hbuilt',hed⟩ := ih (hbuilt.addEdge _ _) hrs
      refine ⟨hbuilt',fun e => ?_⟩
      rw [hed]
      simp only [addEdge_outgoingEdges,mem_cons,MsgEdge]
      constructor
      · rintro ((rfl | he) | ⟨j,m',hm',rfl⟩)
        · exact .inr ⟨i,m,.inl rfl,rfl⟩
        · exact .inl he
        · exact .inr ⟨j,m',.inr hm',rfl⟩
      rintro (he | ⟨j,m',heq | hm',rfl⟩)
      · exact .inl (.inr he)
      · cases heq
        exact .inl (.inl rfl)
      · exact .inr ⟨j,m',hm',rfl⟩
    · simp [hone] at hone'

theorem addAllMessageEdges_cases :
    (∃ g',addAllMessageEdges ranges hazards logCounts logs g = .ok g') ∧
      (∀ l ∈ logs,∀ i m,(i,m) ∈ l.execMsgs → Fits hazards logCounts l.chainID i m) ∨
    addAllMessageEdges ranges hazards logCounts logs g = .error .conflict ∧
      ∃ l ∈ logs,∃ i m,(i,m) ∈ l.execMsgs ∧ ¬ Fits hazards logCounts l.chainID i m := by
  induction logs generalizing g with
  | nil => exact .inl ⟨⟨g,rfl⟩,fun l hl => absurd hl not_mem_nil⟩
  | cons l logs ih =>
    have hmem : ∀ i m,(i,m) ∈ ranges.shuffle _ logs.length l.execMsgs ↔ (i,m) ∈ l.execMsgs :=
      fun i m => (ranges.perm _ logs.length l.execMsgs).mem_iff
    unfold addAllMessageEdges
    rcases @addMessageEdges_cases g hazards logCounts l.chainID
      (ranges.shuffle _ logs.length l.execMsgs) with ⟨⟨g₁,hone⟩,hfi⟩ | ⟨hone,i,m,hm,hno⟩
    · rw [hone]
      rcases @ih g₁ with ⟨hrs,hall⟩ | ⟨hrs,l',hl',hno⟩
      · refine .inl ⟨hrs,fun l' hl' i m hm => ?_⟩
        rcases mem_cons.mp hl' with rfl | hl'
        · exact hfi i m ((hmem i m).mpr hm)
        · exact hall l' hl' i m hm
      · exact .inr ⟨hrs,l',mem_cons_of_mem _ hl',hno⟩
    · rw [hone]
      exact .inr ⟨rfl,l,mem_cons_self,i,m,(hmem i m).mp hm,hno⟩

theorem addAllMessageEdges_ok (hbuilt : Built roots g)
    (h : addAllMessageEdges ranges hazards logCounts logs g = .ok g') :
    Built roots g' ∧ ∀ e,e ∈ g'.outgoingEdges ↔
      e ∈ g.outgoingEdges ∨ ∃ l ∈ logs,MsgEdge l.chainID l.execMsgs e := by
  induction logs generalizing g with
  | nil =>
    cases h
    exact ⟨hbuilt,by simp⟩
  | cons l logs ih =>
    obtain ⟨g₁,hone,hrs⟩ := of_bind_ok h
    obtain ⟨hbuilt₁,hed₁⟩ := addMessageEdges_ok hbuilt hone
    obtain ⟨hbuilt',hed'⟩ := ih hbuilt₁ hrs
    refine ⟨hbuilt',fun e => ?_⟩
    have hhere : MsgEdge l.chainID (ranges.shuffle _ logs.length l.execMsgs) e ↔
        MsgEdge l.chainID l.execMsgs e := by
      simp [MsgEdge,(ranges.perm _ logs.length l.execMsgs).mem_iff]
    rw [hed',hed₁]
    simp only [mem_cons,exists_eq_or_imp]
    tauto

def logNodes (logs : List ChainLogs) : List LogNode :=
  logs.flatMap fun l => (List.range l.logCount.toNat).map fun i => (l.chainID,ofNat i)

theorem logNodes_length (logs : List ChainLogs) :
    (logNodes logs).length = (logs.map fun l => l.logCount.toNat).sum := by
  simp [logNodes]

theorem mem_logNodes {logs : List ChainLogs} {c : ChainID} {i : UInt32} :
    (c,i) ∈ logNodes logs ↔ ∃ l ∈ logs,l.chainID = c ∧ i < l.logCount := by
  simp only [logNodes,mem_flatMap,mem_map,mem_range,Prod.mk.injEq]
  constructor
  · rintro ⟨l,hl,k,hk,hc,rfl⟩
    refine ⟨l,hl,hc,?_⟩
    have := l.logCount.toNat_lt
    rw [lt_iff_toNat_lt,toNat_ofNat',Nat.mod_eq_of_lt (by omega)]
    exact hk
  · rintro ⟨l,hl,hc,hi⟩
    exact ⟨l,hl,i.toNat,lt_iff_toNat_lt.mp hi,hc,by simp⟩

theorem seqEdge_nodes {logs : List ChainLogs} (hl : l ∈ logs) {a b : LogNode}
    (h : SeqEdge l.chainID l.logCount.toNat (a,b)) : a ∈ logNodes logs ∧ b ∈ logNodes logs := by
  obtain ⟨i,-,hi,heq⟩ := h
  cases heq
  have := l.logCount.toNat_lt
  constructor
  · refine mem_logNodes.mpr ⟨l,hl,rfl,?_⟩
    rw [lt_iff_toNat_lt,toNat_ofNat']
    omega
  refine mem_logNodes.mpr ⟨l,hl,rfl,?_⟩
  rw [lt_iff_toNat_lt,toNat_ofNat',Nat.mod_eq_of_lt (by omega)]
  exact hi

theorem logNodes_cases {logs : List ChainLogs} {a : LogNode} (ha : a ∈ logNodes logs) :
    a ∈ firstLogs logs ∨ ∃ b,∃ l ∈ logs,SeqEdge l.chainID l.logCount.toNat (b,a) := by
  obtain ⟨c,i⟩ := a
  obtain ⟨l,hl,rfl,hi⟩ := mem_logNodes.mp ha
  rw [lt_iff_toNat_lt] at hi
  by_cases hz : i = 0
  · subst hz
    refine .inl (mem_map.mpr ⟨l,mem_filter.mpr ⟨hl,?_⟩,rfl⟩)
    simp at hi ⊢
    omega
  · have hpos := Nat.pos_of_ne_zero fun h => hz (UInt32.toNat_inj.mp h)
    exact .inr ⟨(l.chainID,.ofNat (i.toNat - 1)),l,hl,i.toNat,hpos,hi,by simp⟩

def GraphEdge (logs : List ChainLogs) (a b : LogNode) : Prop :=
  (∃ l ∈ logs,SeqEdge l.chainID l.logCount.toNat (a,b)) ∨
  ∃ l ∈ logs,MsgEdge l.chainID l.execMsgs (a,b)

abbrev logCountsOf (logs : List ChainLogs) : List (ChainID × UInt32) :=
  logs.map fun l => (l.chainID,l.logCount)

theorem buildGraph_cases (hnodup : (logs.map ChainLogs.chainID).Nodup) :
    (∃ g,buildGraph ranges hazards logs = .ok g ∧
      (∀ a b,(a,b) ∈ g.outgoingEdges ↔ GraphEdge logs a b) ∧
      Stage (logNodes logs) g.outgoingEdges [] g) ∧
      (∀ l ∈ logs,∀ i m,(i,m) ∈ l.execMsgs → Fits hazards (logCountsOf logs) l.chainID i m) ∨
    buildGraph ranges hazards logs = .error .conflict ∧ ∃ l ∈ logs,∃ i m,(i,m) ∈ l.execMsgs ∧
        ¬ Fits hazards (logCountsOf logs) l.chainID i m := by
  have hpm₁ := ranges.perm _ 1 logs
  have hpm₂ := ranges.perm _ 2 logs
  obtain ⟨roots,hrts,hbu₁,hed₁⟩ := foldl_addLogs (ranges.shuffle _ 1 logs)
    ((hpm₁.map _).nodup_iff.mpr hnodup) Built.empty (by simp [KahnGraph.empty])
  rcases @addAllMessageEdges_cases ((ranges.shuffle _ 1 logs).foldl addLogs .empty) hazards
      (logCountsOf logs) (ranges.shuffle _ 2 logs) ranges with
    ⟨⟨g,hg⟩,hfi⟩ | ⟨herr,l,hl,hno⟩
  · obtain ⟨hbu,hed⟩ := addAllMessageEdges_ok hbu₁ hg
    have hiff : ∀ a b,(a,b) ∈ g.outgoingEdges ↔ GraphEdge logs a b := by
      intro a b
      rw [hed,hed₁]
      simp [KahnGraph.empty,false_or,hpm₁.mem_iff,hpm₂.mem_iff,GraphEdge]
    refine .inl ⟨⟨g,hg,hiff,hbu.stage ?_ ?_⟩,fun l hl => hfi l (hpm₂.mem_iff.mpr hl)⟩
    · intro a ha
      rcases (hrts a).mp ha with ha | ha
      · exact absurd ha not_mem_nil
      obtain ⟨l,hl,rfl⟩ := mem_map.mp ha
      obtain ⟨hl,hpos⟩ := mem_filter.mp hl
      refine mem_logNodes.mpr ⟨l,hpm₁.mem_iff.mp hl,rfl,?_⟩
      rw [lt_iff_toNat_lt]
      simp at hpos ⊢
      omega
    intro a ha
    rcases logNodes_cases ha with hfst | ⟨b,l,hl,hseq⟩
    · left
      obtain ⟨l,hl,rfl⟩ := mem_map.mp hfst
      obtain ⟨hl,hpos⟩ := mem_filter.mp hl
      refine (hrts _).mpr (.inr (mem_map.mpr ⟨l,mem_filter.mpr ⟨?_,hpos⟩,rfl⟩))
      exact hpm₁.mem_iff.mpr hl
    · right
      exact ⟨b,(hiff b a).mpr (.inl ⟨l,hl,hseq⟩)⟩
  · exact .inr ⟨herr,l,hpm₂.mem_iff.mp hl,hno⟩

theorem checkGraph_cases (hiff : ∀ a b,(a,b) ∈ g.outgoingEdges ↔ GraphEdge logs a b)
    (hstage : Stage (logNodes logs) g.outgoingEdges [] g)
    (hindex : ∀ l ∈ logs,∀ i m,(i,m) ∈ l.execMsgs → i < l.logCount)
    (hfits : ∀ l ∈ logs,∀ i m,(i,m) ∈ l.execMsgs → Fits hazards (logCountsOf logs) l.chainID i m) :
    checkGraph ranges logs g = none ∧ (∀ a,¬ OnCycle (GraphEdge logs) a) ∨
    checkGraph ranges logs g = some .conflict ∧ ∃ a,OnCycle (GraphEdge logs) a := by
  have hns : ∀ e ∈ g.outgoingEdges,e.1 ∈ logNodes logs ∧ e.2 ∈ logNodes logs := by
    rintro ⟨a,b⟩ he
    rcases (hiff a b).mp he with ⟨l,hl,hseq⟩ | ⟨l,hl,i,m,hm,heq⟩
    · exact seqEdge_nodes hl hseq
    cases heq
    obtain ⟨n,hn,hlt⟩ := (hfits l hl i m hm).log
    obtain ⟨l',hl',heq⟩ := mem_map.mp (mem_of_lookup hn)
    rw [Prod.mk.injEq] at heq
    rw [← heq.2] at hlt
    exact ⟨mem_logNodes.mpr ⟨l',hl',heq.1,hlt⟩,mem_logNodes.mpr ⟨l,hl,rfl,hindex l hl i m hm⟩⟩
  have hfuel : (logNodes logs).length < (logs.map fun l => l.logCount.toNat).sum + 1 := by
    rw [logNodes_length]
    exact Nat.lt_succ_self _
  obtain ⟨b,hck,hb⟩ := check_eq hstage hns (ranges.perm LogNode) hfuel
  have hrel : (fun a b => (a,b) ∈ g.outgoingEdges) = GraphEdge logs := by
    funext a b
    exact propext (hiff a b)
  rw [hrel] at hb
  unfold checkGraph
  simp only [hck]
  cases b with
  | true => exact .inl ⟨rfl,hb.mp rfl⟩
  | false =>
    refine .inr ⟨rfl,?_⟩
    by_contra hno
    push Not at hno
    exact absurd (hb.mpr hno) (by decide)

/-! The logs of a block by their index. -/

theorem ofNat_succ (c : Nat) : ofNat c + 1 = ofNat (c + 1) := by
  simp

variable {logs : List Log} {b : Block} {entry : ExecMessageCacheEntry}

theorem mem_readExecutingMessages {c : Nat} {msgs : ExecMsgs}
    (h : readExecutingMessages (.ofNat c) logs = some msgs) (i : UInt32)
    (m : ExecutingMessage) : (i,m) ∈ msgs ↔ ∃ k l,logs[k]? = some l ∧ l.decoded = .message m ∧
      i = .ofNat (c + k) := by
  induction logs generalizing c msgs with
  | nil =>
    cases h
    simp
  | cons l logs ih =>
    have hsp : (∃ k l',(l::logs)[k]? = some l' ∧ l'.decoded = .message m ∧ i = .ofNat (c + k)) ↔
        (l.decoded = .message m ∧ i = .ofNat c) ∨
        ∃ k l',logs[k]? = some l' ∧ l'.decoded = .message m ∧ i = .ofNat (c + 1 + k) := by
      constructor
      · rintro ⟨k,l',hl',hm,hi⟩
        cases k with
        | zero =>
          cases hl'
          exact .inl ⟨hm,hi⟩
        | succ k => exact .inr ⟨k,l',hl',hm,by rw [hi]; congr 1; omega⟩
      · rintro (⟨hm,hi⟩ | ⟨k,l',hl',hm,hi⟩)
        · exact ⟨0,l,rfl,hm,hi⟩
        · exact ⟨k + 1,l',hl',hm,by rw [hi]; congr 1; omega⟩
    rw [hsp]
    unfold readExecutingMessages at h
    rw [ofNat_succ] at h
    split at h
    · cases h
    · rename_i hnothing
      rw [ih h,hnothing]
      simp
    rename_i m' hm'
    obtain ⟨msgs',hrd,rfl⟩ := Option.map_eq_some_iff.mp h
    rw [mem_cons,ih hrd,hm',Prod.mk.injEq,Decoded.message.injEq]
    constructor
    · rintro (⟨rfl,rfl⟩ | hrs)
      · exact .inl ⟨rfl,rfl⟩
      · exact .inr hrs
    rintro (⟨rfl,rfl⟩ | hrs)
    · exact .inl ⟨rfl,rfl⟩
    · exact .inr hrs

theorem executingMessages_mem
    (h : receiptsToExecutingMessages b.receipts = some entry) (i : UInt32) (m : ExecutingMessage) :
    (i,m) ∈ entry.execMsgs ↔ ∃ l,b.receipts.flatten[i.toNat]? = some l ∧
      l.decoded = .message m := by
  obtain ⟨msgs,hrd,rfl⟩ := Option.map_eq_some_iff.mp h
  rw [mem_readExecutingMessages (c := 0) hrd]
  constructor
  · rintro ⟨k,l,hl,hm,rfl⟩
    have hk := (List.getElem?_eq_some_iff.mp hl).1
    have hlt := b.logs_lt
    refine ⟨l,?_,hm⟩
    rw [toNat_ofNat',Nat.zero_add,Nat.mod_eq_of_lt (by omega)]
    exact hl
  · rintro ⟨l,hl,hm⟩
    exact ⟨i.toNat,l,hl,hm,by simp⟩

theorem logCount_toNat (h : receiptsToExecutingMessages b.receipts = some entry) :
    entry.logCount.toNat = b.receipts.flatten.length := by
  obtain ⟨msgs,-,rfl⟩ := Option.map_eq_some_iff.mp h
  have hlt := b.logs_lt
  rw [toNat_ofNat',Nat.mod_eq_of_lt (by omega)]

theorem message_lt_logCount {i : UInt32}
    {m : ExecutingMessage} (h : receiptsToExecutingMessages b.receipts = some entry)
    (hm : (i,m) ∈ entry.execMsgs) : i < entry.logCount := by
  obtain ⟨l,hl,_⟩ := (executingMessages_mem h i m).mp hm
  rw [lt_iff_toNat_lt,logCount_toNat h]
  exact (List.getElem?_eq_some_iff.mp hl).1

theorem findInReceipt_eq {c : Nat} (logIdx : UInt32)
    (hc : c + logs.length ≤ 2 ^ 32) : findInReceipt logIdx (.ofNat c) logs
      = if c ≤ logIdx.toNat then logs[logIdx.toNat - c]? else none := by
  induction logs generalizing c with
  | nil => simp [findInReceipt]
  | cons l logs ih =>
    rw [length_cons] at hc
    unfold findInReceipt
    rw [ofNat_succ,ih (by omega)]
    have hhere : .ofNat c = logIdx ↔ c = logIdx.toNat := by
      rw [← UInt32.toNat_inj,UInt32.toNat_ofNat',Nat.mod_eq_of_lt (by omega)]
    by_cases heq : c = logIdx.toNat
    · simp [heq]
    rw [if_neg (fun h => heq (hhere.mp h))]
    by_cases hle : c ≤ logIdx.toNat
    · rw [if_pos (by omega),if_pos hle,show logIdx.toNat - c = logIdx.toNat - (c + 1) + 1 by omega]
      rfl
    · rw [if_neg (by omega),if_neg hle]

theorem findLog_eq {receipts : List (List Log)} {c : Nat} (logIdx : UInt32)
    (hc : c + receipts.flatten.length ≤ 2 ^ 32) : findLog logIdx (.ofNat c) receipts
      = if c ≤ logIdx.toNat then receipts.flatten[logIdx.toNat - c]? else none := by
  induction receipts generalizing c with
  | nil => simp [findLog]
  | cons r receipts ih =>
    rw [flatten_cons,length_append] at hc
    unfold findLog
    rw [findInReceipt_eq logIdx (by omega),
      show ofNat c + ofNat r.length = ofNat (c + r.length) by simp,
      ih (by omega)]
    by_cases hle : c ≤ logIdx.toNat
    · rw [if_pos hle,if_pos hle,flatten_cons]
      by_cases hin : logIdx.toNat - c < r.length
      · rw [getElem?_append_left hin,getElem?_eq_getElem hin]
      rw [getElem?_eq_none (by omega),getElem?_append_right (by omega)]
      simp only
      rw [if_pos (by omega)]
      congr 1
      omega
    · rw [if_neg hle,if_neg hle]
      rw [if_neg (by omega)]

theorem findLog_block (b : Block) (logIdx : UInt32) :
    findLog logIdx 0 b.receipts = b.receipts.flatten[logIdx.toNat]? := by
  have hlt := b.logs_lt
  have h := @findLog_eq b.receipts 0 logIdx (by omega)
  exact h

variable {keccak256 : Bytes → Hash} {blocks : Hash → Block} {deps : CheckDeps}
  {cache : ExecMessageCache}

/-! The logs that are gathered. -/

def LogsOf (blocks : Hash → Block) (deps : CheckDeps) (ts : UInt64) (p : Hazard)
    (l : ChainLogs) : Prop :=
  ∃ msgs,opens blocks deps p.1 p.2.number = .ok (p.2.id,⟨msgs,l.logCount⟩) ∧
    l.chainID = p.1 ∧ l.execMsgs = msgs.filter fun (_,m) => m.timestamp = ts

variable {c : ChainID} {ts : UInt64} {p : Hazard} {ps : HazardEntries} {ranges : MapRanges}
  {candidate : BlockSeal}

theorem opens_ok {number : UInt64} {id : BlockID} {entry : ExecMessageCacheEntry}
    (h : opens blocks deps c number = .ok (id,entry)) :
    ∃ h,canonBlockByNumber blocks deps number c = .ok h ∧ id = (blockSeal blocks h).id ∧
      receiptsToExecutingMessages (blocks h).receipts = some entry := by
  obtain ⟨hash,hcan,hrs⟩ := of_bind_ok h
  obtain ⟨entry',hen,hrs⟩ := of_bind_ok hrs
  cases hrs
  exact ⟨hash,hcan,rfl,of_orFail_ok hen⟩

theorem gatherLogs_eq (hsound : CacheSound blocks cache)
    (hopen : ∀ p ∈ ps,∃ entry,opens blocks deps p.1 p.2.number = .ok (p.2.id,entry)) :
    ∃ cache' logs,gatherLogs blocks deps ts ps cache = (cache',.ok logs) ∧
      CacheSound blocks cache' ∧ List.Forall₂ (LogsOf blocks deps ts) ps logs := by
  induction ps generalizing cache with
  | nil => exact ⟨cache,[],rfl,hsound,.nil⟩
  | cons p ps ih =>
    obtain ⟨c,b⟩ := p
    obtain ⟨entry,hen⟩ := hopen (c,b) mem_cons_self
    obtain ⟨cache₁,hone,hsound₁⟩ := @openBlock_eq blocks deps cache hsound c b.number
    obtain ⟨cache',logs,hrs,hsound',hall⟩ := ih hsound₁
      (fun q hq => hopen q (mem_cons_of_mem _ hq))
    obtain ⟨h,_,_,hrd⟩ := opens_ok hen
    have hrange : (entry.execMsgs.any fun (logIdx,_) => entry.logCount ≤ logIdx) = false := by
      rw [any_eq_false]
      intro msg hmsg
      have hlt := message_lt_logCount hrd hmsg
      simpa using hlt
    refine ⟨cache',⟨c,entry.logCount,entry.execMsgs.filter fun (_,m) => m.timestamp = ts⟩::logs,?_,
      hsound',.cons ⟨entry.execMsgs,hen,rfl,rfl⟩ hall⟩
    unfold gatherLogs
    rw [hone,hen]
    simp [ne_eq,not_true_eq_false,↓reduceIte,hrange,hrs]

theorem forall₂_left {α β : Type} {R : α → β → Prop} {as : List α} {bs : List β} {a : α}
    (h : List.Forall₂ R as bs) (ha : a ∈ as) : ∃ b ∈ bs,R a b := by
  induction h with
  | nil => exact absurd ha not_mem_nil
  | cons hab _ ih =>
    rcases mem_cons.mp ha with rfl | ha
    · exact ⟨_,mem_cons_self,hab⟩
    · obtain ⟨b,hb,hR⟩ := ih ha
      exact ⟨b,mem_cons_of_mem _ hb,hR⟩

theorem LogsOf.chains {logs : List ChainLogs} (h : List.Forall₂ (LogsOf blocks deps ts) ps logs) :
    logs.map ChainLogs.chainID = ps.map Prod.fst := by
  induction h with
  | nil => rfl
  | cons hone _ ih =>
    obtain ⟨_,_,hch,_⟩ := hone
    rw [map_cons,map_cons,ih,hch]

theorem LogsOf.unique {l l' : ChainLogs} (h : LogsOf blocks deps ts p l)
    (h' : LogsOf blocks deps ts p l') : l = l' := by
  obtain ⟨msgs,hop,hch,hms⟩ := h
  obtain ⟨msgs',hop',hch',hms'⟩ := h'
  rw [hop] at hop'
  cases l
  cases l'
  cases hop'
  simp only at hch hch' hms hms'
  rw [hch,hch',hms,hms']

/-- The dependencies between the logs of some blocks: on the log before, and on the log that
initiates a message. -/
def LogEdge (blocks : Hash → Block) (deps : CheckDeps) (ts : UInt64) (entries : HazardEntries)
    (a b : LogNode) : Prop :=
  ∃ p ∈ entries,∃ l,LogsOf blocks deps ts p l ∧
    (SeqEdge p.1 l.logCount.toNat (a,b) ∨ MsgEdge p.1 l.execMsgs (a,b))

theorem needs_timestamp {q : Hazard} (h : Needs keccak256 blocks deps p q) :
    q.2.timestamp = p.2.timestamp := by
  obtain ⟨_,_,m,_,_,ht,_,hb⟩ := h
  obtain ⟨h,_,_,htm,_,_,heq⟩ := contains_ok_iff.mp hb
  rw [heq]
  exact htm.trans ht

theorem reached_timestamp {start : Hazard} (h : TransGen (Needs keccak256 blocks deps) start p) :
    p.2.timestamp = start.2.timestamp := by
  induction h with
  | single h => exact needs_timestamp h
  | tail _ h ih => exact (needs_timestamp h).trans ih

variable {start : Hazard} {entries : HazardEntries}

variable {logs : List ChainLogs}

theorem HazardsOf.initiating (hall : HazardsOf keccak256 blocks deps start entries) {p : Hazard}
    (hp : p ∈ entries) (hl : LogsOf blocks deps start.2.timestamp p l) (hm : (i,m) ∈ l.execMsgs) :
    ∃ q ∈ entries,q.1 = m.chainID ∧
      ∀ l',LogsOf blocks deps start.2.timestamp q l' → m.logIdx < l'.logCount := by
  obtain ⟨msgs,hop,_,hms⟩ := hl
  rw [hms,List.mem_filter,decide_eq_true_eq] at hm
  have hrch := (hall.mem_iff p).mp hp
  obtain ⟨msgs',hms',hok⟩ := hall.blocks p hrch.to_reflTransGen
  have hmessages : Messages blocks deps p msgs := ⟨_,hop⟩
  rw [hms'.unique hmessages] at hok
  obtain ⟨b,hb⟩ := (hok i m hm.1).contained
  have hnds : Needs keccak256 blocks deps p (m.chainID,b) :=
    ⟨msgs,i,m,hmessages,hm.1,hm.2.trans (reached_timestamp hrch).symm,rfl,hb⟩
  refine ⟨(m.chainID,b),(hall.mem_iff _).mpr (hrch.tail hnds),rfl,?_⟩
  rintro l' ⟨msgs'',hop',_,_⟩
  obtain ⟨h,log,_,_,hlog,_,heq⟩ := contains_ok_iff.mp hb
  obtain ⟨h',_,hid,hrd⟩ := opens_ok hop'
  have hhs : h = h' := by
    have := congrArg BlockID.hash hid
    rw [heq] at this
    exact this
  subst hhs
  rw [findLog_block] at hlog
  rw [UInt32.lt_iff_toNat_lt,logCount_toNat hrd]
  exact (List.getElem?_eq_some_iff.mp hlog).1

structure Gathered (blocks : Hash → Block) (deps : CheckDeps) (ts : UInt64)
    (entries : HazardEntries) (logs : List ChainLogs) : Prop where
  nodup : (logs.map ChainLogs.chainID).Nodup
  of_entry : ∀ p ∈ entries,∃ l ∈ logs,LogsOf blocks deps ts p l
  entry : ∀ l ∈ logs,∃ p ∈ entries,LogsOf blocks deps ts p l

theorem Gathered.of_forall₂ {ps : HazardEntries} (hnodup : (entries.map Prod.fst).Nodup)
    (hperm : ps.Perm entries) (h : List.Forall₂ (LogsOf blocks deps ts) ps logs) :
    Gathered blocks deps ts entries logs := by
  refine ⟨?_,fun p hp => forall₂_left h (hperm.mem_iff.mpr hp),?_⟩
  · rw [LogsOf.chains h]
    exact (hperm.map _).nodup_iff.mpr hnodup
  intro l hl
  obtain ⟨p,hp,hR⟩ := forall₂_left h.flip hl
  exact ⟨p,hperm.mem_iff.mp hp,hR⟩

theorem Gathered.logEdge_iff (h : Gathered blocks deps ts entries logs) (a b : LogNode) :
    LogEdge blocks deps ts entries a b ↔ (∃ l ∈ logs,SeqEdge l.chainID l.logCount.toNat (a,b)) ∨
      ∃ l ∈ logs,MsgEdge l.chainID l.execMsgs (a,b) := by
  constructor
  · rintro ⟨p,hp,l,hl,hab⟩
    obtain ⟨l',hl',h'⟩ := h.of_entry p hp
    cases hl.unique h'
    obtain ⟨_,_,hc,_⟩ := id hl
    rw [← hc] at hab
    exact hab.imp (⟨l,hl',·⟩) (⟨l,hl',·⟩)
  rintro (⟨l,hl,hab⟩ | ⟨l,hl,hab⟩)
  · obtain ⟨p,hp,h'⟩ := h.entry l hl
    obtain ⟨_,_,hc,_⟩ := id h'
    exact ⟨p,hp,l,h',.inl (hc ▸ hab)⟩
  obtain ⟨p,hp,h'⟩ := h.entry l hl
  obtain ⟨_,_,hc,_⟩ := id h'
  exact ⟨p,hp,l,h',.inr (hc ▸ hab)⟩

theorem Gathered.initiating (h : Gathered blocks deps start.2.timestamp entries logs)
    (hall : HazardsOf keccak256 blocks deps start entries) (hl : l ∈ logs)
    (hm : (i,m) ∈ l.execMsgs) : (∃ b,(m.chainID,b) ∈ entries) ∧
      ∃ l' ∈ logs,l'.chainID = m.chainID ∧ m.logIdx < l'.logCount := by
  obtain ⟨p,hp,hR⟩ := h.entry l hl
  obtain ⟨⟨c,b⟩,hq,rfl,hlt⟩ := hall.initiating hp hR hm
  obtain ⟨l',hl',h'⟩ := h.of_entry _ hq
  obtain ⟨_,_,hc',_⟩ := id h'
  exact ⟨⟨b,hq⟩,l',hl',hc',hlt l' h'⟩

theorem Gathered.lt_logCount (h : Gathered blocks deps ts entries logs) (hl : l ∈ logs)
    (hm : (i,m) ∈ l.execMsgs) : i < l.logCount := by
  obtain ⟨p,_,msgs,hop,_,hms⟩ := h.entry l hl
  obtain ⟨_,_,_,hrd⟩ := opens_ok hop
  rw [hms] at hm
  exact message_lt_logCount hrd (mem_filter.mp hm).1

theorem Gathered.fits (h : Gathered blocks deps start.2.timestamp entries logs)
    (hall : HazardsOf keccak256 blocks deps start entries) (hl : l ∈ logs) (hm : (i,m) ∈ l.execMsgs)
    (hself : initiatingNode m ≠ (l.chainID,i)) : Fits entries (logCountsOf logs) l.chainID i m := by
  obtain ⟨⟨b,hb⟩,l',hl',hc,hlt⟩ := h.initiating hall hl hm
  refine ⟨⟨b,lookup_of_mem hall.ok.nodup hb⟩,⟨l'.logCount,lookup_of_mem ?_ ?_,hlt⟩,hself⟩
  · rw [List.map_map]
    exact h.nodup
  · exact List.mem_map.mpr ⟨l',hl',by rw [hc]⟩

/-- The cycle check of the hazards of a block passes iff their logs do not depend on each other in a
circle. -/
theorem hazardCycleChecks_eq {ranges : MapRanges} (hsound : CacheSound blocks cache)
    (hall : HazardsOf keccak256 blocks deps start entries) :
    ∃ cache' r,hazardCycleChecks blocks deps ranges start.2.timestamp entries cache = (cache',r) ∧
      CacheSound blocks cache' ∧
      (r = none ↔ ∀ a,¬ OnCycle (LogEdge blocks deps start.2.timestamp entries) a) := by
  have hpm := ranges.perm _ 0 entries
  obtain ⟨cache',logs,hgather,hsound',hlg⟩ := @gatherLogs_eq blocks deps cache
    start.2.timestamp (ranges.shuffle _ 0 entries) hsound (by
      intro p hp
      obtain ⟨msgs,⟨n,hop⟩,_⟩ :=
        hall.blocks p ((hall.mem_iff p).mp (hpm.mem_iff.mp hp)).to_reflTransGen
      exact ⟨_,hop⟩)
  have hg := Gathered.of_forall₂ hall.ok.nodup hpm hlg
  have hrel : LogEdge blocks deps start.2.timestamp entries = GraphEdge logs := by
    funext a b
    exact propext (hg.logEdge_iff a b)
  unfold hazardCycleChecks
  rw [hgather,hrel]
  rcases @buildGraph_cases entries logs ranges hg.nodup with
    ⟨⟨g,hres,hiff,hstg⟩,hfi⟩ | ⟨hres,l,hl,i,m,hm,hno⟩
  · refine ⟨cache',checkGraph ranges logs g,?_,hsound',?_⟩
    · simp [hres]
    rcases @checkGraph_cases g entries logs ranges hiff hstg
        (fun l hl i m hm => hg.lt_logCount hl hm) hfi with ⟨hck,hacy⟩ | ⟨hck,a,ha⟩
    · rw [hck]
      exact iff_of_true rfl hacy
    · rw [hck]
      exact iff_of_false (fun h => (by cases h)) fun h => h a ha
  refine ⟨cache',some .conflict,?_,hsound',?_⟩
  · simp [hres]
  -- what does not fit is a message that refers to itself
  have hsl : initiatingNode m = (l.chainID,i) := by
    by_contra hsl
    exact hno (hg.fits hall hl hm hsl)
  refine iff_of_false (fun h => (by cases h)) fun h => ?_
  exact h (l.chainID,i) (.single (.inr ⟨l,hl,i,m,hm,by rw [hsl]⟩))

/-! The whole check. -/

/-- The block and everything it depends on at its timestamp is valid, without a circle. -/
def Passes (keccak256 : Bytes → Hash) (blocks : Hash → Block) (deps : CheckDeps)
    (start : Hazard) : Prop :=
  ∃ entries,HazardsOf keccak256 blocks deps start entries ∧
    ∀ a,¬ OnCycle (LogEdge blocks deps start.2.timestamp entries) a

/-- The check passes iff it should, in whatever order the maps are ranged over and whatever was
cached by earlier checks. -/
theorem checkHazards_eq (hsound : CacheSound blocks cache) :
    ∃ cache' r,checkHazards blocks deps ranges keccak256 candidate c cache = (cache',r) ∧
      CacheSound blocks cache' ∧ (r = none ↔ Passes keccak256 blocks deps (c,candidate)) := by
  obtain ⟨cache₁,result,hset,hsound₁,hok,herr⟩ :=
    @newHazardSet_eq keccak256 blocks deps cache ranges (c,candidate) hsound
  unfold checkHazards
  rw [hset]
  cases result with
  | error e =>
    refine ⟨cache₁,some e,rfl,hsound₁,?_⟩
    constructor
    · nofun
    · rintro ⟨entries,hall,_⟩
      exact absurd ⟨entries,hall⟩ (herr e rfl)
  | ok entries =>
    have hall := hok entries rfl
    obtain ⟨cache',r,hck,hsound',hr⟩ := @hazardCycleChecks_eq _ _ _ _ _ _ ranges hsound₁ hall
    refine ⟨cache',r,hck,hsound',?_⟩
    rw [hr]
    constructor
    · intro h
      exact ⟨entries,hall,h⟩
    rintro ⟨entries',hall',h⟩
    have hsm : LogEdge blocks deps candidate.timestamp entries
        = LogEdge blocks deps candidate.timestamp entries' := by
      funext a b
      simp [LogEdge,hall.mem_iff,hall'.mem_iff]
    rw [hsm]
    exact h

theorem checkHazards_none_iff :
    (checkHazards blocks deps ranges keccak256 candidate c fun _ => none).2 = none ↔
      Passes keccak256 blocks deps (c,candidate) := by
  obtain ⟨_,r,hck,_,hr⟩ := @checkHazards_eq keccak256 blocks deps (fun _ => none) c ranges
    candidate (fun _ _ hno => nomatch hno)
  rw [hck]
  exact hr

end OpStack.Interop
