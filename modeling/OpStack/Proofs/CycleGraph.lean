import OpStack.Lib.Lists
import OpStack.Lib.Kahn
import OpStack.Supernode.Cycle

namespace OpStack.Supernode
open Lib DependencyNode List Eth Interop

variable (x : NodeRef) (n : DependencyNode) (done : NodeRef → Bool)

@[simp] theorem DependencyNode.forget_ref : (n.forget x).ref = n.ref := rfl

@[simp] theorem DependencyNode.forget_dependedOnBy :
    (n.forget x).dependedOnBy = n.dependedOnBy.filter fun a => a ≠ x := rfl

theorem DependencyNode.forget_eq_self {x : NodeRef} {n : DependencyNode}
    (h : x ∉ n.dependedOnBy) : n.forget x = n := by
  have hsm : n.dependedOnBy.filter (fun a => a ≠ x) = n.dependedOnBy := by
    apply filter_eq_self.mpr
    intro a ha
    simp only [decide_eq_true_eq]
    rintro rfl
    exact h ha
  unfold forget removeFromSlice
  rw [hsm]

theorem removeNode_eq (g : DependencyGraph) (removed : DependencyNode) : removeNode g removed
    = g.map fun n => if n.ref ∈ removed.dependsOn then n.forget removed.ref else n := by
  unfold removeNode
  induction removed.dependsOn generalizing g with
  | nil => simp
  | cons dependency rest ih =>
    rw [foldl_cons,ih,DependencyGraph.modifyNode,map_map]
    apply map_congr_left
    intro n hn
    have htwice : (n.forget removed.ref).forget removed.ref = n.forget removed.ref := by
      apply forget_eq_self
      simp
    by_cases hhere : n.ref = dependency
    · subst hhere
      by_cases hrs : n.ref ∈ rest
      · simp [htwice]
      · simp [hrs]
    · simp [hhere]

namespace DependencyGraph
variable {g : DependencyGraph} {done : NodeRef → Bool} {n : DependencyNode}

def Edge (g : DependencyGraph) (src dst : NodeRef) : Prop :=
  ∃ n ∈ g,n.ref = src ∧ dst ∈ n.dependsOn

structure Linked (g : DependencyGraph) : Prop where
  back : ∀ a ∈ g,∀ b ∈ g,a.ref ∈ b.dependedOnBy → b.ref ∈ a.dependsOn
  forth : ∀ a ∈ g,∀ b ∈ g,b.ref ∈ a.dependsOn → a.ref ∈ b.dependedOnBy
  node : ∀ b ∈ g,∀ x ∈ b.dependedOnBy,∃ a ∈ g,a.ref = x

end DependencyGraph
open DependencyGraph

def DependencyNode.peeled (done : NodeRef → Bool) (n : DependencyNode) : DependencyNode :=
  { n with resolved := done n.ref, dependedOnBy := n.dependedOnBy.filter fun a => !done a }

def DependencyNode.without (removed : NodeRef → Bool) (n : DependencyNode) : DependencyNode :=
  { n with dependedOnBy := n.dependedOnBy.filter fun a => !removed a }

theorem DependencyNode.without_none : without (fun _ => false) = id := by
  funext n
  simp [without]

theorem foldl_removeNode {removeSet : List DependencyNode} {g : DependencyGraph}
    (h : ∀ a ∈ removeSet,∀ b ∈ g,a.ref ∈ b.dependedOnBy → b.ref ∈ a.dependsOn) :
    removeSet.foldl removeNode g = g.map (without ((removeSet.map ref).contains ·)) := by
  induction removeSet generalizing g with
  | nil => simp [without_none]
  | cons a rest ih =>
    have hall : removeNode g a = g.map (forget a.ref) := by
      rw [removeNode_eq]
      apply map_congr_left
      intro b hb
      by_cases hdep : b.ref ∈ a.dependsOn
      · rw [if_pos hdep]
      · rw [if_neg hdep,forget_eq_self]
        exact fun hmem => hdep (h a (by simp) b hb hmem)
    have hrs : ∀ c ∈ rest,∀ b ∈ g.map (forget a.ref),
        c.ref ∈ b.dependedOnBy → b.ref ∈ c.dependsOn := by
      intro c hc b hb hmem
      obtain ⟨b',hb',rfl⟩ := mem_map.mp hb
      exact h c (by simp [hc]) b' hb' (mem_of_mem_filter hmem)
    rw [foldl_cons,hall,ih hrs,map_map]
    apply map_congr_left
    simp [without,forget,removeFromSlice,Bool.and_comm]

def nextDone (g : DependencyGraph) (done : NodeRef → Bool) (x : NodeRef) : Bool :=
  done x || (((g.map (DependencyNode.peeled done)).filter DependencyNode.removable).map
    DependencyNode.ref).contains x

variable {g : DependencyGraph} {done : NodeRef → Bool} {n : DependencyNode}

theorem removable_peeled : (n.peeled done).removable = true ↔
    done n.ref = false ∧ ∀ a ∈ n.dependedOnBy,done a = true := by
  simp [removable,peeled,List.isEmpty_iff]

theorem mem_removed (hn : n ∈ g) (hu : ∀ a ∈ g,∀ b ∈ g,a.ref = b.ref → a = b) :
    n.ref ∈ ((g.map (peeled done)).filter removable).map
      ref ↔ (n.peeled done).removable = true := by
  constructor
  · intro hmem
    obtain ⟨p,hp,href⟩ := mem_map.mp hmem
    obtain ⟨hp,hrem⟩ := mem_filter.mp hp
    obtain ⟨a,ha,rfl⟩ := mem_map.mp hp
    cases hu a ha n hn href
    exact hrem
  · intro hrem
    apply mem_map.mpr
    exact ⟨n.peeled done,mem_filter.mpr ⟨mem_map_of_mem hn,hrem⟩,rfl⟩

theorem DependencyNode.resolve_eq (n : DependencyNode) :
    n.resolve = { n with resolved := n.resolved || n.removable } := by
  unfold resolve
  cases hrem : n.removable with
  | true => simp
  | false => simp

theorem nextDone_eq (hn : n ∈ g) (hu : ∀ a ∈ g,∀ b ∈ g,a.ref = b.ref → a = b) :
    nextDone g done n.ref = (done n.ref || (n.peeled done).removable) := by
  simp [nextDone,contains_eq_mem,mem_removed hn hu]

theorem round_peeled (hl : g.Linked) (hu : ∀ a ∈ g,∀ b ∈ g,a.ref = b.ref → a = b) :
    ((g.map (peeled done)).filter removable).foldl removeNode ((g.map (peeled done)).map resolve)
      = g.map (peeled (nextDone g done)) := by
  rw [foldl_removeNode]
  · rw [map_map,map_map]
    apply map_congr_left
    intro n hn
    have hlf : n.dependedOnBy.filter (fun a => !nextDone g done a)
        = (n.dependedOnBy.filter fun a => !done a).filter fun a => !(((g.map
            (peeled done)).filter removable).map ref).contains a := by
      simp [nextDone,Bool.and_comm]
    rw [peeled,hlf,nextDone_eq hn hu,Function.comp,Function.comp,resolve_eq]
    rfl
  · intro a ha b hb hmem
    obtain ⟨a',ha',rfl⟩ := mem_map.mp (mem_of_mem_filter ha)
    rw [map_map] at hb
    obtain ⟨b',hb',rfl⟩ := mem_map.mp hb
    rw [Function.comp,resolve_eq] at hmem ⊢
    exact hl.back a' ha' b' hb' (mem_of_mem_filter hmem)

/-- What a cycle leads to is never resolved. -/
theorem nextDone_sound (hl : g.Linked)
    (hdone : ∀ x,done x = true → ¬ AfterCycle g.Edge x) {x : NodeRef}
    (hx : nextDone g done x = true) : ¬ AfterCycle g.Edge x := by
  intro haf
  rcases Bool.or_eq_true_iff.mp hx with hbef | hnow
  · exact hdone x hbef haf
  rw [contains_eq_mem,decide_eq_true_eq] at hnow
  obtain ⟨p,hp,rfl⟩ := mem_map.mp hnow
  obtain ⟨hp,hrem⟩ := mem_filter.mp hp
  obtain ⟨n,hn,rfl⟩ := mem_map.mp hp
  obtain ⟨a,ha,m,hm,rfl,hdep⟩ := haf.exists_before
  have hmem := hl.forth m hm n hn hdep
  exact hdone m.ref ((removable_peeled.mp hrem).2 m.ref hmem) ha

theorem stuck_afterCycle (hl : g.Linked)
    (hstuck : ∀ n ∈ g,(n.peeled done).removable = false) (hn : n ∈ g)
    (hleft : done n.ref = false) : AfterCycle g.Edge n.ref := by
  have hfin : {x | x ∈ g.map ref ∧ done x = false}.Finite :=
    (finite_toSet (g.map ref)).subset fun x hx => hx.1
  refine afterCycle_of_before hfin ?_ ⟨mem_map_of_mem hn,hleft⟩
  rintro x ⟨hx,hxleft⟩
  obtain ⟨b,hb,rfl⟩ := mem_map.mp hx
  -- the node is unresolved and yet not removable, so something unresolved depends on it
  have hnot : ¬ ∀ a ∈ b.dependedOnBy,done a = true := by
    intro hall
    have hrem := removable_peeled.mpr ⟨hxleft,hall⟩
    simp [hstuck b hb] at hrem
  push Not at hnot
  obtain ⟨x,hmem,hxdone⟩ := hnot
  obtain ⟨a,ha,rfl⟩ := hl.node b hb x hmem
  exact ⟨a.ref,⟨mem_map_of_mem ha,by simpa using hxdone⟩,a,ha,rfl,hl.back a ha b hb hmem⟩

/-- The loop ends within as many rounds as there are nodes, and leaves exactly the nodes that a
cycle leads to. -/
theorem peel_ends (hl : g.Linked) (hu : ∀ a ∈ g,∀ b ∈ g,a.ref = b.ref → a = b) {fuel : Nat}
    (hdone : ∀ x,done x = true → ¬ AfterCycle g.Edge x)
    (hfuel : g.countP (fun n => !done n.ref) < fuel) : ∃ final,peel fuel (g.map (peeled done))
        = some (g.map (peeled final),g.any fun n => !final n.ref) ∧
      ∀ n ∈ g,final n.ref = false ↔ AfterCycle g.Edge n.ref := by
  induction fuel generalizing done with
  | zero => omega
  | succ fuel ih =>
    unfold peel
    by_cases hemp : ((g.map (peeled done)).filter removable).isEmpty = true
    · have hstuck : ∀ n ∈ g,(n.peeled done).removable = false := by
        intro n hn
        rw [List.isEmpty_iff,List.filter_eq_nil_iff] at hemp
        simpa using hemp (n.peeled done) (mem_map_of_mem hn)
      refine ⟨done,?_,fun n hn => ⟨stuck_afterCycle hl hstuck hn,fun haf => ?_⟩⟩
      · simp only [hemp,any_map]
        rfl
      · exact Bool.eq_false_iff.mpr fun hd => hdone n.ref hd haf
    simp only [hemp,round_peeled hl hu]
    apply ih (fun x => nextDone_sound hl hdone)
    rw [List.isEmpty_iff] at hemp
    obtain ⟨p,hp⟩ := exists_mem_of_ne_nil _ hemp
    obtain ⟨hp,hrem⟩ := mem_filter.mp hp
    obtain ⟨n,hn,rfl⟩ := mem_map.mp hp
    have hlt : g.countP (fun n => !nextDone g done n.ref) < g.countP (fun n => !done n.ref) := by
      refine countP_lt (fun a _ ha => ?_) hn ?_ ?_
      · simp only [nextDone,Bool.not_or,Bool.and_eq_true] at ha
        exact ha.1
      · simp [(removable_peeled.mp hrem).1]
      · simp [nextDone_eq hn hu,hrem]
    omega

/-! The edges that the two passes over the executing messages leave. -/

def DependencyNode.withEdges (es : List (NodeRef × NodeRef)) (n : DependencyNode) :
    DependencyNode :=
  { n with
    dependsOn := n.dependsOn ++ (es.filter fun e => e.1 = n.ref).map Prod.snd
    dependedOnBy := n.dependedOnBy ++ (es.filter fun e => e.2 = n.ref).map Prod.fst }

variable {em : ExecutingMessage} {prev : Option DependencyNode} {c : ChainID} (g : DependencyGraph)

theorem addEdge_eq (src dst : NodeRef) : g.addEdge src dst = g.map (withEdges [(src,dst)]) := by
  unfold DependencyGraph.addEdge DependencyGraph.modifyNode
  rw [map_map]
  apply map_congr_left
  intro n hn
  have hsrc : (src = n.ref) = (n.ref = src) := propext eq_comm
  have hdst : (dst = n.ref) = (n.ref = dst) := propext eq_comm
  by_cases h₁ : n.ref = src <;> by_cases h₂ : n.ref = dst <;> simp_all [withEdges,ref]

theorem withEdges_append (es es' : List (NodeRef × NodeRef)) (n : DependencyNode) :
    (n.withEdges es).withEdges es' = n.withEdges (es ++ es') := by
  simp only [withEdges,filter_append,map_append,append_assoc]
  rfl

theorem withEdges_nil : withEdges [] = id := by
  funext n
  simp [withEdges]

theorem foldl_addEdge (es : List (NodeRef × NodeRef)) :
    es.foldl (fun g e => g.addEdge e.1 e.2) g = g.map (withEdges es) := by
  induction es generalizing g with
  | nil => simp [withEdges_nil]
  | cons e es ih =>
    rw [foldl_cons,ih,addEdge_eq,map_map]
    apply map_congr_left
    intro n hn
    exact withEdges_append [e] es n

section
variable {ns : List DependencyNode} {node p x : DependencyNode} {target : UInt32}

abbrev Sorted (ns : List DependencyNode) : Prop :=
  ns.Pairwise fun a b => a.logIndex.toNat < b.logIndex.toNat

structure LastAt (ns : List DependencyNode) (target : Nat) (p : DependencyNode) : Prop where
  mem : p ∈ ns
  le : p.logIndex.toNat ≤ target
  last : ∀ q ∈ ns,q.logIndex.toNat ≤ target → q.logIndex.toNat ≤ p.logIndex.toNat

theorem executingMessageBefore_some {result : Option DependencyNode}
    (hs : Sorted (result.toList ++ ns)) (hr : ∀ p ∈ result,p.logIndex ≤ target) :
    executingMessageBefore target result ns = some p ↔
      LastAt (result.toList ++ ns) target.toNat p := by
  induction ns generalizing result with
  | nil =>
    rw [executingMessageBefore,append_nil]
    constructor
    · intro h
      refine ⟨by simp [h],hr p h,fun q hq _ => ?_⟩
      rw [h,Option.toList_some,mem_singleton] at hq
      rw [hq]
    · intro h
      simpa using h.mem
  | cons em rest ih =>
    rw [executingMessageBefore]
    by_cases hle : em.logIndex ≤ target
    · have hsuf := hs.sublist (sublist_append_right _ _)
      rw [if_pos hle,@ih (some em) hsuf (by simpa using hle),Option.toList_some]
      -- what was found before is not the last any more
      constructor
      · intro h
        refine ⟨mem_append_right _ h.mem,h.le,fun q hq hqle => ?_⟩
        rcases mem_append.mp hq with hq | hq
        · have hlt := (pairwise_append.mp hs).2.2 q hq em (by simp)
          have hem := h.last em (by simp) (UInt32.le_iff_toNat_le.mp hle)
          omega
        · exact h.last q hq hqle
      intro h
      refine ⟨?_,h.le,fun q hq => h.last q (mem_append_right _ hq)⟩
      rcases mem_append.mp h.mem with hp | hp
      · have hlt := (pairwise_append.mp hs).2.2 p hp em (by simp)
        have hem := h.last em (by simp) (UInt32.le_iff_toNat_le.mp hle)
        omega
      · exact hp
    rw [if_neg hle]
    have hbig : ∀ q ∈ em::rest,¬ q.logIndex.toNat ≤ target.toNat := by
      intro q hq hqle
      have hsuf := hs.sublist (sublist_append_right _ _)
      rw [UInt32.le_iff_toNat_le] at hle
      rcases mem_cons.mp hq with rfl | hq
      · exact hle hqle
      · have hlt := (pairwise_cons.mp hsuf).1 q hq
        omega
    constructor
    · intro h
      refine ⟨by simp [h],hr p h,fun q hq hqle => ?_⟩
      rcases mem_append.mp hq with hq | hq
      · rw [h,Option.toList_some,mem_singleton] at hq
        rw [hq]
      · exact absurd hqle (hbig q hq)
    · intro h
      rcases mem_append.mp h.mem with hp | hp
      · simpa using hp
      · exact absurd h.le (hbig p hp)

structure RightBefore (ns : List DependencyNode) (node p : DependencyNode) : Prop where
  mem : p ∈ ns
  lt : p.logIndex.toNat < node.logIndex.toNat
  last : ∀ q ∈ ns,q.logIndex.toNat < node.logIndex.toNat → q.logIndex.toNat ≤ p.logIndex.toNat

theorem rightBefore_iff : RightBefore ns node p ↔
    ∃ k,node.logIndex.toNat = k + 1 ∧ LastAt ns k p := by
  constructor
  · intro h
    have hlt := h.lt
    refine ⟨node.logIndex.toNat - 1,by omega,h.mem,by omega,fun q hq hle => ?_⟩
    exact h.last q hq (by omega)
  · rintro ⟨k,hk,h⟩
    have hle := h.le
    refine ⟨h.mem,by omega,fun q hq hlt => h.last q hq (by omega)⟩

theorem rightBefore_head (hs : Sorted (prev.toList ++ node::ns)) :
    RightBefore (prev.toList ++ node::ns) node p ↔ prev = some p := by
  have hpv := (pairwise_append.mp hs).2.2
  have hns := (pairwise_cons.mp (pairwise_append.mp hs).2.1).1
  constructor
  · intro h
    rcases mem_append.mp h.mem with hp | hp
    · simpa using hp
    rcases mem_cons.mp hp with rfl | hp
    · exact absurd h.lt (lt_irrefl _)
    · exact absurd h.lt (Nat.lt_asymm (hns p hp))
  rintro rfl
  refine ⟨by simp,hpv p (by simp) node (by simp),fun q hq hlt => ?_⟩
  rcases mem_append.mp hq with hq | hq
  · rw [Option.toList_some,mem_singleton] at hq
    rw [hq]
  rcases mem_cons.mp hq with rfl | hq
  · exact absurd hlt (lt_irrefl _)
  · exact absurd hlt (Nat.lt_asymm (hns q hq))

theorem rightBefore_tail (hs : Sorted (prev.toList ++ node::ns)) (hx : x ∈ ns) :
    RightBefore (prev.toList ++ node::ns) x p ↔ RightBefore (node::ns) x p := by
  have hpv := (pairwise_append.mp hs).2.2
  have hns := (pairwise_cons.mp (pairwise_append.mp hs).2.1).1
  -- the node of the tail comes after the head, which comes after the one before
  have hbetween := hns x hx
  constructor
  · intro h
    refine ⟨?_,h.lt,fun q hq => h.last q (mem_append_right _ hq)⟩
    rcases mem_append.mp h.mem with hp | hp
    · have hlt := hpv p hp node (by simp)
      have hle := h.last node (by simp) hbetween
      omega
    · exact hp
  intro h
  refine ⟨mem_append_right _ h.mem,h.lt,fun q hq hlt => ?_⟩
  rcases mem_append.mp hq with hq | hq
  · have hqlt := hpv q hq node (by simp)
    have hle := h.last node (by simp) hbetween
    omega
  · exact h.last q hq hlt

end

namespace ChainMessages
variable {m : ChainMessages} {ts : UInt64} {ns : List DependencyNode} {node : DependencyNode}
  {a b : NodeRef} {n : DependencyNode} {x y : NodeRef}

def target (m : ChainMessages) (ts : UInt64) (node : DependencyNode) : Option DependencyNode :=
  executingMessageBefore node.execMsg.logIdx none
    (m.orderedExecutingMessages ts node.execMsg.chainID)

def chainEdges (m : ChainMessages) (ts : UInt64) :
    Option DependencyNode → List DependencyNode → List (NodeRef × NodeRef)
  | _,[] => []
  | prev,node::rest =>
    (prev.toList ++ (m.target ts node).toList).map (fun t => (node.ref,t.ref)) ++
      chainEdges m ts (some node) rest

theorem addEdges_eq (g : DependencyGraph) (prev : Option DependencyNode) : m.addEdges ts g prev ns
    = (m.chainEdges ts prev ns).foldl (fun g e => g.addEdge e.1 e.2) g := by
  induction ns generalizing g prev with
  | nil => rfl
  | cons node rest ih =>
    unfold addEdges
    rw [chainEdges,foldl_append,ih]
    unfold target
    cases prev with
    | none => split <;> rename_i heq <;> simp [heq]
    | some p => split <;> rename_i heq <;> simp [heq]

theorem mem_chainEdges (hs : Sorted (prev.toList ++ ns)) :
    (a,b) ∈ m.chainEdges ts prev ns ↔ ∃ node ∈ ns,node.ref = a ∧
      ∃ t,t.ref = b ∧ (RightBefore (prev.toList ++ ns) node t ∨ m.target ts node = some t) := by
  induction ns generalizing prev with
  | nil => simp [chainEdges]
  | cons node rest ih =>
    have hsuf := hs.sublist (sublist_append_right _ _)
    have hrs := @ih (some node) hsuf
    rw [chainEdges,mem_append,hrs,exists_mem_cons_iff]
    apply or_congr
    · simp only [mem_map,mem_append,Option.mem_toList,Prod.mk.injEq,rightBefore_head hs]
      constructor
      · rintro ⟨t,ht,hnd,hb⟩
        exact ⟨hnd,t,hb,ht⟩
      · rintro ⟨hnd,t,hb,ht⟩
        exact ⟨t,ht,hnd,hb⟩
    · constructor
      · rintro ⟨x,hx,hxa,t,hb,ht⟩
        exact ⟨x,hx,hxa,t,hb,ht.imp_left (rightBefore_tail hs hx).mpr⟩
      · rintro ⟨x,hx,hxa,t,hb,ht⟩
        exact ⟨x,hx,hxa,t,hb,ht.imp_left (rightBefore_tail hs hx).mp⟩

def ExecutesAt (m : ChainMessages) (ts : UInt64) (x : NodeRef) (em : ExecutingMessage) : Prop :=
  em.timestamp = ts ∧ ∃ ems,(x.1,ems) ∈ m.entries ∧ (x.2,some em) ∈ ems

def newNodeAt (x : NodeRef) (em : ExecutingMessage) : DependencyNode := ⟨x.1,x.2,em,false,[],[]⟩

theorem mem_nodes : n ∈ m.nodes ts ↔ ∃ x em,m.ExecutesAt ts x em ∧ n = newNodeAt x em := by
  unfold nodes
  rw [mem_flatMap]
  constructor
  · rintro ⟨e,he,hn⟩
    obtain ⟨⟨i,em⟩,hi,hnd⟩ := mem_filterMap.mp hn
    cases em with
    | none => cases hnd
    | some em =>
      simp only [newNode] at hnd
      split at hnd
      · rename_i hts
        cases hnd
        exact ⟨(e.1,i),em,⟨hts,e.2,he,hi⟩,rfl⟩
      · cases hnd
  · rintro ⟨x,em,⟨hts,ems,he,hi⟩,rfl⟩
    exact ⟨(x.1,ems),he,mem_filterMap.mpr ⟨_,hi,by simp [newNode,hts,newNodeAt]⟩⟩

theorem executesAt_unique {em' : ExecutingMessage} (h : m.ExecutesAt ts x em)
    (h' : m.ExecutesAt ts x em') : em = em' := by
  obtain ⟨-,ems,he,hi⟩ := h
  obtain ⟨-,ems',he',hi'⟩ := h'
  have hsm := inj_on_of_nodup_map m.chains_nodup he he' rfl
  cases hsm
  have hen := inj_on_of_nodup_map (m.logs_nodup _ he) hi hi' rfl
  cases hen
  rfl

theorem nodes_unique : ∀ n ∈ m.nodes ts,∀ n' ∈ m.nodes ts,n.ref = n'.ref → n = n' := by
  intro n hn n' hn' href
  obtain ⟨x,em,h,rfl⟩ := mem_nodes.mp hn
  obtain ⟨x',em',h',rfl⟩ := mem_nodes.mp hn'
  cases (show x = x' from href)
  rw [executesAt_unique h h']

theorem newNode_some {entry : UInt32 × Option ExecutingMessage} (h : newNode ts c entry = some n) :
    n.chainID = c ∧ entry = (n.logIndex,some n.execMsg) := by
  obtain ⟨i,em⟩ := entry
  cases em with
  | none => cases h
  | some em =>
    simp only [newNode] at h
    split at h
    · cases h
      exact ⟨rfl,rfl⟩
    · cases h

theorem nodes_nodup : (m.nodes ts).Nodup := by
  apply nodup_flatMap.mpr
  refine ⟨fun e he => ?_,?_⟩
  · apply (m.logs_nodup e he).of_map.filterMap
    intro entry entry' n h h'
    rw [(newNode_some h).2,(newNode_some h').2]
  refine (pairwise_map.mp m.chains_nodup).imp fun hne n hn hn' => hne ?_
  obtain ⟨_,-,h⟩ := mem_filterMap.mp hn
  obtain ⟨_,-,h'⟩ := mem_filterMap.mp hn'
  exact (newNode_some h).1.symm.trans (newNode_some h').1

theorem mem_ordered : n ∈ m.orderedExecutingMessages ts c ↔ n ∈ m.nodes ts ∧ n.chainID = c := by
  simp [orderedExecutingMessages]

theorem ordered_sorted (c : ChainID) : Sorted (m.orderedExecutingMessages ts c) := by
  have hnd : (m.orderedExecutingMessages ts c).Nodup :=
    (mergeSort_perm _ _).nodup_iff.mpr (nodes_nodup.filter _)
  have hle : (m.orderedExecutingMessages ts c).Pairwise
      fun a b => a.logIndex.toNat ≤ b.logIndex.toNat := by
    refine (pairwise_mergeSort ?_ ?_ _).imp fun h => UInt32.le_iff_toNat_le.mp (of_decide_eq_true h)
    · intro a b c hab hbc
      simp only [decide_eq_true_eq,UInt32.le_iff_toNat_le] at hab hbc ⊢
      omega
    simp only [Bool.or_eq_true,decide_eq_true_eq,UInt32.le_iff_toNat_le]
    omega
  refine (hle.and hnd).imp_of_mem fun {a b} ha hb h => ?_
  obtain ⟨ha,hac⟩ := mem_ordered.mp ha
  obtain ⟨hb,hbc⟩ := mem_ordered.mp hb
  refine lt_of_le_of_ne h.1 fun hidx => h.2 (nodes_unique a ha b hb ?_)
  rw [ref,ref,hac,hbc,UInt32.toNat_inj.mp hidx]

structure Latest (m : ChainMessages) (ts : UInt64) (c : ChainID) (k : Nat) (b : NodeRef) : Prop where
  chain : b.1 = c
  executes : ∃ em,m.ExecutesAt ts b em
  le : b.2.toNat ≤ k
  last : ∀ i em,m.ExecutesAt ts (c,i) em → i.toNat ≤ k → i.toNat ≤ b.2.toNat

theorem latest_iff {k : Nat} :
    m.Latest ts c k b ↔ ∃ t,t.ref = b ∧ LastAt (m.orderedExecutingMessages ts c) k t := by
  constructor
  · intro h
    obtain ⟨em,hem⟩ := h.executes
    refine ⟨newNodeAt b em,rfl,mem_ordered.mpr ⟨mem_nodes.mpr ⟨b,em,hem,rfl⟩,h.chain⟩,h.le,?_⟩
    intro q hq hle
    obtain ⟨hq,hch⟩ := mem_ordered.mp hq
    obtain ⟨x,em',hx,rfl⟩ := mem_nodes.mp hq
    apply h.last x.2 em' ?_ hle
    rw [← hch]
    exact hx
  · rintro ⟨t,rfl,h⟩
    obtain ⟨ht,hch⟩ := mem_ordered.mp h.mem
    obtain ⟨x,em,hx,rfl⟩ := mem_nodes.mp ht
    refine ⟨hch,⟨em,hx⟩,h.le,fun i em' hi hle => ?_⟩
    exact h.last (newNodeAt (c,i) em') (mem_ordered.mpr ⟨mem_nodes.mpr ⟨(c,i),em',hi,rfl⟩,rfl⟩) hle

/-- An executing log depends on the executing log before it, and on the latest one at or before the
log it refers to. -/
def Depends (m : ChainMessages) (ts : UInt64) (a b : NodeRef) : Prop :=
  ∃ em,m.ExecutesAt ts a em ∧ ((∃ k,a.2.toNat = k + 1 ∧ m.Latest ts a.1 k b) ∨
    m.Latest ts em.chainID em.logIdx.toNat b)

theorem target_some {t : DependencyNode} : m.target ts node = some t ↔
    LastAt (m.orderedExecutingMessages ts node.execMsg.chainID) node.execMsg.logIdx.toNat t :=
  executingMessageBefore_some (ordered_sorted _) (by simp)

theorem mem_edges_of_chain :
    (a,b) ∈ m.chainEdges ts none (m.orderedExecutingMessages ts c) ↔ a.1 = c ∧ m.Depends ts a b := by
  rw [mem_chainEdges (ordered_sorted c)]
  constructor
  · rintro ⟨node,hnd,rfl,t,rfl,ht⟩
    obtain ⟨hnd,hch⟩ := mem_ordered.mp hnd
    obtain ⟨x,em,hx,rfl⟩ := mem_nodes.mp hnd
    subst hch
    refine ⟨rfl,em,hx,?_⟩
    rcases ht with hbef | htgt
    · obtain ⟨k,hk,hls⟩ := rightBefore_iff.mp hbef
      exact .inl ⟨k,hk,latest_iff.mpr ⟨t,rfl,hls⟩⟩
    · exact .inr (latest_iff.mpr ⟨t,rfl,target_some.mp htgt⟩)
  · rintro ⟨hc,em,hem,hdep⟩
    refine ⟨newNodeAt a em,mem_ordered.mpr ⟨mem_nodes.mpr ⟨a,em,hem,rfl⟩,hc⟩,rfl,?_⟩
    rcases hdep with ⟨k,hk,hlat⟩ | hlat
    · obtain ⟨t,ht,hls⟩ := latest_iff.mp hlat
      exact ⟨t,ht,.inl (rightBefore_iff.mpr ⟨k,hk,hc ▸ hls⟩)⟩
    · obtain ⟨t,ht,hls⟩ := latest_iff.mp hlat
      exact ⟨t,ht,.inr (target_some.mpr hls)⟩

def edges (m : ChainMessages) (ts : UInt64) (second : m.SecondPass ts) : List (NodeRef × NodeRef) :=
  second.order.flatMap fun c => m.chainEdges ts none (m.orderedExecutingMessages ts c)

theorem buildCycleGraph_eq (second : m.SecondPass ts) :
    m.buildCycleGraph ts second = (m.nodes ts).map (withEdges (m.edges ts second)) := by
  rw [← foldl_addEdge]
  unfold buildCycleGraph edges
  generalize m.nodes ts = g
  induction second.order generalizing g with
  | nil => rfl
  | cons c rest ih =>
    rw [foldl_cons,flatMap_cons,foldl_append,addEdges_eq]
    exact ih _

theorem mem_edges {second : m.SecondPass ts} : (a,b) ∈ m.edges ts second ↔ m.Depends ts a b := by
  unfold edges
  simp only [mem_flatMap,mem_edges_of_chain]
  constructor
  · rintro ⟨c,-,-,h⟩
    exact h
  intro h
  have ⟨em,hem,_⟩ := h
  exact ⟨a.1,(second.mem_iff a.1).mpr ⟨newNodeAt a em,mem_nodes.mpr ⟨a,em,hem,rfl⟩,rfl⟩,rfl,h⟩

variable {second : m.SecondPass ts} {n : DependencyNode}

theorem mem_graph : n ∈ m.buildCycleGraph ts second ↔ ∃ x em,m.ExecutesAt ts x em ∧
    n = (newNodeAt x em).withEdges (m.edges ts second) := by
  rw [buildCycleGraph_eq,mem_map]
  constructor
  · rintro ⟨n,hn,rfl⟩
    obtain ⟨x,em,h,rfl⟩ := mem_nodes.mp hn
    exact ⟨x,em,h,rfl⟩
  · rintro ⟨x,em,h,rfl⟩
    exact ⟨newNodeAt x em,mem_nodes.mpr ⟨x,em,h,rfl⟩,rfl⟩

theorem ExecutesAt.mem_graph (h : m.ExecutesAt ts x em) (second : m.SecondPass ts) :
    (newNodeAt x em).withEdges (m.edges ts second) ∈ m.buildCycleGraph ts second :=
  ChainMessages.mem_graph.mpr ⟨x,em,h,rfl⟩

theorem mem_dependsOn :
    y ∈ ((newNodeAt x em).withEdges (m.edges ts second)).dependsOn ↔ m.Depends ts x y := by
  rw [← @mem_edges m ts x y second]
  simp [withEdges,newNodeAt,ref]

theorem mem_dependedOnBy :
    x ∈ ((newNodeAt y em).withEdges (m.edges ts second)).dependedOnBy ↔ m.Depends ts x y := by
  rw [← @mem_edges m ts x y second]
  simp [withEdges,newNodeAt,ref]

theorem graph_linked : (m.buildCycleGraph ts second).Linked where
  back := by
    intro a ha b hb hmem
    obtain ⟨x,em,-,rfl⟩ := mem_graph.mp ha
    obtain ⟨y,em',-,rfl⟩ := mem_graph.mp hb
    exact mem_dependsOn.mpr (mem_dependedOnBy.mp hmem)
  forth := by
    intro a ha b hb hmem
    obtain ⟨x,em,-,rfl⟩ := mem_graph.mp ha
    obtain ⟨y,em',-,rfl⟩ := mem_graph.mp hb
    exact mem_dependedOnBy.mpr (mem_dependsOn.mp hmem)
  node := by
    intro b hb x hx
    obtain ⟨y,em,-,rfl⟩ := mem_graph.mp hb
    obtain ⟨em',hem',-⟩ := mem_dependedOnBy.mp hx
    exact ⟨_,hem'.mem_graph second,rfl⟩

theorem graph_unique : ∀ n ∈ m.buildCycleGraph ts second,∀ n' ∈ m.buildCycleGraph ts second,
    n.ref = n'.ref → n = n' := by
  intro n hn n' hn' href
  obtain ⟨x,em,h,rfl⟩ := mem_graph.mp hn
  obtain ⟨y,em',h',rfl⟩ := mem_graph.mp hn'
  cases (show x = y from href)
  rw [executesAt_unique h h']

theorem edge_iff : (m.buildCycleGraph ts second).Edge a b ↔ m.Depends ts a b := by
  constructor
  · rintro ⟨n,hn,rfl,hmem⟩
    obtain ⟨x,em,-,rfl⟩ := mem_graph.mp hn
    exact mem_dependsOn.mp hmem
  intro h
  have ⟨em,hem,_⟩ := h
  exact ⟨_,hem.mem_graph second,rfl,mem_dependsOn.mpr h⟩

end ChainMessages

end OpStack.Supernode
