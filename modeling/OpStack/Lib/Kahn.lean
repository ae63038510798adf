import OpStack.Lib.Outcome
import Mathlib.Order.WellFounded
import Mathlib.Data.Set.Finite.Basic

namespace OpStack.Lib
open Relation List
variable {α : Type} {r : α → α → Prop} {a b : α}

def OnCycle (r : α → α → Prop) (a : α) : Prop := TransGen r a a

def AfterCycle (r : α → α → Prop) (b : α) : Prop := ∃ a,OnCycle r a ∧ ReflTransGen r a b

theorem OnCycle.afterCycle (h : OnCycle r a) : AfterCycle r a := ⟨a,h,.refl⟩

/-- What leads to such an element can be followed back for ever. -/
theorem AfterCycle.exists_before (h : AfterCycle r b) : ∃ a,AfterCycle r a ∧ r a b := by
  obtain ⟨c,hc,hcb⟩ := h
  cases hcb with
  | refl =>
    obtain ⟨a,hca,hac⟩ := TransGen.tail'_iff.mp hc
    exact ⟨a,⟨b,hc,hca⟩,hac⟩
  | tail hca hab => exact ⟨_,⟨c,hc,hca⟩,hab⟩

/-- A cycle of one relation is one of another if its own steps are. -/
theorem OnCycle.mono_on {r' : α → α → Prop} (h : OnCycle r a)
    (hr : ∀ x y,ReflTransGen r a x → r x y → ReflTransGen r y a → r' x y) : OnCycle r' a := by
  have hst : ∀ b,TransGen r a b → ReflTransGen r b a → TransGen r' a b := by
    intro b hab
    induction hab with
    | single hab =>
      intro hba
      exact .single (hr _ _ .refl hab hba)
    | tail hax hxy ih =>
      intro hya
      exact (ih (hya.head hxy)).tail (hr _ _ hax.to_reflTransGen hxy hya)
  exact hst a h .refl

/-- In a finite set each element of which has another before it, there is a cycle. -/
theorem exists_onCycle {S : Set α} (hfin : S.Finite) (hne : S.Nonempty)
    (hbefore : ∀ b ∈ S,∃ a ∈ S,r a b) : ∃ a ∈ S,OnCycle r a := by
  by_contra hnone
  have hno : ∀ a ∈ S,¬ TransGen r a a := fun a ha hcyc => hnone ⟨a,ha,hcyc⟩
  let before (x y : S) : Prop := TransGen r x.1 y.1
  have : Finite S := hfin
  have hirrefl : Std.Irrefl before := ⟨fun x => hno x.1 x.2⟩
  have hwf := Finite.wellFounded_of_trans_of_irrefl before
  obtain ⟨b,hb⟩ := hne
  obtain ⟨m,-,hmin⟩ := hwf.has_min Set.univ ⟨⟨b,hb⟩,trivial⟩
  obtain ⟨a,ha,ham⟩ := hbefore m.1 m.2
  exact hmin ⟨a,ha⟩ trivial (.single ham)

/-- The elements of such a set are those that a cycle leads to. -/
theorem afterCycle_of_before {S : Set α} (hfin : S.Finite)
    (hbefore : ∀ b ∈ S,∃ a ∈ S,r a b) (hb : b ∈ S) : AfterCycle r b := by
  obtain ⟨a,⟨-,hab⟩,hcyc⟩ := @exists_onCycle α r {a | a ∈ S ∧ ReflTransGen r a b}
    (hfin.subset fun _ h => h.1) ⟨b,hb,.refl⟩ (fun c hc => by
      obtain ⟨a,ha,hac⟩ := hbefore c hc.1
      exact ⟨a,⟨ha,hc.2.head hac⟩,hac⟩)
  exact ⟨a,hcyc,hab⟩

variable [DecidableEq α]

/-- A graph in the course of a topological sort. A node that still has incoming edges is in
`inDegreeNon0` once for each of them. -/
structure KahnGraph (α : Type) where
  inDegree0 : List α
  inDegreeNon0 : List α
  outgoingEdges : List (α × α)

namespace KahnGraph

def empty : KahnGraph α := ⟨[],[],[]⟩

def addRoot (g : KahnGraph α) (a : α) : KahnGraph α :=
  { g with inDegree0 := a :: g.inDegree0 }

def addEdge (g : KahnGraph α) (src dst : α) : KahnGraph α where
  inDegree0 := g.inDegree0.filter fun a => a ≠ dst
  inDegreeNon0 := dst :: g.inDegreeNon0
  outgoingEdges := (src,dst) :: g.outgoingEdges

omit [DecidableEq α] in
@[simp] theorem addRoot_outgoingEdges (g : KahnGraph α) (a : α) :
    (g.addRoot a).outgoingEdges = g.outgoingEdges := rfl

@[simp] theorem addEdge_outgoingEdges (g : KahnGraph α) (src dst : α) :
    (g.addEdge src dst).outgoingEdges = (src,dst) :: g.outgoingEdges := rfl

def release (g : KahnGraph α) (out : α) : KahnGraph α :=
  if out ∈ g.inDegreeNon0.erase out then { g with inDegreeNon0 := g.inDegreeNon0.erase out }
  else { g with inDegreeNon0 := g.inDegreeNon0.erase out, inDegree0 := out :: g.inDegree0 }

def outgoing (g : KahnGraph α) (a : α) : List α :=
  (g.outgoingEdges.filter fun e => e.1 = a).map Prod.snd

def remove (g : KahnGraph α) (a : α) : KahnGraph α :=
  let g' := (g.outgoing a).foldl release g
  { g' with
    inDegree0 := g'.inDegree0.filter fun b => b ≠ a
    outgoingEdges := g'.outgoingEdges.filter fun e => e.1 ≠ a }

/-- The next node without incoming edges is removed, in any order. Once there is none left, the
graph is sorted if no other node is left either. -/
def checkStep (order : Nat → List α → List α) (s : Nat × KahnGraph α) :
    Except Empty ((Nat × KahnGraph α) ⊕ Bool) :=
  match order s.1 s.2.inDegree0 with
  | [] => .ok (.inr s.2.inDegreeNon0.isEmpty)
  | a::_ => .ok (.inl (s.1 + 1,s.2.remove a))

def check (order : Nat → List α → List α) (fuel : Nat) (g : KahnGraph α) :
    Option (Except Empty Bool) :=
  loop (checkStep order) fuel (0,g)

/-! The graph of a list of edges after some nodes were removed. -/

def left (edges : List (α × α)) (done : List α) : List (α × α) :=
  edges.filter fun e => e.1 ∉ done

structure Stage (nodes : List α) (edges : List (α × α)) (done : List α) (g : KahnGraph α) :
    Prop where
  outgoing : g.outgoingEdges.Perm (left edges done)
  degrees : g.inDegreeNon0.Perm ((left edges done).map Prod.snd)
  roots : ∀ a,a ∈ g.inDegree0 ↔ a ∈ nodes ∧ a ∉ done ∧ ∀ b,(b,a) ∈ edges → b ∈ done
  subset : ∀ a ∈ done,a ∈ nodes
  nodup : done.Nodup
  closed : ∀ a b,(a,b) ∈ edges → b ∈ done → a ∈ done
  acyclic : ∀ a ∈ done,¬ OnCycle (fun a b => (a,b) ∈ edges) a

theorem foldl_release (outs : List α) (g : KahnGraph α) :
    (outs.foldl release g).outgoingEdges = g.outgoingEdges ∧
    (outs.foldl release g).inDegreeNon0 = g.inDegreeNon0.diff outs ∧
    ∀ a,a ∈ (outs.foldl release g).inDegree0 ↔
      a ∈ g.inDegree0 ∨ a ∈ outs ∧ a ∉ g.inDegreeNon0.diff outs := by
  induction outs generalizing g with
  | nil => simp
  | cons out outs ih =>
    obtain ⟨hed,hdegrees,hrts⟩ := ih (g.release out)
    have hnon0 : (g.release out).inDegreeNon0 = g.inDegreeNon0.erase out := by
      unfold release
      split <;> rfl
    rw [foldl_cons,diff_cons,← hnon0]
    refine ⟨?_,hdegrees,?_⟩
    · rw [hed]
      unfold release
      split <;> rfl
    intro a
    rw [hrts]
    unfold release
    split
    · rename_i hmore
      -- an edge is left, so the node is released again or not at all
      constructor
      · rintro (h | ⟨h,hnot⟩)
        · exact .inl h
        · exact .inr ⟨mem_cons_of_mem _ h,hnot⟩
      rintro (h | ⟨h,hnot⟩)
      · exact .inl h
      rcases mem_cons.mp h with rfl | h
      · by_cases houts : a ∈ outs
        · exact .inr ⟨houts,hnot⟩
        · exact absurd (mem_diff_of_mem hmore houts) hnot
      · exact .inr ⟨h,hnot⟩
    · rename_i hls
      constructor
      · rintro (h | ⟨h,hnot⟩)
        · rcases mem_cons.mp h with rfl | h
          · exact .inr ⟨mem_cons_self,fun h => hls ((diff_subset _ _) h)⟩
          · exact .inl h
        · exact .inr ⟨mem_cons_of_mem _ h,hnot⟩
      rintro (h | ⟨h,hnot⟩)
      · exact .inl (mem_cons_of_mem _ h)
      rcases mem_cons.mp h with rfl | h
      · exact .inl mem_cons_self
      · exact .inr ⟨h,hnot⟩

variable {nodes : List α} {edges : List (α × α)} {done : List α} {g : KahnGraph α} {roots : List α}

theorem left_cons (edges : List (α × α)) (done : List α) (a : α) :
    left edges (a::done) = (left edges done).filter fun e => e.1 ≠ a := by
  simp only [left,filter_filter,not_or]
  apply filter_congr
  simp

theorem mem_left {e : α × α} : e ∈ left edges done ↔ e ∈ edges ∧ e.1 ∉ done := by
  simp [left]

theorem append_diff_self (l t : List α) : (l ++ t).diff l = t := by
  induction l with
  | nil => rfl
  | cons a l ih => rw [cons_append,diff_cons,erase_cons_head,ih]

theorem Stage.degrees_remove (h : Stage nodes edges done g) (a : α) :
    (g.inDegreeNon0.diff (g.outgoing a)).Perm ((left edges (a::done)).map Prod.snd) := by
  have hsp : (left edges done).Perm
      (((left edges done).filter fun e => e.1 = a) ++ left edges (a::done)) := by
    rw [left_cons]
    have := (filter_append_perm (fun e : α × α => decide (e.1 = a)) (left edges done)).symm
    simpa using this
  have hout : (g.outgoing a).Perm (((left edges done).filter fun e => e.1 = a).map Prod.snd) :=
    (h.outgoing.filter _).map _
  have hdeg : g.inDegreeNon0.Perm (g.outgoing a ++ (left edges (a::done)).map Prod.snd) := by
    refine h.degrees.trans ((hsp.map _).trans ?_)
    rw [map_append]
    exact hout.symm.append_right _
  have hdiff := hdeg.diff_right (g.outgoing a)
  rw [append_diff_self] at hdiff
  exact hdiff

theorem Stage.remove (h : Stage nodes edges done g)
    (hnodes : ∀ e ∈ edges,e.1 ∈ nodes ∧ e.2 ∈ nodes) (ha : a ∈ g.inDegree0) :
    Stage nodes edges (a::done) (g.remove a) := by
  obtain ⟨hed,hdegrees,hrts⟩ := foldl_release (g.outgoing a) g
  obtain ⟨hmem,hfr,hbef⟩ := (h.roots a).mp ha
  have hdeg := h.degrees_remove a
  constructor
  · unfold KahnGraph.remove
    simp only [hed,left_cons]
    exact h.outgoing.filter _
  · unfold KahnGraph.remove
    simp only [hdegrees]
    exact hdeg
  · intro b
    have hout : b ∈ g.outgoing a ↔ (a,b) ∈ edges := by
      unfold KahnGraph.outgoing
      simp only [mem_map,mem_filter,h.outgoing.mem_iff,mem_left,decide_eq_true_eq]
      constructor
      · rintro ⟨⟨c,d⟩,⟨⟨he,_⟩,rfl⟩,rfl⟩
        exact he
      · intro he
        exact ⟨(a,b),⟨⟨he,hfr⟩,rfl⟩,rfl⟩
    have hlf : b ∈ g.inDegreeNon0.diff (g.outgoing a) ↔ ∃ c,(c,b) ∈ edges ∧ c ∉ a::done := by
      rw [hdeg.mem_iff]
      simp only [mem_map,mem_left]
      constructor
      · rintro ⟨⟨c,d⟩,he,rfl⟩
        exact ⟨c,he⟩
      · rintro ⟨c,he⟩
        exact ⟨(c,b),he,rfl⟩
    unfold KahnGraph.remove
    simp only [mem_filter,hrts,h.roots,hout,hlf,decide_eq_true_eq]
    constructor
    · rintro ⟨⟨hb,hbfresh,hbbefore⟩ | ⟨he,hno⟩,hne⟩
      · exact ⟨hb,by simp [hne,hbfresh],fun c hc => mem_cons_of_mem _ (hbbefore c hc)⟩
      refine ⟨(hnodes _ he).2,?_,?_⟩
      · intro hbdone
        rcases mem_cons.mp hbdone with rfl | hbdone
        · exact hne rfl
        · exact hfr (h.closed a b he hbdone)
      · intro c hc
        by_contra hcnot
        exact hno ⟨c,hc,hcnot⟩
    rintro ⟨hb,hbfresh,hbbefore⟩
    simp only [mem_cons,not_or] at hbfresh
    refine ⟨?_,hbfresh.1⟩
    by_cases he : (a,b) ∈ edges
    · refine .inr ⟨he,?_⟩
      rintro ⟨c,hc,hcnot⟩
      exact hcnot (hbbefore c hc)
    refine .inl ⟨hb,hbfresh.2,?_⟩
    intro c hc
    rcases mem_cons.mp (hbbefore c hc) with rfl | hcdone
    · exact absurd hc he
    · exact hcdone
  · intro b hb
    rcases mem_cons.mp hb with rfl | hb
    · exact hmem
    · exact h.subset b hb
  · exact nodup_cons.mpr ⟨hfr,h.nodup⟩
  · intro b c he hc
    rcases mem_cons.mp hc with rfl | hc
    · exact mem_cons_of_mem _ (hbef b he)
    · exact mem_cons_of_mem _ (h.closed b c he hc)
  · intro b hb hcyc
    rcases mem_cons.mp hb with rfl | hb
    · obtain ⟨c,hbc,hcb⟩ := Relation.TransGen.tail'_iff.mp hcyc
      have hc := hbef c hcb
      exact h.acyclic c hc (Relation.TransGen.head' hcb hbc)
    · exact h.acyclic b hb hcyc

/-- With no node left that can be removed, all are removed unless there is a cycle. -/
theorem Stage.ends (h : Stage nodes edges done g)
    (hnodes : ∀ e ∈ edges,e.1 ∈ nodes ∧ e.2 ∈ nodes) (hempty : g.inDegree0 = []) :
    g.inDegreeNon0.isEmpty = true ↔ ∀ a,¬ OnCycle (fun a b => (a,b) ∈ edges) a := by
  have hlf : g.inDegreeNon0.isEmpty = true ↔ ∀ a b,(a,b) ∈ edges → a ∈ done := by
    rw [List.isEmpty_iff,← List.length_eq_zero_iff,h.degrees.length_eq,List.length_map,
      length_eq_zero_iff,left,filter_eq_nil_iff]
    constructor
    · simpa using hall _ he
    · simpa using hall e.1 e.2 he
  rw [hlf]
  constructor
  · intro hall a hcyc
    obtain ⟨b,hab,_⟩ := Relation.TransGen.head'_iff.mp hcyc
    exact h.acyclic a (hall a b hab) hcyc
  intro hno a b he
  by_contra hnot
  -- every node that is left has one before it that is left too
  have hfin : {x | x ∈ nodes ∧ x ∉ done}.Finite := (finite_toSet nodes).subset fun _ h => h.1
  have hbef : ∀ y ∈ {x | x ∈ nodes ∧ x ∉ done},∃ x ∈ {x | x ∈ nodes ∧ x ∉ done},(x,y) ∈ edges := by
    rintro y ⟨hy,hynot⟩
    have hrt : y ∉ g.inDegree0 := by simp [hempty]
    rw [h.roots] at hrt
    push Not at hrt
    obtain ⟨x,hxy,hx⟩ := hrt hy hynot
    exact ⟨x,⟨(hnodes _ hxy).1,hx⟩,hxy⟩
  obtain ⟨x,_,hcyc⟩ := exists_onCycle hfin ⟨a,(hnodes _ he).1,hnot⟩ hbef
  exact hno x hcyc

/-- The sort ends, and it succeeds iff the graph has no cycle. -/
theorem check_eq (h : Stage nodes edges [] g) (hnodes : ∀ e ∈ edges,e.1 ∈ nodes ∧ e.2 ∈ nodes)
    {order : Nat → List α → List α} (horder : ∀ k l,(order k l).Perm l) {fuel : Nat}
    (hfuel : nodes.length < fuel) : ∃ b,g.check order fuel = some (.ok b) ∧
      (b = true ↔ ∀ a,¬ OnCycle (fun a b => (a,b) ∈ edges) a) := by
  have hbody : ∀ k (s : Nat × KahnGraph α),
      (∃ done,Stage nodes edges done s.2 ∧ nodes.length = k + done.length) →
      Ends (Rounds (fun k s => ∃ done,Stage nodes edges done s.2 ∧ nodes.length = k + done.length)
        (fun b => b = true ↔ ∀ a,¬ OnCycle (fun a b => (a,b) ∈ edges) a) k) (fun _ => False)
        (checkStep order s) := by
    rintro k ⟨i,g⟩ ⟨done,hstg,hk⟩
    unfold checkStep
    split
    · rename_i hnil
      have hemp : g.inDegree0 = [] := by
        have hpm := horder i g.inDegree0
        rw [hnil] at hpm
        exact hpm.symm.eq_nil
      exact hstg.ends hnodes hemp
    rename_i a rest hcs
    have hmem : a ∈ g.inDegree0 := by
      apply (horder i g.inDegree0).mem_iff.mp
      rw [hcs]
      exact mem_cons_self
    have hnx := hstg.remove hnodes hmem
    have hlen := (subperm_of_subset hnx.nodup hnx.subset).length_le
    rw [length_cons] at hlen
    exact ⟨k - 1,by omega,a::done,hnx,by rw [length_cons]; omega⟩
  have hsta : ∃ done,Stage nodes edges done (0,g).2 ∧
      nodes.length = nodes.length + done.length := ⟨[],h,rfl⟩
  have hreturns := loop_returns hbody hsta hfuel
  obtain ⟨x,hx⟩ := Option.isSome_iff_exists.mp hreturns
  have hend := loop_ends hbody hsta hx
  cases x with
  | error e => exact e.elim
  | ok b => exact ⟨b,hx,hend⟩

/-! A graph that is built edge by edge. -/

/-- The in-degrees count the edges, and the roots without an edge have none. -/
structure Built (roots : List α) (g : KahnGraph α) : Prop where
  degrees : g.inDegreeNon0 = g.outgoingEdges.map Prod.snd
  roots : ∀ a,a ∈ g.inDegree0 ↔ a ∈ roots ∧ ∀ b,(b,a) ∉ g.outgoingEdges

omit [DecidableEq α] in
theorem Built.empty : Built [] (.empty : KahnGraph α) :=
  ⟨rfl,fun a => by simp [KahnGraph.empty]⟩

omit [DecidableEq α] in
theorem Built.addRoot (h : Built roots g)
    (hnone : ∀ b,(b,a) ∉ g.outgoingEdges) : Built (a::roots) (g.addRoot a) := by
  refine ⟨h.degrees,?_⟩
  intro b
  simp only [KahnGraph.addRoot,mem_cons,h.roots]
  constructor
  · rintro (rfl | ⟨hb,hb'⟩)
    · exact ⟨.inl rfl,hnone⟩
    · exact ⟨.inr hb,hb'⟩
  rintro ⟨rfl | hb,hb'⟩
  · exact .inl rfl
  · exact .inr ⟨hb,hb'⟩

theorem Built.addEdge (h : Built roots g) (src dst : α) : Built roots (g.addEdge src dst) := by
  refine ⟨by simp [KahnGraph.addEdge,h.degrees],?_⟩
  intro b
  simp only [KahnGraph.addEdge,mem_filter,h.roots,decide_eq_true_eq,mem_cons,
    Prod.mk.injEq,not_or,not_and]
  constructor
  · rintro ⟨⟨hb,hb'⟩,hne⟩
    exact ⟨hb,fun c => ⟨fun _ => hne,hb' c⟩⟩
  · rintro ⟨hb,hb'⟩
    exact ⟨⟨hb,fun c => (hb' c).2⟩,(hb' src).1 rfl⟩

theorem Built.stage (h : Built roots g) (hroots : ∀ a ∈ roots,a ∈ nodes)
    (hothers : ∀ a ∈ nodes,a ∈ roots ∨ ∃ b,(b,a) ∈ g.outgoingEdges) :
    Stage nodes g.outgoingEdges [] g := by
  refine ⟨?_,?_,?_,?_,nodup_nil,?_,?_⟩
  · simp [left]
  · simp [left,h.degrees]
  · intro a
    rw [h.roots]
    constructor
    · rintro ⟨ha,hno⟩
      exact ⟨hroots a ha,not_mem_nil,fun b hb => absurd hb (hno b)⟩
    rintro ⟨ha,_,hno⟩
    have hno' : ∀ b,(b,a) ∉ g.outgoingEdges := fun b hb => absurd (hno b hb) not_mem_nil
    rcases hothers a ha with hrt | ⟨b,hb⟩
    · exact ⟨hrt,hno'⟩
    · exact absurd hb (hno' b)
  · exact fun a ha => absurd ha not_mem_nil
  · exact fun a b _ hb => absurd hb not_mem_nil
  · exact fun a ha => absurd ha not_mem_nil

end KahnGraph

end OpStack.Lib
