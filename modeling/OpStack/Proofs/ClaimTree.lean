import OpStack.Lib.Lists
import OpStack.Proofs.Positions

namespace OpStack.Proofs.ClaimTree
open Eth Lib Fault Positions List UInt64

structure Node where
  position : Position
  value : Hash
  parent : Nat
  deriving DecidableEq

inductive Below (p : Position) : Position → Prop where
  | attack : Below p p.attack
  | defend (h : 0 < p.depth.toNat) : Below p p.defend

/-- Claims as they are made: each answers an earlier one above the last level, and none is made
twice. -/
structure Tree (max : UInt64) (nodes : List Node) : Prop where
  root : ∃ r,nodes[0]? = some r ∧ r.position = .root
  child : ∀ {i : Nat} {x : Node},nodes[i]? = some x → 0 < i → x.parent < i ∧
    ∃ p,nodes[x.parent]? = some p ∧ p.position.depth < max ∧ Below p.position x.position
  distinct : ∀ {i j : Nat} {x : Node},nodes[i]? = some x → nodes[j]? = some x → i = j

inductive Ancestor (nodes : List Node) : Nat → Nat → Prop where
  | self (i : Nat) : Ancestor nodes i i
  | up {a i : Nat} {x : Node} (hx : nodes[i]? = some x) (hi : 0 < i)
      (h : Ancestor nodes a x.parent) : Ancestor nodes a i

section
variable {max : UInt64} {nodes : List Node} {i a : Nat} {p x y : Node}

theorem Below.placed {p q : Position} (h : Below p q) (hp : Placed p) (hd : p.depth < max) :
    Placed q ∧ q.depth.toNat = p.depth.toNat + 1 := by
  cases h with
  | attack => exact ⟨hp.attack hd,attack_depth hd⟩
  | defend h0 => exact ⟨hp.defend h0 hd,defend_depth hd⟩

theorem tree_root (hpos : x.position = .root) : Tree max [x] := by
  refine ⟨⟨x,rfl,hpos⟩,?_,?_⟩
  · intro i y hy hi
    have hlt := lt_of_getElem? hy
    simp only [length_singleton] at hlt
    omega
  intro i j y hi hj
  have hi := lt_of_getElem? hi
  have hj := lt_of_getElem? hj
  simp only [length_singleton] at hi hj
  omega

theorem Ancestor.of_child (h : Ancestor nodes a i) (hx : nodes[i]? = some x) :
    a = i ∨ 0 < i ∧ Ancestor nodes a x.parent := by
  cases h with
  | self => exact .inl rfl
  | up hx' hi h =>
    cases hx.symm.trans hx'
    exact .inr ⟨hi,h⟩

theorem Ancestor.of_neighbour (h : Ancestor nodes a i) (hx : nodes[i]? = some x)
    (hy : nodes[a]? = some y) (hne : y ≠ x) : Ancestor nodes a x.parent := by
  obtain rfl | h := h.of_child hx
  · exact absurd (Option.some.inj (hy.symm.trans hx)) hne
  · exact h.2

theorem ne_of_left (h : mark max.toNat y.position = left max.toNat x.position) : y ≠ x := by
  intro heq
  rw [heq] at h
  exact Nat.ne_of_gt left_lt_mark h

theorem ne_of_right (h : mark max.toNat y.position = right max.toNat x.position) : y ≠ x := by
  intro heq
  rw [heq] at h
  exact Nat.ne_of_lt mark_lt_right h

variable (ht : Tree max nodes)
include ht

/-- The induction along the way from the root to a claim. -/
theorem Tree.induct {P : Nat → Node → Prop}
    (hroot : ∀ r,nodes[0]? = some r → r.position = .root → P 0 r)
    (hchild : ∀ i x p,nodes[i]? = some x → 0 < i → x.parent < i → nodes[x.parent]? = some p →
      p.position.depth < max → Below p.position x.position → P x.parent p → P i x) :
    ∀ i x,nodes[i]? = some x → P i x := by
  intro i
  induction i using Nat.strongRecOn with
  | ind i ih =>
    intro x hx
    cases Nat.eq_zero_or_pos i with
    | inl h0 =>
      subst h0
      obtain ⟨r,hr,hpos⟩ := ht.root
      rw [hx] at hr
      cases hr
      exact hroot x hx hpos
    | inr hi =>
      obtain ⟨hlt,p,hp,hd,hb⟩ := ht.child hx hi
      exact hchild i x p hx hi hlt hp hd hb (ih _ hlt p hp)

theorem Tree.placed (hx : nodes[i]? = some x) :
    Placed x.position ∧ x.position.depth ≤ max ∧ (i = 0 ↔ x.position.depth.toNat = 0) := by
  refine ht.induct (P := fun i x => Placed x.position ∧ x.position.depth ≤ max ∧
    (i = 0 ↔ x.position.depth.toNat = 0)) ?_ ?_ i x hx
  · intro r hr hpos
    rw [hpos]
    exact ⟨placed_root,UInt64.zero_le,by simp [Position.root]⟩
  intro i x p hx hi hlt hp hd hb hP
  obtain ⟨hpl,hdp⟩ := hb.placed hP.1 hd
  refine ⟨hpl,?_,by omega⟩
  rw [le_iff_toNat_le,hdp]
  exact lt_iff_toNat_lt.mp hd

theorem Tree.depth_le (hx : nodes[i]? = some x) : x.position.depth.toNat ≤ max.toNat :=
  le_iff_toNat_le.mp (ht.placed hx).2.1

theorem Tree.snoc (hp : nodes[x.parent]? = some p)
    (hd : p.position.depth < max) (hb : Below p.position x.position) (hnew : x ∉ nodes) :
    Tree max (nodes ++ [x]) := by
  constructor
  · obtain ⟨r,hr,hpos⟩ := ht.root
    exact ⟨r,getElem?_append_of_some hr,hpos⟩
  · intro i y hy hi
    obtain hy | ⟨rfl,rfl⟩ := getElem?_concat_cases hy
    · obtain ⟨hlt,q,hq,h⟩ := ht.child hy hi
      exact ⟨hlt,q,getElem?_append_of_some hq,h⟩
    · exact ⟨lt_of_getElem? hp,p,getElem?_append_of_some hp,hd,hb⟩
  intro i j y hi hj
  obtain hi' | ⟨rfl,hx⟩ := getElem?_concat_cases hi
  · obtain hj' | ⟨rfl,rfl⟩ := getElem?_concat_cases hj
    · exact ht.distinct hi' hj'
    · exact absurd (mem_of_getElem? hi') hnew
  obtain hj' | ⟨rfl,-⟩ := getElem?_concat_cases hj
  · rw [hx] at hj'
    exact absurd (mem_of_getElem? hj') hnew
  · rfl

theorem Ancestor.depth_lt (h : Ancestor nodes a i) (hy : nodes[a]? = some y)
    (hx : nodes[i]? = some x) (hne : a ≠ i) : y.position.depth.toNat < x.position.depth.toNat := by
  induction h generalizing x with
  | self => exact absurd rfl hne
  | @up i x' hx' hi h ih =>
    cases hx'.symm.trans hx
    obtain ⟨-,p,hp,hd,hb⟩ := ht.child hx hi
    have hdp := (hb.placed (ht.placed hp).1 hd).2
    by_cases heq : a = x'.parent
    · subst heq
      cases hy.symm.trans hp
      omega
    · have := ih hp heq
      omega

theorem Ancestor.mark_ne (h : Ancestor nodes a i) (hy : nodes[a]? = some y)
    (hx : nodes[i]? = some x) (hne : a ≠ i) :
    mark max.toNat y.position ≠ mark max.toNat x.position :=
  Positions.mark_ne (ht.placed hx).1 (h.depth_lt ht hy hx hne) (ht.depth_le hx)

theorem Ancestor.eq_of_mark (h : Ancestor nodes a i) (hy : nodes[a]? = some y)
    (hx : nodes[i]? = some x) (hm : mark max.toNat y.position = mark max.toNat x.position) :
    y = x := by
  by_cases heq : a = i
  · subst heq
    exact Option.some.inj (hy.symm.trans hx)
  · exact absurd hm (h.mark_ne ht hy hx heq)

def Reaches (max : UInt64) (nodes : List Node) (i m : Nat) : Prop :=
  ∃ a y,Ancestor nodes a i ∧ nodes[a]? = some y ∧ mark max.toNat y.position = m

/-- The left neighbour of a claim is on its way to the root, unless it is the state before the
trace. -/
theorem Tree.left_ancestor (hx : nodes[i]? = some x)
    (hne : left max.toNat x.position ≠ 0) : Reaches max nodes i (left max.toNat x.position) := by
  revert hne
  refine ht.induct (P := fun i x => left max.toNat x.position ≠ 0 →
    Reaches max nodes i (left max.toNat x.position)) ?_ ?_ i x hx
  · intro r hr hpos hne
    rw [hpos,left_eq] at hne
    simp [Position.root] at hne
  intro i x p hx hi hlt hp hd hb ih hne
  generalize hq : x.position = q at hb hne
  cases hb with
  | attack =>
    rw [attack_left hd] at hne ⊢
    obtain ⟨a,y,ha,hy,hm⟩ := ih hne
    exact ⟨a,y,.up hx hi ha,hy,hm⟩
  | defend h0 =>
    rw [defend_left (ht.placed hp).1.even hd]
    exact ⟨x.parent,p,.up hx hi (.self _),hp,rfl⟩

theorem Tree.right_ancestor (hx : nodes[i]? = some x) (hi : 0 < i) :
    Reaches max nodes i (right max.toNat x.position) := by
  revert hi
  refine ht.induct (P := fun i x => 0 < i → Reaches max nodes i (right max.toNat x.position))
    ?_ ?_ i x hx
  · omega
  intro i x p hx hi hlt hp hd hb ih _
  generalize hq : x.position = q at hb
  cases hb with
  | attack =>
    rw [attack_right hd]
    exact ⟨x.parent,p,.up hx hi (.self _),hp,rfl⟩
  | defend h0 =>
    rw [defend_right (ht.placed hp).1.even hd]
    have hpos : 0 < x.parent := by
      have := (ht.placed hp).2.2
      omega
    obtain ⟨a,y,ha,hy,hm⟩ := ih hpos
    exact ⟨a,y,.up hx hi ha,hy,hm⟩

end

/-! How the honest actor stands to each claim. -/

/-- It made the claim or would have made it, it has to counter the claim, or it leaves it alone. -/
inductive Status where
  | honest
  | disputed
  | ignored
  deriving DecidableEq

section
variable (trace : Position → Hash) (max : UInt64)

def correct (x : Node) : Bool := x.value = trace x.position

def response (i : Nat) (x : Node) : Node :=
  let position := if correct trace x then x.position.defend else x.position.attack
  ⟨position,trace position,i⟩

/-- The standing of a claim, from the one of its parent `p` at place `i`. -/
def Status.below (i : Nat) (p x : Node) : Status → Status
  | .honest => .disputed
  | .disputed =>
    if x = response trace i p then .honest
    else if mark max.toNat x.position ≤ mark max.toNat (response trace i p).position then .disputed
    else .ignored
  | .ignored => .ignored

def status (nodes : List Node) (i : Nat) : Status :=
  match nodes[i]? with
  | none => .ignored
  | some x =>
    if i = 0 then if correct trace x then .honest else .disputed
    else if _h : x.parent < i then
      match nodes[x.parent]? with
      | none => .ignored
      | some p => (status nodes x.parent).below trace max x.parent p x
    else .ignored
termination_by i

end

variable {trace : Position → Hash} {max : UInt64} {nodes : List Node} {i a : Nat} {p x y : Node}

theorem status_root (hx : nodes[0]? = some x) :
    status trace max nodes 0 = if correct trace x then .honest else .disputed := by
  rw [status,hx]
  rfl

/-- A right claim that is disputed is not the root. -/
theorem pos_of_disputed (hx : nodes[i]? = some x) (hst : status trace max nodes i = .disputed)
    (hc : correct trace x = true) : 0 < i := by
  refine Nat.pos_of_ne_zero fun h0 => ?_
  subst h0
  rw [status_root hx,hc] at hst
  cases hst

theorem status_child (hx : nodes[i]? = some x) (hlt : x.parent < i)
    (hp : nodes[x.parent]? = some p) : status trace max nodes i =
      (status trace max nodes x.parent).below trace max x.parent p x := by
  rw [status,hx]
  simp [show i ≠ 0 by omega,hlt,hp]

theorem status_append (ht : Tree max nodes) (later : List Node) (hi : i < nodes.length) :
    status trace max (nodes ++ later) i = status trace max nodes i := by
  refine ht.induct (P := fun i _ => status trace max (nodes ++ later) i =
    status trace max nodes i) ?_ ?_ i _ (getElem?_eq_getElem hi)
  · intro r hr _
    rw [status_root hr,status_root (getElem?_append_of_some hr)]
  intro i x p hx hi hlt hp hd hb ih
  rw [status_child hx hlt hp,status_child (getElem?_append_of_some hx) hlt
    (getElem?_append_of_some hp),ih]

theorem below_honest_iff {st : Status} :
    st.below trace max i p x = .honest ↔ st = .disputed ∧ x = response trace i p := by
  cases st with
  | honest => simp [Status.below]
  | ignored => simp [Status.below]
  | disputed =>
    simp only [Status.below]
    split
    · simp [*]
    · split <;> simp [*]

theorem below_disputed_iff {st : Status} :
    st.below trace max i p x = .disputed ↔ st = .honest ∨ st = .disputed ∧ x ≠ response trace i p ∧
      mark max.toNat x.position ≤ mark max.toNat (response trace i p).position := by
  cases st with
  | honest => simp [Status.below]
  | ignored => simp [Status.below]
  | disputed =>
    simp only [Status.below,true_and]
    split
    · simp [*]
    · split <;> simp [*]

theorem correct_response : correct trace (response trace i x) = true := by
  simp [correct,response]

theorem response_attack (h : correct trace x = false) :
    (response trace i x).position = x.position.attack := by
  simp [response,h]

theorem response_defend (h : correct trace x = true) :
    (response trace i x).position = x.position.defend := by
  simp [response,h]

theorem correct_of_honest (ht : Tree max nodes) (hx : nodes[i]? = some x)
    (h : status trace max nodes i = .honest) : correct trace x = true := by
  cases Nat.eq_zero_or_pos i with
  | inl h0 =>
    subst h0
    rw [status_root hx] at h
    split at h
    · assumption
    · cases h
  | inr hi =>
    obtain ⟨hlt,p,hp,-,-⟩ := ht.child hx hi
    rw [status_child hx hlt hp,below_honest_iff] at h
    rw [h.2]
    exact correct_response

/-- To the left of a claim the honest actor is safe, and the claim to the right is right exactly
when it is on the side of the honest actor. -/
structure Sound (trace : Position → Hash) (max : UInt64) (nodes : List Node) (i : Nat) (x : Node) :
    Prop where
  left : status trace max nodes i ≠ .ignored → ∀ a y,Ancestor nodes a i → nodes[a]? = some y →
    mark max.toNat y.position = left max.toNat x.position → correct trace y = true
  rightHonest : status trace max nodes i = .honest → ∀ a y,Ancestor nodes a i →
    nodes[a]? = some y → mark max.toNat y.position = right max.toNat x.position →
    (correct trace y = true ↔ (x.position.depth.toNat - y.position.depth.toNat) % 2 = 0)
  rightDisputed : status trace max nodes i = .disputed → correct trace x = true → ∀ a y,
    Ancestor nodes a i → nodes[a]? = some y →
    mark max.toNat y.position = right max.toNat x.position →
    (correct trace y = true ↔ (x.position.depth.toNat - y.position.depth.toNat) % 2 = 1)

/-- A claim that is not left alone to the right of its parent stands on a right parent. -/
theorem correct_parent (ht : Tree max nodes) (hp : nodes[x.parent]? = some p)
    (hd : p.position.depth < max) (hpos : x.position = p.position.defend)
    (h : (status trace max nodes x.parent).below trace max x.parent p x ≠ .ignored) :
    correct trace p = true := by
  cases hst : status trace max nodes x.parent with
  | ignored => simp [hst,Status.below] at h
  | honest => exact correct_of_honest ht hp hst
  | disputed =>
    by_contra hwr
    have hatt := @response_attack trace x.parent p (by simpa using hwr)
    have heven := (ht.placed hp).1.even
    have hlt : mark max.toNat p.position.attack < mark max.toNat p.position.defend := by
      calc mark max.toNat p.position.attack < right max.toNat p.position.attack := mark_lt_right
        _ = mark max.toNat p.position := attack_right hd
        _ = left max.toNat p.position.defend := (defend_left heven hd).symm
        _ < mark max.toNat p.position.defend := left_lt_mark
    have hne : x ≠ response trace x.parent p := by
      intro heq
      rw [← hatt,← heq,hpos] at hlt
      exact Nat.lt_irrefl _ hlt
    simp only [hst,Status.below,if_neg hne,hatt,hpos,if_neg (Nat.not_le.mpr hlt)] at h
    exact h rfl

theorem eq_response (hx : correct trace x = true)
    (hpos : x.position = (response trace x.parent p).position) : x = response trace x.parent p := by
  obtain ⟨position,value,parent⟩ := x
  simp only [correct,decide_eq_true_eq] at hx hpos
  subst hx hpos
  rfl

theorem parent_not_ignored {st : Status} (h : st.below trace max i p x ≠ .ignored) :
    st ≠ .ignored := by
  intro hst
  rw [hst] at h
  exact h rfl

section
variable (ht : Tree max nodes) (hx : nodes[i]? = some x) (hlt : x.parent < i)
  (hp : nodes[x.parent]? = some p) (hd : p.position.depth < max)
  (ih : Sound trace max nodes x.parent p)
include ht hx hlt hp hd ih

/-- To the left of an attack is what is to the left of its parent, to its right the parent. -/
theorem sound_attack (hpos : x.position = p.position.attack) : Sound trace max nodes i x := by
  have hst := @status_child trace max nodes i p x hx hlt hp
  have hdp : x.position.depth.toNat = p.position.depth.toNat + 1 := by
    rw [hpos]
    exact attack_depth hd
  have hl : left max.toNat x.position = left max.toNat p.position := by
    rw [hpos]
    exact attack_left hd
  have hr : right max.toNat x.position = mark max.toNat p.position := by
    rw [hpos]
    exact attack_right hd
  have hri : ∀ a y,Ancestor nodes a i → nodes[a]? = some y →
      mark max.toNat y.position = right max.toNat x.position → y = p := by
    intro a y ha hy hm
    exact (ha.of_neighbour hx hy (ne_of_right hm)).eq_of_mark ht hy hp (hm.trans hr)
  constructor
  · intro hne a y ha hy hm
    rw [hst] at hne
    have ha := ha.of_neighbour hx hy (ne_of_left hm)
    exact ih.left (parent_not_ignored hne) a y ha hy (hm.trans hl)
  · intro hh a y ha hy hm
    obtain rfl := hri a y ha hy hm
    rw [hst,below_honest_iff] at hh
    have hwr : correct trace y = false := by
      cases hc : correct trace y with
      | false => rfl
      | true =>
        have hdef := congrArg Node.position hh.2
        rw [response_defend hc,hpos] at hdef
        exact absurd hdef (ht.placed hp).1.attack_ne_defend
    simp [hwr,hdp]
  · intro hdis hc a y ha hy hm
    obtain rfl := hri a y ha hy hm
    rw [hst,below_disputed_iff] at hdis
    have hri : correct trace y = true := by
      obtain hh | ⟨hh,hne,-⟩ := hdis
      · exact correct_of_honest ht hp hh
      by_contra hwr
      refine hne (eq_response hc ?_)
      rw [hpos,response_attack (by simpa using hwr)]
    simp [hri,hdp]

/-- To the left of a defense is its parent, to its right what is to the right of the parent. -/
theorem sound_defend (hpos : x.position = p.position.defend) : Sound trace max nodes i x := by
  have hst := @status_child trace max nodes i p x hx hlt hp
  have heven := (ht.placed hp).1.even
  have hdp : x.position.depth.toNat = p.position.depth.toNat + 1 := by
    rw [hpos]
    exact defend_depth hd
  have hl : left max.toNat x.position = mark max.toNat p.position := by
    rw [hpos]
    exact defend_left heven hd
  have hr : right max.toNat x.position = right max.toNat p.position := by
    rw [hpos]
    exact defend_right heven hd
  -- The right neighbour is above the parent, one level further from the claim than from it.
  have hri : ∀ a y,Ancestor nodes a i → nodes[a]? = some y →
      mark max.toNat y.position = right max.toNat x.position →
      Ancestor nodes a x.parent ∧ x.position.depth.toNat - y.position.depth.toNat =
        p.position.depth.toNat - y.position.depth.toNat + 1 := by
    intro a y ha hy hm
    have ha := ha.of_neighbour hx hy (ne_of_right hm)
    have hne : a ≠ x.parent := by
      intro heq
      subst heq
      exact ne_of_right (hm.trans hr) (Option.some.inj (hy.symm.trans hp))
    have := ha.depth_lt ht hy hp hne
    exact ⟨ha,by omega⟩
  constructor
  · intro hne a y ha hy hm
    rw [hst] at hne
    have ha := ha.of_neighbour hx hy (ne_of_left hm)
    obtain rfl := ha.eq_of_mark ht hy hp (hm.trans hl)
    exact correct_parent ht hp hd hpos hne
  · intro hh a y ha hy hm
    obtain ⟨ha,hdiff⟩ := hri a y ha hy hm
    rw [hst] at hh
    have hc := correct_parent ht hp hd hpos (by rw [hh]; decide)
    obtain ⟨hdis,-⟩ := below_honest_iff.mp hh
    rw [ih.rightDisputed hdis hc a y ha hy (hm.trans hr)]
    omega
  intro hdis hc a y ha hy hm
  obtain ⟨ha,hdiff⟩ := hri a y ha hy hm
  rw [hst] at hdis
  have hcp := correct_parent ht hp hd hpos (by rw [hdis]; decide)
  obtain hh | ⟨hh,hne,-⟩ := below_disputed_iff.mp hdis
  · rw [ih.rightHonest hh a y ha hy (hm.trans hr)]
    omega
  · exact absurd (eq_response hc (by rw [hpos,response_defend hcp])) hne

end

theorem sound (ht : Tree max nodes) (hx : nodes[i]? = some x) : Sound trace max nodes i x := by
  refine ht.induct (P := Sound trace max nodes) ?_ ?_ i x hx
  · -- The root has no neighbours.
    intro r hr _
    have hno : ∀ a y,Ancestor nodes a 0 → nodes[a]? = some y →
        mark max.toNat y.position = mark max.toNat r.position := by
      intro a y ha hy
      obtain rfl | ⟨hlt,-⟩ := ha.of_child hr
      · cases hr.symm.trans hy
        rfl
      · omega
    constructor
    · intro _ a y ha hy hm
      exact absurd (hm.symm.trans (hno a y ha hy)) (Nat.ne_of_lt left_lt_mark)
    · intro _ a y ha hy hm
      exact absurd ((hno a y ha hy).symm.trans hm) (Nat.ne_of_lt mark_lt_right)
    · intro _ _ a y ha hy hm
      exact absurd ((hno a y ha hy).symm.trans hm) (Nat.ne_of_lt mark_lt_right)
  · intro i x p hx hi hlt hp hd hb ih
    generalize hq : x.position = q at hb
    cases hb with
    | attack => exact sound_attack ht hx hlt hp hd ih hq
    | defend _ => exact sound_defend ht hx hlt hp hd ih hq

end OpStack.Proofs.ClaimTree
