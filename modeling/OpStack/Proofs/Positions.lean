import OpStack.Fault.Game

namespace OpStack.Proofs.Positions
open Fault Position UInt64 Nat

/-- A position of the game: the index fits its depth, and no move leads to an odd one. -/
structure Placed (p : Position) : Prop where
  bound : p.indexAtDepth < 2 ^ p.depth.toNat
  even : p.indexAtDepth % 2 = 0

theorem placed_root : Placed root := ⟨by decide,by decide⟩

variable {p q : Position} {m : Nat} {max : UInt64}

theorem succ_depth (h : p.depth < max) : (p.depth + 1).toNat = p.depth.toNat + 1 := by
  have hlt := lt_iff_toNat_lt.mp h
  have hmax := max.toNat_lt
  exact mod_eq_of_lt (by simp; omega)

theorem attack_depth (h : p.depth < max) : p.attack.depth.toNat = p.depth.toNat + 1 :=
  succ_depth h

theorem attack_index : p.attack.indexAtDepth = 2 * p.indexAtDepth := by
  simp [attack,move,lshIndex,shiftLeft_eq,mul_comm]

theorem defend_depth (h : p.depth < max) : p.defend.depth.toNat = p.depth.toNat + 1 := by
  have hdp : p.defend.depth = p.depth + 1 := by simp [defend,move,parent]
  rw [hdp]
  exact succ_depth h

theorem defend_index (h : p.indexAtDepth % 2 = 0) :
    p.defend.indexAtDepth = 2 * p.indexAtDepth + 2 := by
  have hri : (p.parent.move true).indexAtDepth = p.indexAtDepth + 1 := by
    have hor : 2 * (p.indexAtDepth / 2) ||| 1 = 2 * (p.indexAtDepth / 2) + 1 := by
      exact (two_pow_add_eq_or_of_lt (by decide : (1 : Nat) < 2 ^ 1) _).symm
    simp only [move,parent,lshIndex,parentIndexAtDepth,shiftLeft_eq,Bool.toNat_true]
    rw [show (1 : UInt64).toNat = 1 from rfl,mul_comm,hor]
    omega
  have hlf := @attack_index (p.parent.move true)
  rw [hri] at hlf
  simpa [defend,attack,mul_add] using hlf

theorem Placed.attack (hp : Placed p) (h : p.depth < max) : Placed p.attack := by
  constructor
  · rw [attack_index,attack_depth h]
    have := hp.bound
    omega
  · rw [attack_index]
    omega

theorem Placed.defend (hp : Placed p) (h0 : 0 < p.depth.toNat) (h : p.depth < max) :
    Placed p.defend := by
  have heven := hp.even
  constructor
  · rw [defend_index heven,defend_depth h]
    have hb := hp.bound
    have hpow : 2 ^ p.depth.toNat % 2 = 0 := by
      obtain ⟨k,hk⟩ := exists_eq_succ_of_ne_zero (pos_iff_ne_zero.mp h0)
      rw [hk]
      omega
    omega
  · rw [defend_index heven]
    omega

theorem Placed.attack_ne_defend (hp : Placed p) : p.attack ≠ p.defend := by
  intro h
  have hidx := congrArg indexAtDepth h
  rw [attack_index,defend_index hp.even] at hidx
  omega

def span (m : Nat) (p : Position) : Nat := 2 ^ (m - p.depth.toNat)

def mark (m : Nat) (p : Position) : Nat := (p.indexAtDepth + 1) * span m p

theorem span_pos : 0 < span m p := Nat.two_pow_pos _

theorem mark_pos : 0 < mark m p := mul_pos (succ_pos _) span_pos

theorem traceIndex_eq (h : p.depth ≤ max) : p.traceIndex max = .ok (mark max.toNat p - 1) := by
  have hrd := UInt64.toNat_sub_of_le _ _ h
  have hpos := @span_pos p max.toNat
  unfold traceIndex lshIndex
  rw [if_neg (UInt64.not_lt.mpr h)]
  simp only [hrd,Nat.one_shiftLeft]
  rw [← Nat.shiftLeft_add_eq_or_of_lt (Nat.sub_one_lt (Nat.pos_iff_ne_zero.mp (Nat.two_pow_pos _)))]
  congr 1
  unfold mark
  rw [Nat.add_mul]
  unfold span at hpos ⊢
  omega

theorem span_child (h : q.depth.toNat = p.depth.toNat + 1) (hm : p.depth.toNat < m) :
    span m p = 2 * span m q := by
  unfold span
  rw [h,show m - p.depth.toNat = m - (p.depth.toNat + 1) + 1 by omega,pow_succ,mul_comm]

/-! An attack halves the gap to the left of a position, a defense the one to the right. -/

variable {m : UInt64}

/-- The mark next to a position on its left, which is 0 for the state before the trace. -/
def left (m : Nat) (p : Position) : Nat := mark m p - span m p

def right (m : Nat) (p : Position) : Nat := mark m p + span m p

theorem span_leaf {m : Nat} (h : p.depth.toNat = m) : span m p = 1 := by
  rw [span,h,Nat.sub_self,Nat.pow_zero]

theorem left_eq {m : Nat} : left m p = p.indexAtDepth * span m p := by
  unfold left mark
  rw [Nat.add_mul,Nat.one_mul,Nat.add_sub_cancel]

theorem attack_left (h : p.depth < m) : left m.toNat p.attack = left m.toNat p := by
  rw [left_eq,left_eq,attack_index,span_child (attack_depth h) (lt_iff_toNat_lt.mp h)]
  ring

theorem attack_right (h : p.depth < m) : right m.toNat p.attack = mark m.toNat p := by
  unfold right mark
  rw [attack_index,span_child (attack_depth h) (lt_iff_toNat_lt.mp h)]
  ring

theorem defend_left (heven : p.indexAtDepth % 2 = 0) (h : p.depth < m) :
    left m.toNat p.defend = mark m.toNat p := by
  rw [left_eq]
  unfold mark
  rw [defend_index heven,span_child (defend_depth h) (lt_iff_toNat_lt.mp h)]
  ring

theorem defend_right (heven : p.indexAtDepth % 2 = 0) (h : p.depth < m) :
    right m.toNat p.defend = right m.toNat p := by
  unfold right mark
  rw [defend_index heven,span_child (defend_depth h) (lt_iff_toNat_lt.mp h)]
  ring

variable {m : Nat}

/-- The mark of a position is a multiple of what two neighbours on a deeper level span. -/
theorem mark_above (h : p.depth.toNat < q.depth.toNat) (hm : q.depth.toNat ≤ m) :
    ∃ k,mark m p = 2 * k * span m q := by
  obtain ⟨d,hd⟩ := Nat.exists_eq_add_of_lt h
  refine ⟨(p.indexAtDepth + 1) * 2 ^ d,?_⟩
  unfold mark span
  rw [show m - p.depth.toNat = d + 1 + (m - q.depth.toNat) by omega,pow_add]
  ring

/-- Marks tell depths apart: below the root they are odd multiples of the span. -/
theorem mark_ne (hq : Placed q) (h : p.depth.toNat < q.depth.toNat) (hm : q.depth.toNat ≤ m) :
    mark m p ≠ mark m q := by
  intro heq
  obtain ⟨k,hk⟩ := mark_above h hm
  have hodd := eq_of_mul_eq_mul_right span_pos (heq.symm.trans hk)
  have heven := hq.even
  omega

/-- No mark of a higher level lies between a position and its left neighbour. -/
theorem mark_le_left (h : p.depth.toNat < q.depth.toNat) (hm : q.depth.toNat ≤ m)
    (hlt : mark m p < mark m q) : mark m p ≤ left m q := by
  obtain ⟨k,hk⟩ := mark_above h hm
  have hlt' : 2 * k < q.indexAtDepth + 1 := by
    rw [hk] at hlt
    exact Nat.lt_of_mul_lt_mul_right hlt
  rw [hk,left_eq]
  exact mul_le_mul_right _ (by omega)

theorem mark_mono (hd : p.depth.toNat = q.depth.toNat) (h : p.indexAtDepth ≤ q.indexAtDepth) :
    mark m p ≤ mark m q := by
  rw [mark,mark,span,hd]
  exact mul_le_mul_right _ (succ_le_succ h)

theorem left_lt_mark : left m q < mark m q := by
  have := @span_pos q m
  have := @mark_pos q m
  unfold left
  omega

theorem mark_lt_right : mark m q < right m q := by
  have := @span_pos q m
  unfold right
  omega

theorem toGIndex_eq (hp : Placed p) : p.toGIndex = 2 ^ p.depth.toNat + p.indexAtDepth := by
  unfold toGIndex
  rw [← shiftLeft_add_eq_or_of_lt hp.bound,one_shiftLeft]

theorem toGIndex_inj (hp : Placed p) (hq : Placed q) (h : p.toGIndex = q.toGIndex) : p = q := by
  rw [toGIndex_eq hp,toGIndex_eq hq] at h
  have hdp : p.depth.toNat = q.depth.toNat := by
    have hp' := hp.bound
    have hq' := hq.bound
    by_contra hne
    obtain hlt | hlt := lt_or_gt_of_ne hne
    · have := Nat.pow_le_pow_right (by decide : 0 < 2) (Nat.succ_le_of_lt hlt)
      omega
    have := Nat.pow_le_pow_right (by decide : 0 < 2) (Nat.succ_le_of_lt hlt)
    omega
  obtain ⟨pd,pi⟩ := p
  obtain rfl := UInt64.toNat_inj.mp hdp
  simp only [add_left_cancel_iff] at h
  rw [h]

theorem toGIndex_lt (hp : Placed p) (hm : p.depth.toNat ≤ m) : p.toGIndex < 2 ^ (m + 1) := by
  rw [toGIndex_eq hp]
  have hb := hp.bound
  have hpow := Nat.pow_le_pow_right (by decide : 0 < 2) hm
  omega

variable {a : UInt64}

theorem rightOf_attack : p.attack.rightOf p = false := by
  simp [rightOf,parentIndexAtDepth,attack_index]

theorem rightOf_defend (h : p.indexAtDepth % 2 = 0) : p.defend.rightOf p = true := by
  simp [rightOf,parentIndexAtDepth,defend_index h]

theorem isRootPosition_iff (hp : Placed p) : p.isRootPosition = true ↔ p.depth.toNat = 0 := by
  simp only [isRootPosition,Bool.and_eq_true,decide_eq_true_eq]
  constructor
  · intro h
    simp [h.1]
  intro h
  have hb := hp.bound
  rw [h] at hb
  exact ⟨UInt64.toNat_inj.mp h,by omega⟩

/-! The part of a position below one of its ancestors. -/

/-- Up to 63 levels the number of nodes is right, at 63 but for its sign. -/
theorem nodes_eq : ∀ k < 64,(1#64 <<< k).toInt = ((2 ^ k : Nat) : Int) ∨
    (1#64 <<< k).toInt = -((2 ^ k : Nat) : Int) := by
  decide +kernel

theorem relative_eq (h : a ≤ p.depth) : p.relativeToAncestorAtDepth a = if (p.depth - a).toNat < 64
    then .ok (.ok ⟨p.depth - a,p.indexAtDepth % 2 ^ (p.depth - a).toNat⟩)
    else .error .divisionByZero := by
  have hpos := Nat.two_pow_pos (p.depth - a).toNat
  simp only [relativeToAncestorAtDepth,if_neg (UInt64.not_lt.mpr h)]
  by_cases hfew : (p.depth - a).toNat < 64
  · rw [if_pos hfew]
    rcases nodes_eq _ hfew with hn | hn
    · rw [hn,if_neg (by omega)]
      rfl
    · rw [hn,if_neg (by omega),Int.emod_neg]
      rfl
  · simp [if_neg hfew,BitVec.shiftLeft_eq_zero (Nat.not_lt.mp hfew)]

structure Translates (a m : UInt64) (p r : Position) (t s : Nat) : Prop where
  relative : p.relativeToAncestorAtDepth a = .ok (.ok r)
  depth : r.depth = p.depth - a
  index : r.indexAtDepth = p.indexAtDepth % 2 ^ (p.depth - a).toNat
  trace : p.traceIndex m = .ok t
  below : r.traceIndex (m - a) = .ok s
  sum : t = p.indexAtDepth / 2 ^ (p.depth - a).toNat * 2 ^ (m - a).toNat + s

theorem translates_of_few {m : UInt64} (h : a ≤ p.depth) (hm : p.depth ≤ m)
    (hfew : (p.depth - a).toNat < 64) : ∃ r t s,Translates a m p r t s := by
  have ha := le_iff_toNat_le.mp h
  have hp := le_iff_toNat_le.mp hm
  have hd := UInt64.toNat_sub_of_le _ _ h
  have hma := UInt64.toNat_sub_of_le _ _ (UInt64.le_trans h hm)
  have hle : p.depth - a ≤ m - a := le_iff_toNat_le.mpr (by omega)
  let r : Position := ⟨p.depth - a,p.indexAtDepth % 2 ^ (p.depth - a).toNat⟩
  have hmark : mark m.toNat p = p.indexAtDepth / 2 ^ (p.depth - a).toNat * 2 ^ (m - a).toNat +
      mark (m - a).toNat r := by
    have hdiv := div_add_mod p.indexAtDepth (2 ^ (p.depth - a).toNat)
    have hspn : span (m - a).toNat r = span m.toNat p := congrArg (2 ^ ·)
      (show (m - a).toNat - (p.depth - a).toNat = m.toNat - p.depth.toNat by omega)
    have hpow : 2 ^ (m - a).toNat = 2 ^ (p.depth - a).toNat * span m.toNat p := by
      rw [span,← pow_add]
      congr 1
      omega
    rw [mark,mark,hspn,hpow]
    nth_rewrite 1 [← hdiv]
    ring
  have hpos := @mark_pos r (m - a).toNat
  exact ⟨r,_,_,(relative_eq h).trans (if_pos hfew),rfl,rfl,traceIndex_eq hm,traceIndex_eq hle,
    by omega⟩

/-- A position is translated into the game below an ancestor iff that is less than 64 levels away,
and then positions below it stay distinct and in order. -/
theorem translates_iff (a m : UInt64) : (∀ p : Position,a ≤ p.depth → p.depth ≤ m →
      ((∃ r t s,Translates a m p r t s) ↔ (p.depth - a).toNat < 64)) ∧
    ∀ p q r r' t t' s s',Translates a m p r t s → Translates a m q r' t' s' →
      p.indexAtDepth / 2 ^ (p.depth - a).toNat = q.indexAtDepth / 2 ^ (q.depth - a).toNat →
      (p ≠ q → r ≠ r') ∧ (t < t' ↔ s < s') := by
  constructor
  · intro p h hm
    refine ⟨?_,translates_of_few h hm⟩
    rintro ⟨r,t,s,hp⟩
    by_contra hmany
    have hrel := hp.relative
    simp [relative_eq h,if_neg hmany] at hrel
  intro p q r r' t t' s s' hp hq hsm
  constructor
  · intro hne heq
    subst heq
    have hdp : p.depth = q.depth := (UInt64.sub_left_inj a).mp (hp.depth.symm.trans hq.depth)
    have hmod := hp.index.symm.trans hq.index
    rw [hdp] at hmod hsm
    have hidx : p.indexAtDepth = q.indexAtDepth := by
      rw [← div_add_mod p.indexAtDepth,hsm,hmod,div_add_mod]
    cases p
    simp_all
  · rw [hp.sum,hq.sum,hsm]
    exact Nat.add_lt_add_iff_left

/-- At 64 levels the number of nodes is 0. -/
theorem relative_deep :
    (⟨64,0⟩ : Position).relativeToAncestorAtDepth 0 = .error .divisionByZero := by
  decide

/-- A position with those that were passed on the way to it from the root, the last one first. -/
inductive Line : List Position → Position → Prop
  | root : Line [] root
  | attack {ps p} : Line ps p → Line (p::ps) p.attack
  | defend {ps p} : Line ps p → p.isRootPosition = false → Line (p::ps) p.defend

/-- The gap on either side of a position ends at an earlier one, or at the end of the trace. -/
structure Bounded (m : Nat) (ps : List Position) (p : Position) : Prop extends Placed p where
  depth : p.depth.toNat = ps.length
  earlier : ∀ q ∈ ps,q.depth.toNat < ps.length
  above : ps ≠ [] → ∃ q ∈ ps,mark m q = right m p
  below : p.indexAtDepth ≠ 0 → ∃ q ∈ ps,mark m q = left m p

variable {ps : List Position} {m : UInt64}

theorem Line.bounded (h : Line ps p) (hm : ps.length < m.toNat) : Bounded m.toNat ps p := by
  induction h with
  | root => exact ⟨placed_root,rfl,by simp,by simp,by simp [Position.root]⟩
  | @attack ps p _ ih =>
    have hb := ih (lt_of_succ_lt hm)
    have hlt : p.depth < m := lt_iff_toNat_lt.mpr (hb.depth ▸ lt_of_succ_lt hm)
    have hd := hb.depth
    refine ⟨hb.attack hlt,by rw [attack_depth hlt,hd]; rfl,?_,?_,?_⟩
    · intro q hq
      have := hb.earlier q
      grind
    · intro _
      exact ⟨p,List.mem_cons_self,(attack_right hlt).symm⟩
    · intro h0
      rw [attack_index] at h0
      obtain ⟨q,hq,he⟩ := hb.below (by omega)
      exact ⟨q,List.mem_cons_of_mem _ hq,he.trans (attack_left hlt).symm⟩
  | @defend ps p _ hroot ih =>
    have hb := ih (lt_of_succ_lt hm)
    have hlt : p.depth < m := lt_iff_toNat_lt.mpr (hb.depth ▸ lt_of_succ_lt hm)
    have hd := hb.depth
    have h0 : p.depth.toNat ≠ 0 := by
      rw [Ne,← isRootPosition_iff hb.toPlaced,hroot]
      exact Bool.false_ne_true
    refine ⟨hb.defend (pos_of_ne_zero h0) hlt,by rw [defend_depth hlt,hd]; rfl,?_,?_,?_⟩
    · intro q hq
      have := hb.earlier q
      grind
    · intro _
      obtain ⟨q,hq,he⟩ := hb.above (by rintro rfl; exact h0 hd)
      exact ⟨q,List.mem_cons_of_mem _ hq,he.trans (defend_right hb.even hlt).symm⟩
    · intro _
      exact ⟨p,List.mem_cons_self,(defend_left hb.even hlt).symm⟩

theorem newPositionFromGIndex_toGIndex (hp : Placed p) :
    newPositionFromGIndex p.toGIndex = p := by
  have hg := toGIndex_eq hp
  have hb := hp.bound
  have hsize : p.toGIndex.size = p.depth.toNat + 1 := by
    apply le_antisymm
    · exact size_le.mpr (toGIndex_lt hp le_rfl)
    · exact lt_size.mpr (by omega)
  have hmsb : bigMSB p.toGIndex = p.depth := by
    rw [bigMSB,if_neg (by omega),hsize,Nat.add_sub_cancel,UInt64.ofNat_toNat]
  have hidx : p.toGIndex.ldiff (1 <<< p.depth.toNat) = p.indexAtDepth := by
    apply eq_of_testBit_eq
    intro i
    rw [testBit_ldiff,toGIndex,testBit_or,one_shiftLeft]
    by_cases hi : p.depth.toNat = i
    · subst hi
      simp [testBit_eq_false_of_lt hb]
    · simp [hi]
  rw [newPositionFromGIndex,hmsb,hidx]

/-- The laws of a line of moves: how a position lies between its children, and that each end of
the gap it disputes is the trace index of an earlier one. -/
theorem line_laws (h : Line ps p) (hm : ps.length < m.toNat) :
    p.depth.toNat = ps.length ∧
    (ps ≠ [] → p.indexAtDepth % 2 = 0 ∧ p.indexAtDepth < 2 ^ p.depth.toNat) ∧
    p.attack.rightOf p = false ∧ p.defend.rightOf p = true ∧
    newPositionFromGIndex p.toGIndex = p ∧
    ∃ t,p.traceIndex m = .ok t ∧ (∃ a < t,p.attack.traceIndex m = .ok a) ∧
      (∃ d > t,p.defend.traceIndex m = .ok d) ∧
      (ps ≠ [] → ∃ q ∈ ps,q.traceIndex m = .ok (t + 2 ^ (m.toNat - p.depth.toNat))) ∧
      (p.indexAtDepth ≠ 0 → ∃ q ∈ ps,∃ s,q.traceIndex m = .ok s ∧
        s + 2 ^ (m.toNat - p.depth.toNat) = t) := by
  have hb := h.bounded hm
  have hd := hb.depth
  have hlt : p.depth < m := lt_iff_toNat_lt.mpr (hd ▸ hm)
  have htrace : ∀ q ∈ ps,q.traceIndex m = .ok (mark m.toNat q - 1) := fun q hq =>
    traceIndex_eq (le_iff_toNat_le.mpr (by have := hb.earlier q hq; omega))
  have hpos := @mark_pos p m.toNat
  refine ⟨hd,fun _ => ⟨hb.even,hb.bound⟩,rightOf_attack,rightOf_defend hb.even,
    newPositionFromGIndex_toGIndex hb.toPlaced,_,traceIndex_eq (UInt64.le_of_lt hlt),
    ⟨_,?_,traceIndex_eq (le_iff_toNat_le.mpr (by rw [attack_depth hlt]; omega))⟩,
    ⟨_,?_,traceIndex_eq (le_iff_toNat_le.mpr (by rw [defend_depth hlt]; omega))⟩,?_,?_⟩
  · have hr := attack_right (p := p) hlt
    have := @mark_lt_right p.attack m.toNat
    have := @mark_pos p.attack m.toNat
    omega
  · have hl := defend_left hb.even hlt
    have := @left_lt_mark p.defend m.toNat
    omega
  · intro hne
    obtain ⟨q,hq,he⟩ := hb.above hne
    have hr : right m.toNat p - 1 = mark m.toNat p - 1 + span m.toNat p := by
      unfold right
      omega
    exact ⟨q,hq,by rw [htrace q hq,he,hr,span]⟩
  · intro h0
    obtain ⟨q,hq,he⟩ := hb.below h0
    refine ⟨q,hq,_,htrace q hq,?_⟩
    have := @mark_pos q m.toNat
    rw [left,span] at he
    omega

/-- The attack on the root and its defense, in a game of depth 4. -/
theorem line_laws_sample :
    let ps := [root.attack,root]
    let p := root.attack.defend
    p.attack.rightOf p = false ∧ p.defend.rightOf p = true ∧ newPositionFromGIndex p.toGIndex = p ∧
    ∃ t,p.traceIndex 4 = .ok t ∧ (∃ a < t,p.attack.traceIndex 4 = .ok a) ∧
      (∃ d > t,p.defend.traceIndex 4 = .ok d) ∧ (∃ q ∈ ps,q.traceIndex 4 = .ok (t + 4)) ∧
      ∃ q ∈ ps,∃ s,q.traceIndex 4 = .ok s ∧ s + 4 = t := by
  intro ps p
  have hline : Line ps p := .defend (.attack .root) (by decide)
  obtain ⟨-,-,hattack,hdefend,hindex,t,ht,ha,hd,hab,hbe⟩ := line_laws (m := 4) hline (by decide)
  exact ⟨hattack,hdefend,hindex,t,ht,ha,hd,hab (by simp [ps]),hbe (by decide)⟩

end OpStack.Proofs.Positions
