import OpStack.Lib.Outcome
import OpStack.Fault.Solver
import OpStack.Proofs.ClaimTree

namespace OpStack.Proofs.HonestSolver
open Eth Lib Fault Positions ClaimTree HonestClaimTracker ClaimSolver GameSolver List UInt64 Nat

def nodeOf (c : Claim) : Node := ⟨c.position,c.value,c.parentContractIndex⟩

@[simp] theorem nodeOf_position {c : Claim} : (nodeOf c).position = c.position := rfl

@[simp] theorem nodeOf_parent {c : Claim} : (nodeOf c).parent = c.parentContractIndex := rfl

def idOf (x : Node) : ClaimID := ⟨x.position.toGIndex,x.value,x.parent⟩

/-- A game as the challenger loads it: a tree of claims in the order of their indices. -/
structure Board (max : UInt64) (claims : List Claim) : Prop where
  tree : Tree max (claims.map nodeOf)
  index : ∀ {i : Nat} {c : Claim},claims[i]? = some c → c.contractIndex = i
  claimant : ∀ {i : Nat} {c : Claim},claims[i]? = some c → c.claimant ≠ Address.zero

def gameOf (max : UInt64) (claims : List Claim) : GameState :=
  ⟨claims,(claims.map nodeOf).map idOf,max⟩

def FitsID (max : UInt64) : Prop := max.toNat ≤ 2047

def Loaded (claims : List Claim) : Prop := ∀ c ∈ claims,c.id = .ok (idOf (nodeOf c))

variable {trace : Position → Hash} {proofs : GameState → Claim → Position → StepProof}
  {max : UInt64} {claims : List Claim} {i n : Nat} {c : Claim} {tracker : HonestClaimTracker}

theorem node_of_claim (hc : claims[i]? = some c) : (claims.map nodeOf)[i]? = some (nodeOf c) := by
  simp [hc]

theorem claim_of_node {x : Node} (hx : (claims.map nodeOf)[i]? = some x) :
    ∃ c,claims[i]? = some c ∧ nodeOf c = x := by
  rw [getElem?_map] at hx
  exact Option.map_eq_some_iff.mp hx

theorem idOf_inj {x y : Node} (hx : Placed x.position) (hy : Placed y.position)
    (h : idOf x = idOf y) : x = y := by
  obtain ⟨xp,xv,xi⟩ := x
  obtain ⟨yp,yv,yi⟩ := y
  simp only [idOf,ClaimID.mk.injEq] at h
  obtain ⟨hp,rfl,rfl⟩ := h
  have hpos : xp = yp := toGIndex_inj hx hy hp
  rw [hpos]

theorem id_eq (hm : FitsID max) (hp : Placed c.position) (hd : c.position.depth ≤ max) :
    c.id = .ok (idOf (nodeOf c)) := by
  have hlt := toGIndex_lt hp (le_iff_toNat_le.mp hd)
  have hle : ∀ k,max.toNat + 1 ≤ k → 2 ^ (max.toNat + 1) ≤ 2 ^ k := fun k hk =>
    Nat.pow_le_pow_right (by decide) hk
  rw [Claim.id,if_pos (lt_of_lt_of_le hlt (hle 2048 (succ_le_succ hm)))]
  rfl

theorem id_cases : c.id = .ok (idOf (nodeOf c)) ∨ c.id = .error .gIndexTooLong := by
  rw [Claim.id]
  split
  · exact .inl rfl
  · exact .inr rfl

theorem Loaded.at (hl : Loaded claims) (hc : claims[i]? = some c) : c.id = .ok (idOf (nodeOf c)) :=
  hl c (mem_of_getElem? hc)

theorem Board.loaded (hb : Board max claims) (hm : FitsID max) : Loaded claims := by
  intro c hc
  obtain ⟨i,hi⟩ := mem_iff_getElem?.mp hc
  have hpl := hb.tree.placed (node_of_claim hi)
  exact id_eq hm hpl.1 hpl.2.1

theorem Board.isRoot_eq (hb : Board max claims) (hc : claims[i]? = some c) :
    c.isRoot = decide (i = 0) := by
  have hpl := hb.tree.placed (node_of_claim hc)
  rw [Bool.eq_iff_iff,decide_eq_true_iff,hpl.2.2]
  exact isRootPosition_iff hpl.1

theorem mapM_id_iff {cs : List Claim} {ids : List ClaimID} : cs.mapM Claim.id = .ok ids ↔
    Loaded cs ∧ ids = (cs.map nodeOf).map idOf := by
  induction cs generalizing ids with
  | nil => simp [Loaded,eq_comm]
  | cons c cs ih =>
    obtain hid | hid := @id_cases c
    · simp [hid,bind_ok_iff,ih,Loaded,@eq_comm _ ids]
    · simp [hid,Loaded]

theorem newGameState_iff {g : GameState} : newGameState claims max = .ok g ↔
    Loaded claims ∧ g = gameOf max claims := by
  simp [newGameState,bind_ok_iff,mapM_id_iff,gameOf,@eq_comm _ g]

theorem getParent_eq (hb : Board max claims) (hc : claims[i]? = some c) (hi : 0 < i) :
    (gameOf max claims).getParent c = claims[c.parentContractIndex]? := by
  rw [GameState.getParent,hb.isRoot_eq hc,decide_eq_false (by omega)]
  rfl

theorem Board.parent (hb : Board max claims) (hc : claims[i]? = some c) (hi : 0 < i) :
    c.parentContractIndex < i ∧ ∃ p,claims[c.parentContractIndex]? = some p ∧
      p.position.depth < max ∧ Below p.position c.position ∧
      ∀ trace,status trace max (claims.map nodeOf) i =
        (status trace max (claims.map nodeOf) c.parentContractIndex).below trace max
          c.parentContractIndex (nodeOf p) (nodeOf c) := by
  obtain ⟨hlt,x,hx,hdp,hbe⟩ := hb.tree.child (node_of_claim hc) hi
  obtain ⟨p,hp,rfl⟩ := claim_of_node hx
  exact ⟨hlt,p,hp,hdp,hbe,fun trace => status_child (node_of_claim hc) hlt hx⟩

/-! The tracker of honest claims holds what the tree says about them. -/

def Due (trace : Position → Hash) (max : UInt64) (nodes : List Node) (i : Nat) (x : Node) : Prop :=
  nodes[i]? = some x ∧ status trace max nodes i = .disputed ∧ x.position.depth < max

structure Tracked (trace : Position → Hash) (max : UInt64) (nodes : List Node) (n : Nat)
    (tracker : HonestClaimTracker) : Prop where
  agreed : ∀ id,tracker.agreed id = true ↔
    (∃ r,nodes[0]? = some r ∧ correct trace r = true ∧ id = idOf r) ∨
    ∃ j x,j < n ∧ Due trace max nodes j x ∧ id = idOf (response trace j x)
  counter : ∀ {j : Nat} {x : Node},j < n → Due trace max nodes j x →
    ∃ c,tracker.counters (idOf x) = some c ∧ nodeOf c = response trace j x
  noCounter : ∀ {j : Nat} {x : Node},nodes[j]? = some x → ¬(j < n ∧ Due trace max nodes j x) →
    tracker.counters (idOf x) = none

section
variable {nodes : List Node} {x : Node}

theorem Due.depth_ne (h : Due trace max nodes i x) : x.position.depth ≠ max :=
  UInt64.ne_of_lt h.2.2

theorem Board.due {claims : List Claim} {c : Claim} (hb : Board max claims)
    (hc : claims[i]? = some c) (hst : status trace max (claims.map nodeOf) i = .disputed)
    (hd : c.position.depth ≠ max) : Due trace max (claims.map nodeOf) i (nodeOf c) := by
  have hx := node_of_claim hc
  exact ⟨hx,hst,UInt64.lt_of_le_of_ne (hb.tree.placed hx).2.1 hd⟩

theorem response_below (ht : Tree max nodes) (hd : Due trace max nodes i x) :
    Below x.position (response trace i x).position := by
  obtain ⟨hx,hst,-⟩ := hd
  cases hc : correct trace x with
  | false =>
    rw [response_attack hc]
    exact .attack
  | true =>
    rw [response_defend hc]
    have hpos := pos_of_disputed hx hst hc
    have hrt := (ht.placed hx).2.2
    exact .defend (by omega)

theorem response_placed (ht : Tree max nodes) (hd : Due trace max nodes i x) :
    Placed (response trace i x).position ∧ (response trace i x).position.depth ≤ max ∧
      0 < (response trace i x).position.depth.toNat := by
  obtain ⟨hpl,hdp⟩ := (response_below ht hd).placed (ht.placed hd.1).1 hd.2.2
  refine ⟨hpl,?_,by omega⟩
  rw [le_iff_toNat_le,hdp]
  exact lt_iff_toNat_lt.mp hd.2.2

variable (htr : Tracked trace max nodes n tracker)
include htr

/-- What is tracked as honest is honest, for the claims that are reached. -/
theorem Tracked.agreed_iff (ht : Tree max nodes) (hx : nodes[i]? = some x) (hi : i ≤ n) :
    tracker.agreed (idOf x) = true ↔ status trace max nodes i = .honest := by
  have hpl := (ht.placed hx).1
  rw [htr.agreed]
  constructor
  · rintro (⟨r,hr,hc,hid⟩ | ⟨j,y,-,hd,hid⟩)
    · obtain rfl := idOf_inj hpl (ht.placed hr).1 hid
      obtain rfl := ht.distinct hx hr
      rw [status_root hr,if_pos hc]
    obtain rfl := idOf_inj hpl (response_placed ht hd).1 hid
    have h0 : 0 < i := by
      have := (ht.placed hx).2.2
      have := (response_placed ht hd).2.2
      omega
    rw [status_child hx (ht.child hx h0).1 hd.1]
    exact below_honest_iff.mpr ⟨hd.2.1,rfl⟩
  · intro hh
    have hcor := correct_of_honest ht hx hh
    cases Nat.eq_zero_or_pos i with
    | inl h0 =>
      subst h0
      exact .inl ⟨x,hx,hcor,rfl⟩
    | inr h0 =>
      obtain ⟨hlt,p,hp,hdp,-⟩ := ht.child hx h0
      rw [status_child hx hlt hp,below_honest_iff] at hh
      exact .inr ⟨x.parent,p,by omega,⟨hp,hh.1,hdp⟩,congrArg idOf hh.2⟩

theorem Tracked.keep (hx : nodes[n]? = some x)
    (hd : ¬Due trace max nodes n x) : Tracked trace max nodes (n + 1) tracker := by
  have hlt : ∀ {j : Nat} {y : Node},j < n + 1 → Due trace max nodes j y → j < n := by
    intro j y hj hdue
    refine lt_of_le_of_ne (le_of_lt_succ hj) fun heq => ?_
    subst heq
    rw [Option.some.inj (hx.symm.trans hdue.1)] at hd
    exact hd hdue
  constructor
  · intro id
    rw [htr.agreed]
    constructor
    · rintro (h | ⟨j,y,hj,h⟩)
      · exact .inl h
      · exact .inr ⟨j,y,by omega,h⟩
    rintro (h | ⟨j,y,hj,h⟩)
    · exact .inl h
    · exact .inr ⟨j,y,hlt hj h.1,h⟩
  · intro j y hj hdue
    exact htr.counter (hlt hj hdue) hdue
  · intro j y hy hnot
    exact htr.noCounter hy fun h => hnot ⟨by omega,h.2⟩

/-- The answer to the next claim is tracked, as its counter as well. -/
theorem Tracked.add (ht : Tree max nodes)
    (hd : Due trace max nodes n x) {move : Claim} (hmove : nodeOf move = response trace n x) :
    Tracked trace max nodes (n + 1) ⟨fun id => id = idOf (response trace n x) || tracker.agreed id,
        fun id => if id = idOf x then some move else tracker.counters id⟩ := by
  have hot : ∀ {j : Nat} {y : Node},nodes[j]? = some y → j ≠ n → idOf y ≠ idOf x := by
    intro j y hy hne heq
    obtain rfl := idOf_inj (ht.placed hy).1 (ht.placed hd.1).1 heq
    exact hne (ht.distinct hy hd.1)
  constructor
  · intro id
    simp only [Bool.or_eq_true,decide_eq_true_eq,htr.agreed]
    constructor
    · rintro (h | h | ⟨j,y,hj,h⟩)
      · exact .inr ⟨n,x,by omega,hd,h⟩
      · exact .inl h
      · exact .inr ⟨j,y,by omega,h⟩
    rintro (h | ⟨j,y,hj,h⟩)
    · exact .inr (.inl h)
    by_cases heq : j = n
    · subst heq
      rw [Option.some.inj (h.1.1.symm.trans hd.1)] at h
      exact .inl h.2
    · exact .inr (.inr ⟨j,y,by omega,h⟩)
  · intro j y hj hdue
    by_cases heq : j = n
    · subst heq
      cases hdue.1.symm.trans hd.1
      exact ⟨move,if_pos rfl,hmove⟩
    · obtain ⟨c,hc,hnd⟩ := htr.counter (by omega) hdue
      exact ⟨c,(if_neg (hot hdue.1 heq)).trans hc,hnd⟩
  · intro j y hy hnot
    by_cases heq : j = n
    · subst heq
      cases hy.symm.trans hd.1
      exact absurd ⟨by omega,hd⟩ hnot
    · exact (if_neg (hot hy heq)).trans (htr.noCounter hy fun h => hnot ⟨by omega,h.2⟩)

end

/-! The solver finds the answers to the disputed claims. -/

def honestAccessor (trace : Position → Hash)
    (proofs : GameState → Claim → Position → StepProof) : TraceAccessor :=
  ⟨fun _ _ p => some (trace p),fun g c p => some (proofs g c p),fun _ => .valid⟩

theorem isHonest_eq (hb : Board max claims) (hl : Loaded claims)
    (htr : Tracked trace max (claims.map nodeOf) n tracker) (hc : claims[i]? = some c)
    (hi : i ≤ n) : tracker.isHonest c =
      .ok (decide (status trace max (claims.map nodeOf) i = .honest)) := by
  have hagreed := htr.agreed_iff hb.tree (node_of_claim hc) hi
  rw [isHonest,hl.at hc]
  refine congrArg Except.ok ?_
  rw [Bool.eq_iff_iff,decide_eq_true_iff]
  exact hagreed

theorem traceIndex_le {p q : Position} (hp : p.depth ≤ max) (hq : q.depth ≤ max) :
    ∃ a b,p.traceIndex max = .ok a ∧ q.traceIndex max = .ok b ∧
      (a ≤ b ↔ mark max.toNat p ≤ mark max.toNat q) := by
  refine ⟨_,_,traceIndex_eq hp,traceIndex_eq hq,?_⟩
  have := @mark_pos q max.toNat
  omega

theorem agreeWithClaim_eq (g : GameState) : agreeWithClaim
    ⟨honestAccessor trace proofs,max⟩ g c = .ok (correct trace (nodeOf c)) := by
  have heq : decide (trace c.position = c.value) = correct trace (nodeOf c) := by
    rw [correct,Bool.eq_iff_iff,decide_eq_true_iff,decide_eq_true_iff,eq_comm]
    rfl
  simp [agreeWithClaim,honestAccessor,orError,heq]

def moveAgainst (trace : Position → Hash) (i : Nat) (c : Claim) : Claim :=
  let answer := response trace i (nodeOf c)
  ⟨answer.value,answer.position,Address.zero,Address.zero,0,i⟩

theorem nodeOf_moveAgainst : nodeOf (moveAgainst trace i c) = response trace i (nodeOf c) := rfl

def reply (trace : Position → Hash) (proofs : GameState → Claim → Position → StepProof)
    (max : UInt64) (claims : List Claim) (i : Nat) (c : Claim) : Option Action :=
  let agree := correct trace (nodeOf c)
  if status trace max (claims.map nodeOf) i ≠ .disputed then none
  else if c.position.depth = max then
    if c.counteredBy ≠ Address.zero then none
    else
      let position := if agree then c.position.moveRight else c.position
      some ⟨.step (proofs (gameOf max claims) c position),c,!agree,.fill 32 0⟩
  else if response trace i (nodeOf c) ∈ claims.map nodeOf then none
  else some ⟨.move,c,!agree,(response trace i (nodeOf c)).value⟩

inductive Replied (trace : Position → Hash)
    (proofs : GameState → Claim → Position → StepProof) (max : UInt64) (claims : List Claim)
    (i : Nat) (c : Claim) : Option Action → Prop where
  | quiet (hst : status trace max (claims.map nodeOf) i ≠ .disputed) : Replied _ _ _ _ _ _ none
  | countered (hd : c.position.depth = max) (hby : c.counteredBy ≠ Address.zero) :
      Replied _ _ _ _ _ _ none
  | present (hd : c.position.depth ≠ max)
      (hmem : response trace i (nodeOf c) ∈ claims.map nodeOf) : Replied _ _ _ _ _ _ none
  | step (hst : status trace max (claims.map nodeOf) i = .disputed) (hd : c.position.depth = max)
      (hby : c.counteredBy = Address.zero) : Replied _ _ _ _ _ _ (some
        ⟨.step (proofs (gameOf max claims) c
            (if correct trace (nodeOf c) then c.position.moveRight else c.position)),
          c,!correct trace (nodeOf c),.fill 32 0⟩)
  | move (hst : status trace max (claims.map nodeOf) i = .disputed) (hd : c.position.depth ≠ max)
      (hnew : response trace i (nodeOf c) ∉ claims.map nodeOf) : Replied _ _ _ _ _ _ (some
        ⟨.move,c,!correct trace (nodeOf c),(response trace i (nodeOf c)).value⟩)

theorem reply_cases : Replied trace proofs max claims i c (reply trace proofs max claims i c) := by
  unfold reply
  split
  · exact .quiet ‹_›
  rename_i hst
  split
  · rename_i hd
    split
    · exact .countered hd ‹_›
    · exact .step (not_not.mp hst) hd (not_not.mp ‹_›)
  rename_i hd
  split
  · exact .present hd ‹_›
  · exact .move (not_not.mp hst) hd ‹_›

theorem isDuplicate_eq (hb : Board max claims) (hd : Due trace max (claims.map nodeOf) i (nodeOf c))
    (hid : (moveAgainst trace i c).id = .ok (idOf (response trace i (nodeOf c)))) :
    (gameOf max claims).isDuplicate (moveAgainst trace i c) =
      .ok (decide (response trace i (nodeOf c) ∈ claims.map nodeOf)) := by
  have hpl := response_placed hb.tree hd
  rw [GameState.isDuplicate,hid]
  refine congrArg Except.ok ?_
  rw [Bool.eq_iff_iff,decide_eq_true_iff,decide_eq_true_iff]
  refine ⟨fun h => ?_,mem_map_of_mem⟩
  obtain ⟨x,hx,heq⟩ := mem_map.mp h
  obtain ⟨j,hj⟩ := mem_iff_getElem?.mp hx
  rw [← idOf_inj (hb.tree.placed hj).1 hpl.1 heq]
  exact hx

theorem defendsParent_eq (hb : Board max claims) (hc : claims[i]? = some c)
    (hd : Due trace max (claims.map nodeOf) i (nodeOf c)) :
    (gameOf max claims).defendsParent (moveAgainst trace i c) = correct trace (nodeOf c) := by
  have hpl := response_placed hb.tree hd
  have hrt : (moveAgainst trace i c).isRoot = false := by
    rw [Bool.eq_false_iff]
    intro h
    have := (isRootPosition_iff hpl.1).mp h
    omega
  have hpar : (gameOf max claims).getParent (moveAgainst trace i c) = some c := by
    rw [GameState.getParent,hrt]
    exact hc
  rw [GameState.defendsParent,hpar]
  cases hcor : correct trace (nodeOf c) with
  | false =>
    have hpos : (moveAgainst trace i c).position = c.position.attack :=
      @response_attack trace i (nodeOf c) hcor
    simp [hpos,rightOf_attack]
  | true =>
    have hpos : (moveAgainst trace i c).position = c.position.defend :=
      @response_defend trace i (nodeOf c) hcor
    simp only [hpos]
    exact rightOf_defend (hb.tree.placed hd.1).1.even

def MoveHasID (trace : Position → Hash) (max : UInt64) (claims : List Claim) (i : Nat) : Prop :=
  ∀ c,claims[i]? = some c → Due trace max (claims.map nodeOf) i (nodeOf c) →
    (moveAgainst trace i c).id = .ok (idOf (response trace i (nodeOf c)))

/-- The claim at a place is answered, unless the ID of the move does not fit. -/
def Answered (trace : Position → Hash) (proofs : GameState → Claim → Position → StepProof)
    (max : UInt64) (claims : List Claim) (i : Nat) (c : Claim)
    (x : Except Failure (HonestClaimTracker × Option Action)) : Prop :=
  (∃ tracker',MoveHasID trace max claims i ∧ x = .ok (tracker',reply trace proofs max claims i c) ∧
    Tracked trace max (claims.map nodeOf) (i + 1) tracker') ∨
  ¬FitsID max ∧ x = .error (.panic .gIndexTooLong)

section
variable (hb : Board max claims) (hl : Loaded claims)
  (htr : Tracked trace max (claims.map nodeOf) i tracker) (hc : claims[i]? = some c)
include hb hl htr hc

theorem shouldCounter_eq : shouldCounter (gameOf max claims) c tracker =
    .ok (decide (status trace max (claims.map nodeOf) i = .disputed)) := by
  have hx := node_of_claim hc
  have hsl := isHonest_eq hb hl htr hc (le_refl i)
  by_cases hh : status trace max (claims.map nodeOf) i = .honest
  · simp [shouldCounter,hsl,hh,orPanic]
  cases Nat.eq_zero_or_pos i with
  | inl h0 =>
    subst h0
    have hst := @status_root trace max _ _ hx
    simp only [shouldCounter,hsl,hh,orPanic,ok_bind,hb.isRoot_eq hc]
    split at hst
    · exact absurd hst hh
    · simp [hst]
  | inr h0 =>
    obtain ⟨hlt,p,hp,hdp,-,hst⟩ := hb.parent hc h0
    replace hst := hst trace
    have hpar := isHonest_eq hb hl htr hp (le_of_lt hlt)
    have hpid := hl.at hp
    simp only [shouldCounter,hsl,hh,orPanic,ok_bind,hb.isRoot_eq hc,
      getParent_eq hb hc h0,hp,orError,hpar,honestCounter,hpid,
      decide_eq_false (ne_of_gt h0),decide_false]
    cases hpst : status trace max (claims.map nodeOf) c.parentContractIndex with
    | honest =>
      rw [hpst] at hst
      simp [hst,Status.below]
    | ignored =>
      rw [hpst] at hst
      have hno := htr.noCounter (node_of_claim hp) fun h => by simp [h.2.2.1] at hpst
      simp [hst,hno,Status.below]
    | disputed =>
      rw [hpst] at hst
      have hdue : Due trace max (claims.map nodeOf) c.parentContractIndex (nodeOf p) :=
        ⟨node_of_claim hp,hpst,hdp⟩
      obtain ⟨counter,hcounter,hnd⟩ := htr.counter hlt hdue
      have hpos : counter.position = (response trace c.parentContractIndex (nodeOf p)).position :=
        congrArg Node.position hnd
      have hne : nodeOf c ≠ response trace c.parentContractIndex (nodeOf p) := fun heq =>
        hh (hst.trans (below_honest_iff.mpr ⟨rfl,heq⟩))
      obtain ⟨ci,hi,hci,hhi,hle⟩ := @traceIndex_le max c.position counter.position
        (hb.tree.placed hx).2.1 (hpos ▸ (response_placed hb.tree hdue).2.1)
      rw [hpos] at hle
      have hdis : status trace max (claims.map nodeOf) i = .disputed ↔ ci ≤ hi := by
        rw [hst,below_disputed_iff,hle]
        simp [hne]
      simp [hcounter,gameOf,hci,hhi,hdis]

theorem nextMove_eq (hd : c.position.depth ≠ max) :
    nextMove ⟨honestAccessor trace proofs,max⟩ c (gameOf max claims) tracker =
      .ok (if status trace max (claims.map nodeOf) i = .disputed then some (moveAgainst trace i c)
        else none) := by
  have hshould := shouldCounter_eq hb hl htr hc
  simp only [nextMove,hd,hshould,agreeWithClaim_eq,ok_bind,if_false]
  by_cases hst : status trace max (claims.map nodeOf) i = .disputed
  · cases hcor : correct trace (nodeOf c) with
    | false =>
      simp [hst,attack,respond,honestAccessor,orError,moveAgainst,response,hcor,hb.index hc]
    | true =>
      have hpos := pos_of_disputed (node_of_claim hc) hst hcor
      have hrt := (hb.isRoot_eq hc).trans (decide_eq_false hpos.ne')
      simp [hst,defend,respond,honestAccessor,orError,moveAgainst,response,hcor,hrt,hb.index hc]
  · simp [hst]

theorem calculateMove_eq (hd : c.position.depth ≠ max) : Answered trace proofs max claims i c
    (calculateMove ⟨honestAccessor trace proofs,max⟩ (gameOf max claims) c tracker) := by
  have hx := node_of_claim hc
  have hmv := @nextMove_eq trace proofs _ _ _ _ _ hb hl htr hc hd
  by_cases hst : status trace max (claims.map nodeOf) i = .disputed
  · have hdue := hb.due hc hst hd
    obtain hid | hid := @id_cases (moveAgainst trace i c)
    · rw [nodeOf_moveAgainst] at hid
      have hne : c ≠ .zero := by
        intro heq
        exact hb.claimant hc (congrArg Claim.claimant heq)
      refine .inl ⟨_,?_,?_,htr.add hb.tree hdue nodeOf_moveAgainst⟩
      · intro d hd _
        cases hc.symm.trans hd
        exact hid
      have hget : (gameOf max claims).claims[(moveAgainst trace i c).parentContractIndex]? =
          some c := hc
      have hadd : tracker.addHonestClaim c (moveAgainst trace i c) =
          .ok ⟨fun id => id = idOf (response trace i (nodeOf c)) || tracker.agreed id,
            fun id => if id = idOf (nodeOf c) then some (moveAgainst trace i c)
              else tracker.counters id⟩ := by
        simp [addHonestClaim,hid,hl.at hc,hne]
      simp only [calculateMove,hmv,hst,if_true,hadd,isDuplicate_eq hb hdue hid,orPanic,hget,
        defendsParent_eq hb hc hdue,ok_bind,pure_eq_ok,reply,hd,if_false,ne_eq,decide_eq_true_eq]
      split
      · rfl
      · rfl
    · have hpl := response_placed hb.tree hdue
      refine .inr ⟨fun hm => ?_,?_⟩
      · cases hid.symm.trans (@id_eq max (moveAgainst trace i c) hm hpl.1 hpl.2.1)
      · simp [calculateMove,hmv,hst,addHonestClaim,hid,orPanic]
  · refine .inl ⟨tracker,fun d _ hdue => absurd hdue.2.1 hst,?_,htr.keep hx fun hdue =>
      hst hdue.2.1⟩
    simp [calculateMove,hmv,hst,reply]

theorem calculateStep_eq (hd : c.position.depth = max) :
    calculateStep ⟨honestAccessor trace proofs,max⟩ (gameOf max claims) c tracker =
      .ok (reply trace proofs max claims i c) := by
  have hshould := shouldCounter_eq hb hl htr hc
  have hproof : ∀ p,(honestAccessor trace proofs).getStepData (gameOf max claims) c p =
      some (proofs (gameOf max claims) c p) := fun _ => rfl
  by_cases hby : c.counteredBy = Address.zero
  · simp only [calculateStep,attemptStep,hby,hd,hshould,agreeWithClaim_eq,hproof,orError,ok_bind,
      reply,ne_eq,not_true_eq_false,if_false,if_true]
    by_cases hst : status trace max (claims.map nodeOf) i = .disputed
    · simp [hst]
    · simp [hst]
  · simp [calculateStep,hby,hd,reply]

theorem respondTo_eq : Answered trace proofs max claims i c
    (respondTo ⟨honestAccessor trace proofs,max⟩ (gameOf max claims) c tracker) := by
  by_cases hd : c.position.depth = max
  · have hnot : ¬Due trace max (claims.map nodeOf) i (nodeOf c) := fun h => h.depth_ne hd
    refine .inl ⟨tracker,?_,?_,htr.keep (node_of_claim hc) hnot⟩
    · intro d hat hdue
      cases hc.symm.trans hat
      exact absurd hdue hnot
    rw [respondTo,if_pos (show _ = (gameOf max claims).depth from hd),
      calculateStep_eq hb hl htr hc hd]
    rfl
  · rw [respondTo,if_neg (show ¬_ = (gameOf max claims).depth from hd)]
    exact calculateMove_eq hb hl htr hc hd

end

def replies (trace : Position → Hash) (proofs : GameState → Claim → Position → StepProof)
    (max : UInt64) (claims : List Claim) : Nat → List Claim → List Action
  | _,[] => []
  | i,c::cs => (reply trace proofs max claims i c).toList ++ replies trace proofs max claims (i+1) cs

theorem mem_replies {action : Action} (cs : List Claim) : ∀ {i : Nat},claims.drop i = cs →
    action ∈ replies trace proofs max claims i cs →
    ∃ j c,claims[j]? = some c ∧ reply trace proofs max claims j c = some action := by
  induction cs with
  | nil =>
    intro i _ h
    simp [replies] at h
  | cons c cs ih =>
    intro i hdr h
    obtain h | h := mem_append.mp h
    · exact ⟨i,c,(of_drop_eq_cons hdr).1,Option.mem_toList.mp h⟩
    · exact ih (of_drop_eq_cons hdr).2 h

theorem respondToAll_eq (hb : Board max claims) (hl : Loaded claims) (cs : List Claim) :
    ∀ {i : Nat} {tracker : HonestClaimTracker} {actions : List Action},
      claims.drop i = cs → Tracked trace max (claims.map nodeOf) i tracker →
      (∀ j,i ≤ j → MoveHasID trace max claims j) ∧
      respondToAll ⟨honestAccessor trace proofs,max⟩ (gameOf max claims) cs tracker
        actions = .ok (actions ++ replies trace proofs max claims i cs,none) ∨ ¬FitsID max ∧
      respondToAll ⟨honestAccessor trace proofs,max⟩ (gameOf max claims) cs tracker
        actions = .error .gIndexTooLong := by
  induction cs with
  | nil =>
    intro i tracker actions hdr _
    refine .inl ⟨fun j hj c hc => ?_,by simp [respondToAll,replies]⟩
    have hlt := lt_of_getElem? hc
    have := List.drop_eq_nil_iff.mp hdr
    omega
  | cons c cs ih =>
    intro i tracker actions hdr htr
    obtain ⟨hc,hnx⟩ := of_drop_eq_cons hdr
    rw [respondToAll]
    obtain ⟨tracker',hid,hrsp,htr'⟩ | ⟨hm,hpanic⟩ :=
      @respondTo_eq trace proofs _ _ _ _ _ hb hl htr hc
    · rw [hrsp]
      simp only [replies,← List.append_assoc]
      refine (ih hnx htr').imp_left fun ⟨hids,hrs⟩ => ⟨fun j hj => ?_,hrs⟩
      by_cases heq : i = j
      · exact heq ▸ hid
      · exact hids j (by omega)
    · rw [hpanic]
      exact .inr ⟨hm,rfl⟩

theorem tracked_start (hl : Loaded claims) (hc : claims[0]? = some c) :
    ∃ tracker,(if correct trace (nodeOf c) then
        new.addHonestClaim .zero c
      else pure new : Except Panic HonestClaimTracker) = .ok tracker ∧
      Tracked trace max (claims.map nodeOf) 0 tracker := by
  have hx := node_of_claim hc
  cases hcor : correct trace (nodeOf c) with
  | true =>
    refine ⟨⟨fun id => id = idOf (nodeOf c) || false,fun _ => none⟩,?_,?_⟩
    · simp [addHonestClaim,new,hl.at hc]
    constructor
    · simp [hx,hcor]
    · omega
    · intro j x _ _
      rfl
  | false =>
    refine ⟨new,rfl,?_,?_,?_⟩
    · simp [hx,hcor,new]
    · omega
    · intro j x _ _
      rfl

/-- The next actions are the answers to the disputed claims, in the order of the claims. -/
theorem calculateNextActions_eq (hb : Board max claims) (hl : Loaded claims) :
    (∀ i,MoveHasID trace max claims i) ∧
    calculateNextActions ⟨honestAccessor trace proofs,max⟩ (gameOf max claims) =
      .ok (replies trace proofs max claims 0 claims,none) ∨ ¬FitsID max ∧
    calculateNextActions ⟨honestAccessor trace proofs,max⟩ (gameOf max claims) =
      .error .gIndexTooLong := by
  obtain ⟨r,hr,-⟩ := hb.tree.root
  obtain ⟨c,hc,rfl⟩ := claim_of_node hr
  obtain ⟨tracker,htracker,htr⟩ := @tracked_start trace max _ _ hl hc
  have hfm : calculateNextActions ⟨honestAccessor trace proofs,max⟩
      (gameOf max claims) = respondToAll ⟨honestAccessor trace proofs,max⟩
      (gameOf max claims) claims tracker [] := by
    obtain ⟨cs,rfl⟩ : ∃ cs,claims = c::cs := by
      cases claims with
      | nil => simp at hc
      | cons d cs =>
        cases hc
        exact ⟨cs,rfl⟩
    have hrsp : respondFrom ⟨honestAccessor trace proofs,max⟩ (gameOf max (c::cs)) c
        (correct trace (nodeOf c)) = respondToAll ⟨honestAccessor trace proofs,max⟩
        (gameOf max (c::cs)) (c::cs) tracker [] := by
      rw [respondFrom,htracker]
      rfl
    cases hcor : correct trace (nodeOf c) with
    | true =>
      simp only [calculateNextActions,gameOf,agreeWithClaim_eq,hcor] at hrsp ⊢
      exact hrsp
    | false =>
      simp only [calculateNextActions,gameOf,agreeWithClaim_eq,hcor] at hrsp ⊢
      exact hrsp
  rw [hfm]
  refine (respondToAll_eq hb hl claims rfl htr).imp_left fun ⟨hids,h⟩ => ⟨fun i => ?_,h⟩
  exact hids i (zero_le i)

end OpStack.Proofs.HonestSolver
