import OpStack.Fault.Rules
import OpStack.Proofs.HonestChallenger

namespace OpStack.Proofs.ActionRules
open Eth Lib Fault Positions ClaimTree HonestSolver HonestChallenger Rules List UInt64 Nat

/-! The walks of the rules up to the root. -/

section
variable {max : UInt64} {claims : List Claim} {i a idx : Nat} {c y : Claim}
  (hb : Board max claims)
include hb

theorem traceIndex_at (hc : claims[i]? = some c) :
    c.position.traceIndex (gameOf max claims).depth = .ok (mark max.toNat c.position - 1) :=
  traceIndex_eq (hb.tree.placed (node_of_claim hc)).2.1

theorem ne_zero (hc : claims[i]? = some c) : c ≠ .zero := fun h =>
  hb.claimant hc (congrArg Claim.claimant h)

/-- The claim with a trace index is found on the way to the root, if there is one. -/
theorem ancestorWithTraceIndex_eq (hy : claims[a]? = some y)
    (hm : mark max.toNat y.position = idx + 1) (fuel : Nat) :
    ∀ {i : Nat} {c : Claim},claims[i]? = some c → i < fuel → Ancestor (claims.map nodeOf) a i →
      (gameOf max claims).ancestorWithTraceIndex idx fuel c = .ok (some y) := by
  induction fuel with
  | zero =>
    omega
  | succ fuel ih =>
    intro i c hc hi ha
    have hti := traceIndex_at hb hc
    have hpos := @mark_pos c.position max.toNat
    rw [GameState.ancestorWithTraceIndex,hti]
    simp only [ok_bind]
    by_cases heq : a = i
    · subst heq
      cases hc.symm.trans hy
      rw [if_pos (by omega)]
      rfl
    have hne := ha.mark_ne hb.tree (node_of_claim hy) (node_of_claim hc) heq
    simp only [nodeOf_position] at hne
    obtain rfl | ⟨h0,hup⟩ := ha.of_child (node_of_claim hc)
    · exact absurd rfl heq
    obtain ⟨hlt,p,hp,-⟩ := hb.parent hc h0
    rw [if_neg (by omega),hb.isRoot_eq hc,decide_eq_false (by omega),getParent_eq hb hc h0,hp]
    exact ih hp (by omega) hup

variable {t : Nat} {best : Claim}

/-- A claim replaces the prestate that the walk holds if it is left of the position and right of
what is held. -/
theorem nextPrestate_eq (hc : claims[i]? = some c)
    (hbest : best = .zero ∨ best.position.depth ≤ max) : nextPrestate (gameOf max claims) t best c =
      .ok (if mark max.toNat c.position ≤ t ∧ (best = .zero ∨
        mark max.toNat best.position < mark max.toNat c.position) then c else best) := by
  have hti := traceIndex_at hb hc
  have hpos := @mark_pos c.position max.toNat
  have hbpos := @mark_pos best.position max.toNat
  have hlt : mark max.toNat c.position - 1 < t ↔ mark max.toNat c.position ≤ t := by omega
  by_cases hz : best = .zero
  · simp only [nextPrestate,hti,hlt,hz,ok_bind,if_true,true_or,and_true]
    split <;> rfl
  have hbti : best.position.traceIndex (gameOf max claims).depth =
      .ok (mark max.toNat best.position - 1) := traceIndex_eq (hbest.resolve_left hz)
  have hbest : mark max.toNat best.position - 1 < mark max.toNat c.position - 1 ↔
      mark max.toNat best.position < mark max.toNat c.position := by omega
  simp only [nextPrestate,hti,hbti,hlt,hbest,hz,ok_bind,if_false,false_or,ite_and]
  split <;> [split <;> rfl; rfl]

theorem findPrestate_root {fuel : Nat} {best' : Claim}
    (hc : claims[0]? = some c) (hnext : nextPrestate (gameOf max claims) t best c = .ok best') :
    findPrestate (gameOf max claims) t (fuel + 1) best c = .ok (.ok best') := by
  rw [findPrestate,hnext]
  simp [hb.isRoot_eq hc]

theorem findPrestate_up {fuel : Nat} {best' p : Claim}
    (hc : claims[i]? = some c) (hi : 0 < i) (hp : claims[c.parentContractIndex]? = some p)
    (hnext : nextPrestate (gameOf max claims) t best c = .ok best') :
    findPrestate (gameOf max claims) t (fuel + 1) best c =
      findPrestate (gameOf max claims) t fuel best' p := by
  rw [findPrestate,hnext]
  simp [hb.isRoot_eq hc,decide_eq_false (ne_of_gt hi),getParent_eq hb hc hi,hp]

theorem findPrestate_keep (hbest : best = .zero ∨ best.position.depth ≤ max) (fuel : Nat) :
    ∀ {i : Nat} {c : Claim},claims[i]? = some c → i < fuel →
      (∀ k z,Ancestor (claims.map nodeOf) k i → claims[k]? = some z →
        mark max.toNat z.position ≤ t → best ≠ .zero ∧
          mark max.toNat z.position ≤ mark max.toNat best.position) →
      findPrestate (gameOf max claims) t fuel best c = .ok (.ok best) := by
  induction fuel with
  | zero =>
    omega
  | succ fuel ih =>
    intro i c hc hi hle
    have hnx : nextPrestate (gameOf max claims) t best c = .ok best := by
      rw [nextPrestate_eq hb hc hbest,if_neg]
      rintro ⟨ht,hz | hlt⟩
      · exact (hle i c (.self i) hc ht).1 hz
      · have := (hle i c (.self i) hc ht).2
        omega
    cases Nat.eq_zero_or_pos i with
    | inl h0 =>
      subst h0
      exact findPrestate_root hb hc hnx
    | inr h0 =>
      obtain ⟨hlt,p,hp,-⟩ := hb.parent hc h0
      rw [findPrestate_up hb hc h0 hp hnx]
      exact ih hp (by omega) fun k z hk => hle k z (.up (node_of_claim hc) h0 hk)

/-- The walk ends with the claim next to the position on the left. Claims below it are held only
until it is reached. -/
theorem findPrestate_eq (hy : claims[a]? = some y)
    (hyt : mark max.toNat y.position ≤ t) (fuel : Nat) :
    ∀ {i : Nat} {best c : Claim},claims[i]? = some c → i < fuel → Ancestor (claims.map nodeOf) a i →
      (best = .zero ∨ best.position.depth ≤ max ∧
        mark max.toNat best.position < mark max.toNat y.position) →
      (∀ k z,Ancestor (claims.map nodeOf) k i → claims[k]? = some z →
        mark max.toNat z.position ≤ t →
        mark max.toNat z.position ≤ mark max.toNat y.position) →
      findPrestate (gameOf max claims) t fuel best c = .ok (.ok y) := by
  induction fuel with
  | zero =>
    omega
  | succ fuel ih =>
    intro i best c hc hi ha hbest hle
    have hnx := @nextPrestate_eq max claims i c hb t best hc (hbest.imp_right And.left)
    have hy' := node_of_claim hy
    by_cases heq : a = i
    · subst heq
      cases hc.symm.trans hy
      rw [if_pos ⟨hyt,hbest.imp_right And.right⟩] at hnx
      have hdp := (hb.tree.placed hy').2.1
      cases Nat.eq_zero_or_pos a with
      | inl h0 =>
        subst h0
        exact findPrestate_root hb hc hnx
      | inr h0 =>
        obtain ⟨hlt,p,hp,-⟩ := hb.parent hc h0
        rw [findPrestate_up hb hc h0 hp hnx]
        refine findPrestate_keep hb (.inr hdp) fuel hp (by omega) fun k z hk hz ht => ?_
        exact ⟨ne_zero hb hy,hle k z (.up hy' h0 hk) hz ht⟩
    obtain rfl | ⟨h0,hup⟩ := ha.of_child (node_of_claim hc)
    · exact absurd rfl heq
    obtain ⟨hlt,p,hp,-⟩ := hb.parent hc h0
    rw [findPrestate_up hb hc h0 hp hnx]
    refine ih hp (by omega) hup ?_ fun k z hk => hle k z (.up (node_of_claim hc) h0 hk)
    by_cases htake : mark max.toNat c.position ≤ t ∧ (best = .zero ∨
        mark max.toNat best.position < mark max.toNat c.position)
    · rw [if_pos htake]
      have hne := ha.mark_ne hb.tree hy' (node_of_claim hc) heq
      have hcle := hle i c (.self i) hc htake.1
      exact .inr ⟨(hb.tree.placed (node_of_claim hc)).2.1,lt_of_le_of_ne hcle hne.symm⟩
    · rw [if_neg htake]
      exact hbest

end

/-! What is next to a claim that the challenger counters. -/

/-- The claims up to the root provide the right state before a position: the one to its left, if
that is not the start of the trace. -/
def RightBefore (s : Setup) (claims : List Claim) (i : Nat) (p : Position) : Prop :=
  left s.max.toNat p = 0 ∨ ∃ a y,claims[a]? = some y ∧ Ancestor (claims.map nodeOf) a i ∧
    mark s.max.toNat y.position = left s.max.toNat p ∧ s.trace y.position = y.value

variable {s : Setup} {claims : List Claim} {i : Nat} {c : Claim}

theorem trace_of_correct (h : correct s.trace (nodeOf c) = true) : s.trace c.position = c.value :=
  (of_decide_eq_true h).symm

theorem rightBefore_self (hp : Play s claims) (hc : claims[i]? = some c)
    (hst : s.standing claims i = .disputed) : RightBefore s claims i c.position := by
  have hx := node_of_claim hc
  by_cases hz : left s.max.toNat c.position = 0
  · exact .inl hz
  obtain ⟨a,x,ha,hat,hm⟩ := hp.board.tree.left_ancestor hx hz
  obtain ⟨y,hy,rfl⟩ := claim_of_node hat
  have hst : s.standing claims i ≠ .ignored := by
    rw [hst]
    decide
  have hri := (sound hp.board.tree hx).left hst a _ ha hat hm
  exact .inr ⟨a,y,hy,ha,hm,trace_of_correct hri⟩

theorem rightBefore_move (hp : Play s claims) (hc : claims[i]? = some c)
    (hst : s.standing claims i = .disputed) (hd : c.position.depth < s.max) :
    RightBefore s claims i (response s.trace i (nodeOf c)).position := by
  have hx := node_of_claim hc
  cases hcor : correct s.trace (nodeOf c) with
  | false =>
    rw [response_attack hcor,RightBefore,nodeOf_position,attack_left hd]
    exact rightBefore_self hp hc hst
  | true =>
    rw [response_defend hcor,RightBefore,defend_left (hp.board.tree.placed hx).1.even hd]
    exact .inr ⟨i,c,hc,.self i,rfl,trace_of_correct hcor⟩

/-- The data of a step starts from the state before the position: its hash is the value there, but
for the status byte of the machine. -/
def StepsFromTrace (s : Setup) (keccak256 : Bytes → Hash) : Prop :=
  ∀ g c p q k,p.depth = s.max → p.indexAtDepth = k + 1 → q.traceIndex s.max = .ok k →
    (keccak256 (s.proofs g c p).preState).bytes.tail = (s.trace q).bytes.tail

/-! The actions, and what the rules read of them. -/

def moveFor (s : Setup) (i : Nat) (c : Claim) : Action :=
  ⟨.move,c,!correct s.trace (nodeOf c),(response s.trace i (nodeOf c)).value⟩

def stepFor (s : Setup) (claims : List Claim) (c : Claim) : Action :=
  ⟨.step (s.proofs (gameOf s.max claims) c
      (if correct s.trace (nodeOf c) then c.position.moveRight else c.position)),
    c,!correct s.trace (nodeOf c),.fill 32 0⟩

section
variable {action : Action} {keccak256 : Bytes → Hash}

theorem mark_leaf {p : Position} (hd : p.depth = s.max) :
    mark s.max.toNat p = p.indexAtDepth + 1 := by
  rw [mark,span_leaf (congrArg toNat hd),Nat.mul_one]

theorem depth_parity {p q : Position} (h : q.depth.toNat ≤ p.depth.toNat) :
    (p.depth - q.depth) % 2 = 0 ↔ (p.depth.toNat - q.depth.toNat) % 2 = 0 := by
  simp [← UInt64.toNat_inj,UInt64.toNat_sub_of_le _ _ (UInt64.le_iff_toNat_le.mpr h)]

theorem checkRules_ok {g : GameState} {challenger : Address}
    (h : ∀ v ∈ rules g action keccak256 s.trace challenger,v = .ok none) :
    checkRules g action keccak256 s.trace challenger = .ok [] := by
  have hall : ∀ vs : List Verdict,(∀ v ∈ vs,v = .ok none) →
      vs.mapM id = .ok (vs.map fun _ => none) := by
    intro vs hvs
    induction vs with
    | nil => rfl
    | cons v vs ih => simp [ih fun w hw => hvs w (mem_cons_of_mem _ hw),id,hvs v mem_cons_self]
  simp [checkRules,hall _ h]

section
variable (hp : Play s claims) (hc : claims[i]? = some c)
include hp hc

theorem parentOf_eq (h : action.parentClaim = c) :
    parentOf (gameOf s.max claims) action = .ok c := by
  have hat : (gameOf s.max claims).claims[action.parentClaim.contractIndex]? = some c := by
    rw [h,hp.board.index hc]
    exact hc
  rw [parentOf,hat]

theorem resultingPosition_move : resultingPosition (gameOf s.max claims) (moveFor s i c) =
    .ok (response s.trace i (nodeOf c)).position := by
  rw [resultingPosition,parentOf_eq hp hc rfl,← movedTo_response]
  cases hcor : correct s.trace (nodeOf c) with
  | false => simp [moveFor,isStep,hcor,movedTo]
  | true => simp [moveFor,isStep,hcor,movedTo]

theorem resultingPosition_step :
    resultingPosition (gameOf s.max claims) (stepFor s claims c) = .ok c.position := by
  rw [resultingPosition,parentOf_eq hp hc rfl]
  rfl

/-! The rules that hold of both. -/

section
variable (h : action.parentClaim = c)
include h

theorem parentMustExist_ok : parentMustExist (gameOf s.max claims) action = .ok none := by
  have hlt : i < (gameOf s.max claims).claims.length := lt_of_getElem? hc
  rw [parentMustExist,h,hp.board.index hc,if_neg (not_le.mpr hlt)]

theorem doNotStepAlreadyCounteredClaims_ok (hby : c.counteredBy = Address.zero) :
    doNotStepAlreadyCounteredClaims (gameOf s.max claims) action = .ok none := by
  rw [doNotStepAlreadyCounteredClaims,parentOf_eq hp hc h]
  simp [hby]

theorem doNotDefendRootClaim_ok (hst : s.standing claims i = .disputed)
    (hside : action.isAttack = !correct s.trace (nodeOf c)) :
    doNotDefendRootClaim (gameOf s.max claims) action = .ok none := by
  rw [doNotDefendRootClaim,parentOf_eq hp hc h]
  have hrt : (c.position.isRootPosition && !action.isAttack) = false := by
    rw [hside,Bool.and_eq_false_iff]
    cases hcor : correct s.trace (nodeOf c) with
    | false => exact .inr rfl
    | true =>
      have h0 := pos_of_disputed (node_of_claim hc) hst hcor
      exact .inl ((hp.board.isRoot_eq hc).trans (decide_eq_false h0.ne'))
  rw [ok_bind,hrt]
  rfl

theorem doNotCounterSelf_ok (hst : s.standing claims i = .disputed) :
    doNotCounterSelf (gameOf s.max claims) action s.challenger = .ok none := by
  rw [doNotCounterSelf,parentOf_eq hp hc h]
  have hot : c.claimant ≠ s.challenger := by
    intro heq
    cases hst.symm.trans (hp.own hc heq).2
  simp [hot]

end

/-! The rules about moves. -/

theorem onlyStepAtMaxDepth_move (hd : c.position.depth < s.max) :
    onlyStepAtMaxDepth (gameOf s.max claims) (moveFor s i c) = .ok none := by
  have hle : ¬(gameOf s.max claims).depth ≤ c.position.depth := UInt64.not_le.mpr hd
  have hst : isStep (moveFor s i c) = false := rfl
  rw [onlyStepAtMaxDepth,parentOf_eq hp hc rfl]
  simp [hle]

theorem doNotDuplicateExistingMoves_move (hdue : Due s.trace s.max (claims.map nodeOf) i (nodeOf c))
    (hid : MoveHasID s.trace s.max claims i)
    (hnew : response s.trace i (nodeOf c) ∉ claims.map nodeOf) :
    doNotDuplicateExistingMoves (gameOf s.max claims) (moveFor s i c) = .ok none := by
  have hmv : Claim.mk (moveFor s i c).value (response s.trace i (nodeOf c)).position Address.zero
      Address.zero 0 (moveFor s i c).parentClaim.contractIndex = moveAgainst s.trace i c := by
    rw [moveFor,hp.board.index hc]
    rfl
  rw [doNotDuplicateExistingMoves,resultingPosition_move hp hc]
  simp [hmv,isDuplicate_eq hp.board hdue (hid c hc hdue),hnew]

/-- No claim between the state before the move and the move spoils it. -/
theorem avoidPoisonedPrestate_move (hdue : Due s.trace s.max (claims.map nodeOf) i (nodeOf c)) :
    avoidPoisonedPrestate (gameOf s.max claims) (moveFor s i c) s.trace = .ok none := by
  have hb := hp.board
  have hpl := response_placed hb.tree hdue
  have hpos := @mark_pos (response s.trace i (nodeOf c)).position s.max.toNat
  have hti : (response s.trace i (nodeOf c)).position.traceIndex (gameOf s.max claims).depth =
      .ok (mark s.max.toNat (response s.trace i (nodeOf c)).position - 1) :=
    traceIndex_eq hpl.2.1
  have hlen := lt_of_getElem? hc
  have hfuel : i < (gameOf s.max claims).claims.length + 1 := lt_succ_of_lt hlen
  -- Every claim on the way that is left of the move is left of its span.
  have hlf : ∀ k z,Ancestor (claims.map nodeOf) k i → claims[k]? = some z →
      mark s.max.toNat z.position ≤ mark s.max.toNat (response s.trace i (nodeOf c)).position - 1 →
      mark s.max.toNat z.position ≤ left s.max.toNat (response s.trace i (nodeOf c)).position := by
    intro k z hk hz hle
    have hdp : z.position.depth.toNat <
        (response s.trace i (nodeOf c)).position.depth.toNat := by
      have hbe := ((response_below hb.tree hdue).placed (hb.tree.placed hdue.1).1 hdue.2.2).2
      by_cases heq : k = i
      · subst heq
        cases hz.symm.trans hc
        rw [hbe]
        exact lt_succ_self _
      · have := hk.depth_lt hb.tree (node_of_claim hz) hdue.1 heq
        rw [nodeOf_position] at this
        omega
    exact mark_le_left hdp (le_iff_toNat_le.mp hpl.2.1) (by omega)
  have hst : isStep (moveFor s i c) = false := rfl
  rw [avoidPoisonedPrestate,resultingPosition_move hp hc]
  simp only [ok_bind,pure_eq_ok,hti,
    @parentOf_eq s claims i c (moveFor s i c) hp hc rfl]
  obtain hzero | ⟨a,y,hy,ha,hm,hri⟩ := rightBefore_move hp hc hdue.2.1 hdue.2.2
  · rw [findPrestate_keep hb (.inl rfl) _ hc hfuel fun k z hk hz hle => by
      have := hlf k z hk hz hle
      have := @mark_pos z.position s.max.toNat
      omega]
    simp
  have hyt : mark s.max.toNat y.position ≤
      mark s.max.toNat (response s.trace i (nodeOf c)).position - 1 := by
    have := @left_lt_mark (response s.trace i (nodeOf c)).position s.max.toNat
    omega
  rw [findPrestate_eq hb hy hyt _ hc hfuel ha (.inl rfl) fun k z hk hz hle => by
    rw [hm]
    exact hlf k z hk hz hle]
  simp [hri]

theorem RightBefore.found {p : Position} (h : RightBefore s claims i p)
    (hd : p.depth = s.max) (hne : mark s.max.toNat p - 1 ≠ 0) :
    ∃ y,(gameOf s.max claims).ancestorWithTraceIndex (mark s.max.toNat p - 1 - 1)
        ((gameOf s.max claims).claims.length + 1) c = .ok (some y) ∧
      s.trace y.position = y.value ∧
      y.position.traceIndex s.max = .ok (mark s.max.toNat p - 1 - 1) := by
  have hspn : left s.max.toNat p = mark s.max.toNat p - 1 := by
    rw [left,span_leaf (congrArg toNat hd)]
  obtain hz | ⟨a,y,hy,ha,hm,hri⟩ := h
  · omega
  have hti := traceIndex_at hp.board hy
  rw [hm,hspn] at hti
  refine ⟨y,?_,hri,hti⟩
  refine ancestorWithTraceIndex_eq hp.board hy (by omega) _ hc ?_ ha
  exact lt_succ_of_lt (lt_of_getElem? hc)

theorem detectPoisonedStepPrestate_move
    (hdue : Due s.trace s.max (claims.map nodeOf) i (nodeOf c)) :
    detectPoisonedStepPrestate (gameOf s.max claims) (moveFor s i c) keccak256 s.trace =
      .ok none := by
  have hpl := response_placed hp.board.tree hdue
  have hti : (response s.trace i (nodeOf c)).position.traceIndex (gameOf s.max claims).depth =
      .ok (mark s.max.toNat (response s.trace i (nodeOf c)).position - 1) :=
    traceIndex_eq hpl.2.1
  have hmv : isMove (moveFor s i c) = true := rfl
  rw [detectPoisonedStepPrestate,resultingPosition_move hp hc]
  simp only [pure_eq_ok]
  by_cases hd : (response s.trace i (nodeOf c)).position.depth = (gameOf s.max claims).depth
  · simp only [hd,ne_eq,not_true_eq_false,if_false,hti,ok_bind,hmv,Bool.or_true,Bool.true_and,
      decide_eq_true_eq]
    by_cases hz : mark s.max.toNat (response s.trace i (nodeOf c)).position - 1 = 0
    · rw [if_pos hz]
    have hbef := rightBefore_move hp hc hdue.2.1 hdue.2.2
    obtain ⟨y,hfd,hri,-⟩ := hbef.found hp hc hd hz
    have hck : checkPrestate (moveFor s i c) keccak256 s.trace y = none := by
      simp [checkPrestate,moveFor,hri]
    simp [@parentOf_eq s claims i c (moveFor s i c) hp hc rfl,hfd,hck]
  · simp [hd]

/-! The rules about steps. -/

theorem onlyMoveBeforeMaxDepth_step (hd : c.position.depth = s.max) :
    onlyMoveBeforeMaxDepth (gameOf s.max claims) (stepFor s claims c) = .ok none := by
  have hlt : ¬c.position.depth < (gameOf s.max claims).depth := by
    rw [hd]
    exact UInt64.lt_irrefl _
  have hmv : isMove (stepFor s claims c) = false := rfl
  rw [onlyMoveBeforeMaxDepth,parentOf_eq hp hc rfl]
  simp [hlt]

theorem doNotDuplicateExistingMoves_step (hl : Loaded claims) (h1 : 1 ≤ s.max)
    (hd : c.position.depth = s.max) :
    doNotDuplicateExistingMoves (gameOf s.max claims) (stepFor s claims c) = .ok none := by
  have hx := node_of_claim hc
  have hpl := (hp.board.tree.placed hx).1
  have hid : (Claim.mk (stepFor s claims c).value c.position Address.zero Address.zero 0
      (stepFor s claims c).parentClaim.contractIndex).id =
      .ok (idOf ⟨c.position,(stepFor s claims c).value,i⟩) := by
    have hidx : (stepFor s claims c).parentClaim.contractIndex = i := hp.board.index hc
    have hgiven := hl.at hc
    rw [Claim.id] at hgiven ⊢
    rw [hidx]
    split at hgiven
    · rename_i hfi
      rw [if_pos hfi]
      rfl
    · cases hgiven
  have hnew : idOf ⟨c.position,(stepFor s claims c).value,i⟩ ∉ (gameOf s.max claims).claimIDs := by
    intro hmem
    obtain ⟨x,hmem,heq⟩ := mem_map.mp hmem
    obtain ⟨j,hj⟩ := mem_iff_getElem?.mp hmem
    obtain rfl := @idOf_inj x ⟨c.position,_,i⟩ (hp.board.tree.placed hj).1 hpl heq
    have hpos : 0 < j := by
      have hj0 := (hp.board.tree.placed hj).2.2
      have hmax : 1 ≤ s.max.toNat := le_iff_toNat_le.mp h1
      rw [hd] at hj0
      omega
    obtain ⟨-,p,hat,hlt,-⟩ := hp.board.tree.child hj hpos
    cases hat.symm.trans hx
    rw [nodeOf_position,hd] at hlt
    exact UInt64.lt_irrefl _ hlt
  rw [doNotDuplicateExistingMoves,resultingPosition_step hp hc]
  simp [GameState.isDuplicate,hid,hnew]

theorem found_self : (gameOf s.max claims).ancestorWithTraceIndex (mark s.max.toNat c.position - 1)
    ((gameOf s.max claims).claims.length + 1) c = .ok (some c) := by
  have hpos := @mark_pos c.position s.max.toNat
  refine ancestorWithTraceIndex_eq hp.board hc (by omega) _ hc ?_ (.self i)
  exact lt_succ_of_lt (lt_of_getElem? hc)

/-- A wrong claim is attacked from the state before it, a right one from itself. -/
theorem detectPoisonedStepPrestate_step (hsteps : StepsFromTrace s keccak256)
    (hst : s.standing claims i = .disputed) (hd : c.position.depth = s.max) :
    detectPoisonedStepPrestate (gameOf s.max claims) (stepFor s claims c) keccak256 s.trace =
      .ok none := by
  have hti := traceIndex_at hp.board hc
  have hgd : c.position.depth = (gameOf s.max claims).depth := hd
  have hleaf := mark_leaf hd
  have hmv : isMove (stepFor s claims c) = false := rfl
  have hside : (stepFor s claims c).isAttack = !correct s.trace (nodeOf c) := rfl
  rw [detectPoisonedStepPrestate,resultingPosition_step hp hc]
  simp only [ok_bind,pure_eq_ok,hgd,ne_eq,not_true_eq_false,if_false,hti,hmv,hside,Bool.or_false,
    @parentOf_eq s claims i c (stepFor s claims c) hp hc rfl]
  cases hcor : correct s.trace (nodeOf c) with
  | false =>
    simp only [Bool.not_false,Bool.true_and,decide_eq_true_eq,if_true]
    by_cases hz : mark s.max.toNat c.position - 1 = 0
    · rw [if_pos hz]
    have hbef := rightBefore_self hp hc hst
    obtain ⟨y,hfd,hri,hyti⟩ := hbef.found hp hc hd hz
    have hhs := hsteps (gameOf s.max claims) c c.position y.position _ hd (by omega) hyti
    have hck : checkPrestate (stepFor s claims c) keccak256 s.trace y = none := by
      simp [checkPrestate,stepFor,hri,hcor,hhs]
    rw [hfd]
    simp [hck]
  | true =>
    have hri := trace_of_correct hcor
    have hhs := hsteps (gameOf s.max claims) c c.position.moveRight c.position _ hd
      (show c.position.indexAtDepth + 1 = _ by rw [hleaf,Nat.add_sub_cancel]) hti
    have hck : checkPrestate (stepFor s claims c) keccak256 s.trace c = none := by
      simp [checkPrestate,stepFor,hri,hcor,hhs]
    simp [found_self hp hc,hck]

/-- The step against a wrong claim fails to give it. The step against a right one gives what is to
its right, which is wrong exactly on the side of the claim. -/
theorem detectFailedStep_step (hst : s.standing claims i = .disputed)
    (hd : c.position.depth = s.max) :
    detectFailedStep (gameOf s.max claims) (stepFor s claims c) s.trace = .ok none := by
  have hb := hp.board
  have hx := node_of_claim hc
  have hti := traceIndex_at hb hc
  have hgd : ¬c.position.depth ≠ (gameOf s.max claims).depth := not_not.mpr hd
  have hstep : isStep (stepFor s claims c) = true := rfl
  have hside : (stepFor s claims c).isAttack = !correct s.trace (nodeOf c) := rfl
  rw [detectFailedStep,hstep,resultingPosition_step hp hc]
  simp only [ok_bind,pure_eq_ok,Bool.not_true,if_false,hgd,hti,hside,
    @parentOf_eq s claims i c (stepFor s claims c) hp hc rfl]
  cases hcor : correct s.trace (nodeOf c) with
  | false =>
    have hwr : s.trace c.position ≠ c.value := fun h =>
      Bool.eq_false_iff.mp hcor (decide_eq_true h.symm)
    simp [found_self hp hc,hwr]
  | true =>
    obtain ⟨a,x,ha,hat,hm⟩ := hb.tree.right_ancestor hx (pos_of_disputed hx hst hcor)
    obtain ⟨y,hy,rfl⟩ := claim_of_node hat
    have hparity := (sound hb.tree hx).rightDisputed hst hcor a _ ha hat hm
    have hpos := @mark_pos c.position s.max.toNat
    have hidx : mark s.max.toNat y.position = mark s.max.toNat c.position - 1 + 1 + 1 := by
      rw [nodeOf_position,nodeOf_position,right,span_leaf (congrArg toNat hd)] at hm
      omega
    have hfd := ancestorWithTraceIndex_eq hb hy hidx ((gameOf s.max claims).claims.length + 1) hc
      (lt_succ_of_lt (lt_of_getElem? hc)) ha
    have hle : y.position.depth.toNat ≤ c.position.depth.toNat := by
      rw [hd]
      exact hb.tree.depth_le hat
    have hagree := depth_parity hle
    simp only [Bool.not_true,Bool.false_eq_true,if_false,hfd,ok_bind]
    rw [if_neg]
    intro heq
    have hri : s.trace y.position = y.value ↔ correct s.trace (nodeOf y) = true :=
      eq_comm.trans decide_eq_true_iff.symm
    rw [Bool.eq_iff_iff,decide_eq_true_iff,decide_eq_true_iff,hagree,hri,hparity] at heq
    simp only [nodeOf_position] at heq
    omega

theorem checkRules_move (hdue : Due s.trace s.max (claims.map nodeOf) i (nodeOf c))
    (hid : MoveHasID s.trace s.max claims i)
    (hnew : response s.trace i (nodeOf c) ∉ claims.map nodeOf) :
    checkRules (gameOf s.max claims) (moveFor s i c) keccak256 s.trace s.challenger = .ok [] := by
  have hby : c.counteredBy = Address.zero := by
    by_contra hne
    exact hdue.depth_ne (hp.countered hc hne).2
  apply checkRules_ok
  simp only [rules,forall_mem_cons,not_mem_nil,false_imp_iff,implies_true,and_true]
  exact ⟨parentMustExist_ok hp hc rfl,onlyStepAtMaxDepth_move hp hc hdue.2.2,rfl,
    doNotDuplicateExistingMoves_move hp hc hdue hid hnew,
    doNotStepAlreadyCounteredClaims_ok hp hc rfl hby,
    doNotDefendRootClaim_ok hp hc rfl hdue.2.1 rfl,avoidPoisonedPrestate_move hp hc hdue,
    detectPoisonedStepPrestate_move hp hc hdue,rfl,doNotCounterSelf_ok hp hc rfl hdue.2.1⟩

theorem checkRules_step (hl : Loaded claims) (h1 : 1 ≤ s.max)
    (hsteps : StepsFromTrace s keccak256) (hst : s.standing claims i = .disputed)
    (hd : c.position.depth = s.max) (hby : c.counteredBy = Address.zero) :
    checkRules (gameOf s.max claims) (stepFor s claims c) keccak256 s.trace s.challenger =
      .ok [] := by
  apply checkRules_ok
  simp only [rules,forall_mem_cons,not_mem_nil,false_imp_iff,implies_true,and_true]
  exact ⟨parentMustExist_ok hp hc rfl,rfl,onlyMoveBeforeMaxDepth_step hp hc hd,
    doNotDuplicateExistingMoves_step hp hc hl h1 hd,
    doNotStepAlreadyCounteredClaims_ok hp hc rfl hby,doNotDefendRootClaim_ok hp hc rfl hst rfl,rfl,
    detectPoisonedStepPrestate_step hp hc hsteps hst hd,detectFailedStep_step hp hc hst hd,
    doNotCounterSelf_ok hp hc rfl hst⟩

end

/-- Every action of every turn is acceptable by all the rules. -/
theorem actions_satisfy_rules {keccak256 : Bytes → Hash} (h1 : 1 ≤ s.max)
    (hsteps : StepsFromTrace s keccak256) (h : Reached s claims) {game : GameState}
    {actions : List Action} {e : Option SolverError} (hgame : newGameState claims s.max = .ok game)
    (hactions : GameSolver.calculateNextActions s.solver game = .ok (actions,e)) :
    ∀ action ∈ actions,Rules.checkRules game action keccak256 s.trace s.challenger = .ok [] := by
  have hp := h.play
  obtain ⟨rfl,rfl,-,hl,hids⟩ := turn_eq hp hgame hactions
  intro action hmem
  obtain ⟨i,c,hc,hreply⟩ := mem_replies claims drop_zero hmem
  have hcs := @reply_cases s.trace s.proofs s.max claims i c
  rw [hreply] at hcs
  cases hcs with
  | step hst hd hby => exact checkRules_step hp hc hl h1 hsteps hst hd hby
  | move hst hd hnew => exact checkRules_move hp hc (hp.board.due hc hst hd) (hids i) hnew

end

def sampleHash (data : Bytes) : Hash := .fill 32 (data.headD 0)

theorem sample_stepsFromTrace : StepsFromTrace sampleSetup sampleHash := by
  intro g c p q k _ hidx hti
  have htrace : sampleSetup.trace q = .fill 32 (.ofNat (k + 1)) := by
    have hti : q.traceIndex 2 = .ok k := hti
    simp [sampleSetup,hti]
  rw [htrace,← hidx]
  rfl

theorem actions_satisfy_rules_sample : ∃ game actions,
    newGameState sampleClaims sampleSetup.max = .ok game ∧
    GameSolver.calculateNextActions sampleSetup.solver game = .ok (actions,none) ∧
    ∀ action ∈ actions,Rules.checkRules game action sampleHash sampleSetup.trace
      sampleSetup.challenger = .ok [] := by
  obtain ⟨hgame,hact⟩ := turn_found (le_of_ble_eq_true rfl) reached_sample.play
  exact ⟨_,_,hgame,hact,
    actions_satisfy_rules (by decide) sample_stepsFromTrace reached_sample hgame hact⟩

end OpStack.Proofs.ActionRules
