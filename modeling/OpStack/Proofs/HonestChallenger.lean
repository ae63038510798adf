import OpStack.Lib.Contest
import OpStack.Proofs.HonestSolver
import OpStack.Proofs.Resolution

namespace OpStack.Proofs.HonestChallenger
open Eth Lib Fault DisputeMon Positions ClaimTree HonestSolver Resolution List

/-- A game with an honest challenger: the trace, the data for its steps, the depth of the game and
the address that the challenger plays under. -/
structure Setup where
  trace : Position → Hash
  proofs : GameState → Claim → Position → StepProof
  max : UInt64
  challenger : Address
  challenger_ne : challenger ≠ Address.zero

namespace Setup
variable (s : Setup)

def solver : ClaimSolver := ⟨honestAccessor s.trace s.proofs,s.max⟩

def standing (claims : List Claim) (i : Nat) : Status :=
  status s.trace s.max (claims.map nodeOf) i

end Setup

def movedTo (p : Claim) (isAttack : Bool) : Position :=
  if isAttack then p.position.attack else p.position.defend

structure Allowed (s : Setup) (claims : List Claim) (who : Address) (p : Claim) (isAttack : Bool)
    (value : Hash) : Prop where
  parent : p ∈ claims
  depth : p.position.depth < s.max
  side : isAttack = false → p.isRoot = false
  fresh : ∀ c ∈ claims,¬(c.position = movedTo p isAttack ∧ c.value = value ∧
    c.parentContractIndex = p.contractIndex)
  who_ne : who ≠ Address.zero
  other : who ≠ s.challenger

/-- The games in which the turns of the challenger alternate with any moves of others. -/
inductive Reached (s : Setup) : List Claim → Prop where
  | start {root : Claim} (hpos : root.position = .root) (hindex : root.contractIndex = 0)
      (hby : root.counteredBy = Address.zero) (hne : root.claimant ≠ Address.zero)
      (hother : root.claimant ≠ s.challenger) : Reached s [root]
  | move {claims : List Claim} {who : Address} {p : Claim} {isAttack : Bool} {value : Hash}
      (h : Reached s claims) (hmove : Allowed s claims who p isAttack value) :
      Reached s (applyAction who claims ⟨.move,p,isAttack,value⟩)
  | turn {claims : List Claim} {game : GameState} {actions : List Action} {e : Option SolverError}
      (h : Reached s claims) (hgame : newGameState claims s.max = .ok game)
      (hactions : GameSolver.calculateNextActions s.solver game = .ok (actions,e)) :
      Reached s (applyActions claims s.challenger actions)

/-- What holds of every game: the challenger makes honest claims and counters disputed ones. -/
structure Play (s : Setup) (claims : List Claim) : Prop where
  board : Board s.max claims
  own : ∀ {i : Nat} {c : Claim},claims[i]? = some c → c.claimant = s.challenger →
    0 < i ∧ s.standing claims i = .honest
  countered : ∀ {i : Nat} {c : Claim},claims[i]? = some c → c.counteredBy ≠ Address.zero →
    s.standing claims i = .disputed ∧ c.position.depth = s.max

variable {s : Setup} {claims : List Claim} {i : Nat} {p c : Claim}

theorem map_nodeOf_snoc : (claims ++ [c]).map nodeOf = claims.map nodeOf ++ [nodeOf c] := by
  simp

theorem Play.standing_snoc (hp : Play s claims) (hi : i < claims.length) :
    s.standing (claims ++ [c]) i = s.standing claims i := by
  rw [Setup.standing,map_nodeOf_snoc]
  exact status_append hp.board.tree _ (by simpa using hi)

/-- A new claim: whoever makes it, the challenger only if it is honest. -/
theorem Play.snoc (hp : Play s claims) (hat : claims[i]? = some p) (hc : c.parentContractIndex = i)
    (hd : p.position.depth < s.max) (hb : Below p.position c.position)
    (hnew : nodeOf c ∉ claims.map nodeOf) (hindex : c.contractIndex = claims.length)
    (hne : c.claimant ≠ Address.zero) (hby : c.counteredBy = Address.zero)
    (hown : c.claimant = s.challenger →
      s.standing (claims ++ [c]) claims.length = .honest) : Play s (claims ++ [c]) := by
  have htree : Tree s.max ((claims ++ [c]).map nodeOf) := by
    rw [map_nodeOf_snoc]
    refine hp.board.tree.snoc (p := nodeOf p) ?_ hd hb hnew
    rw [nodeOf_parent,hc]
    exact node_of_claim hat
  constructor
  · refine ⟨htree,?_,?_⟩
    · intro j d hj
      obtain hj | ⟨rfl,rfl⟩ := getElem?_concat_cases hj
      · exact hp.board.index hj
      · exact hindex
    intro j d hj
    obtain hj | ⟨rfl,rfl⟩ := getElem?_concat_cases hj
    · exact hp.board.claimant hj
    · exact hne
  · intro j d hj heq
    obtain hj | ⟨rfl,rfl⟩ := getElem?_concat_cases hj
    · rw [hp.standing_snoc (lt_of_getElem? hj)]
      exact hp.own hj heq
    · have := lt_of_getElem? hat
      exact ⟨by omega,hown heq⟩
  · intro j d hj heq
    obtain hj | ⟨rfl,rfl⟩ := getElem?_concat_cases hj
    · rw [hp.standing_snoc (lt_of_getElem? hj)]
      exact hp.countered hj heq
    · exact absurd hby heq

theorem Play.strike (hp : Play s claims) (hat : claims[i]? = some c)
    (hst : s.standing claims i = .disputed) (hd : c.position.depth = s.max) :
    Play s (claims.modify i fun d => { d with counteredBy := s.challenger }) := by
  have hns : (claims.modify i fun d => { d with counteredBy := s.challenger }).map nodeOf =
      claims.map nodeOf := map_modify_eq fun _ => rfl
  have hcs : ∀ {j : Nat} {d : Claim},
      (claims.modify i fun d => { d with counteredBy := s.challenger })[j]? = some d →
      ∃ old,claims[j]? = some old ∧
        d = if i = j then { old with counteredBy := s.challenger } else old := by
    intro j d hj
    rw [getElem?_modify] at hj
    obtain ⟨old,hold,rfl⟩ := Option.map_eq_some_iff.mp hj
    exact ⟨old,hold,rfl⟩
  constructor
  · refine ⟨by rw [hns]; exact hp.board.tree,?_,?_⟩
    · intro j d hj
      obtain ⟨old,hold,rfl⟩ := hcs hj
      rw [← hp.board.index hold]
      split <;> rfl
    intro j d hj
    obtain ⟨old,hold,rfl⟩ := hcs hj
    have := hp.board.claimant hold
    split <;> exact this
  · intro j d hj heq
    obtain ⟨old,hold,rfl⟩ := hcs hj
    rw [Setup.standing,hns]
    refine hp.own hold ?_
    split at heq <;> exact heq
  intro j d hj heq
  obtain ⟨old,hold,rfl⟩ := hcs hj
  rw [Setup.standing,hns]
  by_cases h : i = j
  · subst h
    cases hold.symm.trans hat
    rw [if_pos rfl]
    exact ⟨hst,hd⟩
  · rw [if_neg h] at heq ⊢
    exact hp.countered hold heq

/-! A turn of the challenger, claim by claim. -/

structure Answered (s : Setup) (claims : List Claim) : Prop where
  step : ∀ {i : Nat} {c : Claim},claims[i]? = some c → s.standing claims i = .disputed →
    c.position.depth = s.max → c.counteredBy ≠ Address.zero
  move : ∀ {i : Nat} {c : Claim},claims[i]? = some c → s.standing claims i = .disputed →
    c.position.depth ≠ s.max → response s.trace i (nodeOf c) ∈ claims.map nodeOf

/-- A turn that began with the claims `before` has answered the first `n` of them. -/
structure Turn (s : Setup) (before : List Claim) (n : Nat) (claims : List Claim) : Prop where
  play : Play s claims
  grown : ∃ later,claims.map nodeOf = before.map nodeOf ++ later ∧ ∀ x ∈ later,∃ j y,j < n ∧
    Due s.trace s.max (before.map nodeOf) j y ∧ x = response s.trace j y
  rest : ∀ {i : Nat},n ≤ i → i < before.length → claims[i]? = before[i]?
  steps : ∀ {i : Nat} {c : Claim},i < n → claims[i]? = some c →
    s.standing before i = .disputed → c.position.depth = s.max → c.counteredBy ≠ Address.zero
  moves : ∀ {i : Nat} {x : Node},i < n → Due s.trace s.max (before.map nodeOf) i x →
    response s.trace i x ∈ claims.map nodeOf

section
variable {before : List Claim} {n : Nat}

theorem Turn.standing_eq (ht : Turn s before n claims) (hb : Board s.max before)
    (hi : i < before.length) : s.standing claims i = s.standing before i := by
  obtain ⟨later,hgr,-⟩ := ht.grown
  rw [Setup.standing,hgr]
  exact status_append hb.tree _ (by simpa using hi)

theorem Turn.skip (ht : Turn s before n claims) (hc : before[n]? = some c)
    (hstep : s.standing before n = .disputed → c.position.depth = s.max →
      c.counteredBy ≠ Address.zero)
    (hmove : s.standing before n = .disputed → c.position.depth ≠ s.max →
      response s.trace n (nodeOf c) ∈ before.map nodeOf) : Turn s before (n + 1) claims := by
  have hlen := lt_of_getElem? hc
  obtain ⟨later,hgr,hla⟩ := ht.grown
  constructor
  · exact ht.play
  · refine ⟨later,hgr,fun x hx => ?_⟩
    obtain ⟨j,y,hj,h⟩ := hla x hx
    exact ⟨j,y,by omega,h⟩
  · intro i hi
    exact ht.rest (by omega)
  · intro i d hi hd hst hdp
    by_cases heq : i = n
    · subst heq
      cases hc.symm.trans ((ht.rest (Nat.le_refl i) hlen).symm.trans hd)
      exact hstep hst hdp
    · exact ht.steps (by omega) hd hst hdp
  intro i x hi hdue
  by_cases heq : i = n
  · subst heq
    cases hdue.1.symm.trans (node_of_claim hc)
    rw [hgr]
    exact mem_append_left _ (hmove hdue.2.1 hdue.depth_ne)
  · exact ht.moves (by omega) hdue

theorem movedTo_response {trace : Position → Hash} :
    movedTo c (!correct trace (nodeOf c)) = (response trace n (nodeOf c)).position := by
  cases hcor : correct trace (nodeOf c) with
  | false => exact (response_attack hcor).symm
  | true => exact (response_defend hcor).symm

section
variable (ht : Turn s before n claims) (hb : Board s.max before) (hc : before[n]? = some c)
include ht hb hc

theorem Turn.strike (hst : s.standing before n = .disputed) (hd : c.position.depth = s.max) :
    Turn s before (n + 1) (claims.modify n fun d => { d with counteredBy := s.challenger }) := by
  have hlen := lt_of_getElem? hc
  have hat := (ht.rest (Nat.le_refl n) hlen).trans hc
  have hns : (claims.modify n fun d => { d with counteredBy := s.challenger }).map nodeOf =
      claims.map nodeOf := map_modify_eq fun _ => rfl
  obtain ⟨later,hgr,hla⟩ := ht.grown
  constructor
  · exact ht.play.strike hat ((ht.standing_eq hb hlen).trans hst) hd
  · refine ⟨later,hns.trans hgr,fun x hx => ?_⟩
    obtain ⟨j,y,hj,h⟩ := hla x hx
    exact ⟨j,y,by omega,h⟩
  · intro i hi hlt
    have hne : n ≠ i := by omega
    simp only [getElem?_modify,hne,if_false,id_map']
    exact ht.rest (by omega) hlt
  · intro i d hi hd hst hdp
    rw [getElem?_modify] at hd
    obtain ⟨old,hold,rfl⟩ := Option.map_eq_some_iff.mp hd
    by_cases heq : n = i
    · rw [if_pos heq]
      exact s.challenger_ne
    · rw [if_neg heq] at hdp ⊢
      exact ht.steps (by omega) hold hst hdp
  intro i x hi hdue
  rw [hns]
  by_cases heq : i = n
  · subst heq
    cases hdue.1.symm.trans (node_of_claim hc)
    exact absurd hd hdue.depth_ne
  · exact ht.moves (by omega) hdue

theorem Turn.add (hdue : Due s.trace s.max (before.map nodeOf) n (nodeOf c))
    (hnew : response s.trace n (nodeOf c) ∉ before.map nodeOf) {x : Claim}
    (hx : nodeOf x = response s.trace n (nodeOf c)) (hindex : x.contractIndex = claims.length)
    (hby : x.counteredBy = Address.zero) (hwho : x.claimant = s.challenger) :
    Turn s before (n + 1) (claims ++ [x]) := by
  have hlen := lt_of_getElem? hc
  have hat := (ht.rest (Nat.le_refl n) hlen).trans hc
  have hpar : x.parentContractIndex = n := congrArg Node.parent hx
  obtain ⟨later,hgr,hla⟩ := ht.grown
  have hfr : nodeOf x ∉ claims.map nodeOf := by
    rw [hx,hgr]
    intro hmem
    obtain hmem | hmem := mem_append.mp hmem
    · exact hnew hmem
    obtain ⟨j,y,hj,-,heq⟩ := hla _ hmem
    have : n = j := congrArg Node.parent heq
    omega
  have hhonest : s.standing (claims ++ [x]) claims.length = .honest := by
    have hls : ((claims ++ [x]).map nodeOf)[claims.length]? = some (nodeOf x) :=
      node_of_claim (by simp)
    have hlt : (nodeOf x).parent < claims.length := by
      rw [nodeOf_parent,hpar]
      exact lt_of_getElem? hat
    have hp : ((claims ++ [x]).map nodeOf)[(nodeOf x).parent]? = some (nodeOf c) := by
      rw [nodeOf_parent,hpar]
      exact node_of_claim (getElem?_append_of_some hat)
    rw [Setup.standing,status_child hls hlt hp,below_honest_iff,nodeOf_parent,hpar]
    refine ⟨?_,hx⟩
    have hst := ht.play.standing_snoc (c := x) (lt_of_getElem? hat)
    exact hst.trans ((ht.standing_eq hb hlen).trans hdue.2.1)
  constructor
  · have hbe := response_below hb.tree hdue
    rw [← hx] at hbe
    exact ht.play.snoc hat hpar hdue.2.2 hbe hfr hindex (hwho ▸ s.challenger_ne) hby
      fun _ => hhonest
  · refine ⟨later ++ [nodeOf x],?_,fun y hy => ?_⟩
    · rw [map_nodeOf_snoc,hgr,append_assoc]
    obtain hy | hy := mem_append.mp hy
    · obtain ⟨j,z,hj,h⟩ := hla y hy
      exact ⟨j,z,by omega,h⟩
    · exact ⟨n,nodeOf c,by omega,hdue,(mem_singleton.mp hy).trans hx⟩
  · intro i hi hlt
    have hrs := ht.rest (by omega) hlt
    rw [getElem?_eq_getElem hlt] at hrs ⊢
    exact getElem?_append_of_some hrs
  · intro i d hi hd hst hdp
    by_cases heq : i = n
    · subst heq
      cases hd.symm.trans (getElem?_append_of_some hat)
      exact absurd hdp hdue.depth_ne
    · obtain hd | ⟨rfl,-⟩ := getElem?_concat_cases hd
      · exact ht.steps (by omega) hd hst hdp
      · have := lt_of_getElem? hat
        omega
  · intro i y hi hdue'
    rw [map_nodeOf_snoc]
    by_cases heq : i = n
    · subst heq
      cases hdue'.1.symm.trans hdue.1
      rw [hx]
      simp
    · exact mem_append_left _ (ht.moves (by omega) hdue')

theorem Turn.next : Turn s before (n + 1) (applyActions claims s.challenger
    (reply s.trace s.proofs s.max before n c).toList) := by
  have hidx := hb.index hc
  have hcs := @reply_cases s.trace s.proofs s.max before n c
  generalize reply s.trace s.proofs s.max before n c = action at hcs
  cases hcs with
  | quiet hst => exact ht.skip hc (fun h => absurd h hst) fun h => absurd h hst
  | countered hd hby => exact ht.skip hc (fun _ _ => hby) fun _ h => absurd hd h
  | present hd hmem => exact ht.skip hc (fun _ h => absurd h hd) fun _ _ => hmem
  | step hst hd hby =>
    simp only [applyActions,Option.toList_some,foldl_cons,applyAction,hidx]
    exact ht.strike hb hc hst hd
  | move hst hd hnew =>
    refine ht.add hb hc (hb.due hc hst hd) hnew ?_ rfl rfl rfl
    change Node.mk (movedTo c _) _ c.contractIndex = _
    rw [movedTo_response (n := n),hidx]
    rfl

end

theorem applyActions_append {who : Address} {first later : List Action} :
    applyActions claims who (first ++ later) = applyActions (applyActions claims who first) who
      later :=
  foldl_append

theorem Turn.run (hb : Board s.max before) (cs : List Claim) :
    ∀ {n : Nat} {claims : List Claim},before.drop n = cs → Turn s before n claims →
      Turn s before (n + cs.length) (applyActions claims s.challenger
        (replies s.trace s.proofs s.max before n cs)) := by
  induction cs with
  | nil =>
    intro n claims _ ht
    exact ht
  | cons c cs ih =>
    intro n claims hdr ht
    obtain ⟨hc,hnx⟩ := of_drop_eq_cons hdr
    have hrun := ih hnx (ht.next hb hc)
    rw [replies,applyActions_append,length_cons,Nat.add_comm cs.length,← Nat.add_assoc]
    exact hrun

/-- After a turn every disputed claim is answered: the new claims are honest themselves. -/
theorem turn_spec (hp : Play s claims) :
    Play s (applyActions claims s.challenger (replies s.trace s.proofs s.max claims 0 claims)) ∧
    Answered s (applyActions claims s.challenger
      (replies s.trace s.proofs s.max claims 0 claims)) := by
  have hsta : Turn s claims 0 claims := by
    refine ⟨hp,⟨[],by simp,fun x hx => by simp at hx⟩,fun _ _ => rfl,?_,?_⟩
    · omega
    · omega
  have hend := Turn.run hp.board claims drop_zero hsta
  rw [Nat.zero_add] at hend
  generalize applyActions claims s.challenger
    (replies s.trace s.proofs s.max claims 0 claims) = after at hend ⊢
  have hdue : ∀ {i : Nat} {c : Claim},after[i]? = some c → s.standing after i = .disputed →
      i < claims.length ∧ s.standing claims i = .disputed ∧
        (claims.map nodeOf)[i]? = some (nodeOf c) := by
    intro i c hc hst
    have hx := node_of_claim hc
    obtain ⟨later,hgr,hla⟩ := hend.grown
    obtain hlt | hge := Nat.lt_or_ge i claims.length
    · rw [hend.standing_eq hp.board hlt] at hst
      rw [hgr,getElem?_append_left (by simpa using hlt)] at hx
      exact ⟨hlt,hst,hx⟩
    have hmem : nodeOf c ∈ later := by
      rw [hgr,getElem?_append_right (by simpa using hge)] at hx
      exact mem_of_getElem? hx
    obtain ⟨j,y,hj,hdue,heq⟩ := hla _ hmem
    have hpar : (after.map nodeOf)[(nodeOf c).parent]? = some y := by
      rw [heq,hgr]
      exact getElem?_append_of_some hdue.1
    have hjc : (nodeOf c).parent = j := congrArg Node.parent heq
    rw [Setup.standing,status_child hx (by omega) hpar] at hst
    have hh : Status.below s.trace s.max (nodeOf c).parent y (nodeOf c)
        (s.standing after (nodeOf c).parent) = .honest := by
      rw [below_honest_iff,hjc,hend.standing_eq hp.board hj]
      exact ⟨hdue.2.1,heq⟩
    cases hst.symm.trans hh
  refine ⟨hend.play,?_,?_⟩
  · intro i c hc hst hd
    obtain ⟨hlt,hst,-⟩ := hdue hc hst
    exact hend.steps hlt hc hst hd
  intro i c hc hst hd
  obtain ⟨hlt,hst,hx⟩ := hdue hc hst
  exact hend.moves hlt ⟨hx,hst,UInt64.lt_of_le_of_ne (hp.board.tree.placed hx).2.1 hd⟩

theorem turn_eq (hp : Play s claims) {game : GameState} {actions : List Action}
    {e : Option SolverError} (hgame : newGameState claims s.max = .ok game)
    (hactions : GameSolver.calculateNextActions s.solver game = .ok (actions,e)) :
    game = gameOf s.max claims ∧ actions = replies s.trace s.proofs s.max claims 0 claims ∧
      e = none ∧ Loaded claims ∧ ∀ i,MoveHasID s.trace s.max claims i := by
  obtain ⟨hl,rfl⟩ := newGameState_iff.mp hgame
  obtain ⟨hids,h⟩ | ⟨-,h⟩ := @calculateNextActions_eq s.trace s.proofs _ _ hp.board hl
  · cases h.symm.trans hactions
    exact ⟨rfl,rfl,rfl,hl,hids⟩
  · cases h.symm.trans hactions

theorem turn_found (hm : FitsID s.max) (hp : Play s claims) :
    newGameState claims s.max = .ok (gameOf s.max claims) ∧
    GameSolver.calculateNextActions s.solver (gameOf s.max claims) =
      .ok (replies s.trace s.proofs s.max claims 0 claims,none) := by
  have hl := hp.board.loaded hm
  refine ⟨newGameState_iff.mpr ⟨hl,rfl⟩,?_⟩
  exact ((calculateNextActions_eq hp.board hl).resolve_right fun h => h.1 hm).2

theorem play_start {root : Claim} (hpos : root.position = .root)
    (hindex : root.contractIndex = 0) (hby : root.counteredBy = Address.zero)
    (hne : root.claimant ≠ Address.zero) (hother : root.claimant ≠ s.challenger) :
    Play s [root] := by
  have honly : ∀ {i : Nat} {c : Claim},[root][i]? = some c → i = 0 ∧ c = root := by
    intro i c hc
    have hi := lt_of_getElem? hc
    simp only [length_singleton] at hi
    obtain rfl : i = 0 := by omega
    exact ⟨rfl,(Option.some.inj hc).symm⟩
  refine ⟨⟨tree_root hpos,?_,?_⟩,?_,?_⟩
  · intro i c hc
    obtain ⟨rfl,rfl⟩ := honly hc
    exact hindex
  · intro i c hc
    obtain ⟨rfl,rfl⟩ := honly hc
    exact hne
  · intro i c hc heq
    obtain ⟨rfl,rfl⟩ := honly hc
    exact absurd heq hother
  intro i c hc heq
  obtain ⟨rfl,rfl⟩ := honly hc
  exact absurd hby heq

theorem play_move {who : Address} {p : Claim} {isAttack : Bool} {value : Hash} (hp : Play s claims)
    (hmove : Allowed s claims who p isAttack value) :
    Play s (applyAction who claims ⟨.move,p,isAttack,value⟩) := by
  obtain ⟨i,hi⟩ := mem_iff_getElem?.mp hmove.parent
  have hidx := hp.board.index hi
  have hbe : Below p.position (movedTo p isAttack) := by
    cases hside : isAttack with
    | true => exact .attack
    | false =>
      refine .defend (Nat.pos_of_ne_zero fun h0 => ?_)
      have hrt := hmove.side hside
      have hpl := (hp.board.tree.placed (node_of_claim hi)).1
      exact Bool.eq_false_iff.mp hrt ((isRootPosition_iff hpl).mpr h0)
  have hfr : Node.mk (movedTo p isAttack) value p.contractIndex ∉ claims.map nodeOf := by
    intro hmem
    obtain ⟨c,hc,heq⟩ := mem_map.mp hmem
    obtain ⟨h1,h2,h3⟩ := Node.mk.inj heq
    exact hmove.fresh c hc ⟨h1,h2,h3⟩
  exact hp.snoc hi hidx hmove.depth hbe hfr rfl hmove.who_ne rfl
    fun h => absurd h hmove.other

theorem Reached.play (h : Reached s claims) : Play s claims := by
  induction h with
  | start hpos hidx hby hne hot => exact play_start hpos hidx hby hne hot
  | move _ hmv ih => exact play_move ih hmv
  | turn _ hgame hact ih =>
    obtain ⟨-,rfl,-⟩ := turn_eq ih hgame hact
    exact (turn_spec ih).1

end

/-! The resolution of a game in which every disputed claim is answered. -/

variable {who : Nat → Address}

theorem Board.ordered {max : UInt64} (hb : Board max claims) : Ordered claims :=
  ⟨hb.index,hb.isRoot_eq,fun hc hi => (hb.parent hc hi).1⟩

/-- The claims of a resolved game as a contest: a claim is struck by a step. -/
def contestOf (ho : Ordered claims) (hne : ∀ {i : Nat} {c : Claim},claims[i]? = some c →
    c.claimant ≠ Address.zero) (hout : ∀ {i : Nat} {c : Claim},claims[i]? = some c →
    Outcome claims who i c) (hnone : ∀ {i : Nat},claims[i]? = none → who i = Address.zero) :
    Contest Nat where
  answers j i := ∃ d,ChildOf claims i j d
  wf := by
    refine Subrelation.wf (r := fun j i => claims.length - j < claims.length - i) ?_
      (measure fun i => claims.length - i).wf
    rintro j i ⟨d,hd⟩
    have := hd.lt ho
    omega
  struck i := ∃ c,claims[i]? = some c ∧ c.counteredBy ≠ Address.zero
  falls i := who i ≠ Address.zero
  falls_iff := by
    intro i
    cases hc : claims[i]? with
    | none =>
      refine ⟨fun h => absurd (hnone hc) h,?_⟩
      rintro (⟨d,hd,-⟩ | ⟨j,⟨d,hd⟩,-⟩)
      · cases hd
      have := hd.lt ho
      have := getElem?_eq_none_iff.mp hc
      omega
    | some c =>
      cases hout hc with
      | kept hall heq =>
        rw [heq]
        refine ⟨fun h => .inl ⟨c,rfl,h⟩,?_⟩
        rintro (⟨d,hd,h⟩ | ⟨j,⟨d,hd⟩,h⟩)
        · cases hd
          exact h
        · exact absurd (hall j d hd) h
      | countered j d hd hstands heq hmin =>
        refine ⟨fun _ => .inr ⟨j,⟨d,hd⟩,not_not.mpr hstands⟩,fun _ => ?_⟩
        rw [heq]
        exact hne hd.claim

def strategyOf (hp : Play s claims) (ha : Answered s claims) (hout : ∀ {i : Nat} {c : Claim},
    claims[i]? = some c → Outcome claims who i c)
    (hnone : ∀ {i : Nat},claims[i]? = none → who i = Address.zero) :
    (contestOf (Board.ordered hp.board) hp.board.claimant hout hnone).Strategy where
  defended i := s.standing claims i = .honest
  attacked i := s.standing claims i = .disputed
  unstruck := by
    rintro i hst ⟨c,hc,hby⟩
    rw [(hp.countered hc hby).1] at hst
    cases hst
  watched := by
    rintro i j hst ⟨d,hd⟩
    obtain ⟨-,q,-,-,-,hbelow⟩ := hp.board.parent hd.claim hd.pos
    rw [Setup.standing,hbelow,below_disputed_iff,hd.parent]
    exact .inl hst
  answered := by
    intro i hst
    obtain ⟨c,hc⟩ : ∃ c,claims[i]? = some c := by
      cases hc : claims[i]? with
      | none => simp [Setup.standing,status,hc] at hst
      | some c => exact ⟨c,rfl⟩
    by_cases hd : c.position.depth = s.max
    · exact .inl ⟨c,hc,ha.step hc hst hd⟩
    have hdue := hp.board.due hc hst hd
    obtain ⟨j,hj⟩ := mem_iff_getElem?.mp (ha.move hc hst hd)
    obtain ⟨d,hd,hnode⟩ := claim_of_node hj
    have hpos : 0 < j := Nat.pos_of_ne_zero fun hzero =>
      (response_placed hp.board.tree hdue).2.2.ne' ((hp.board.tree.placed hj).2.2.mp hzero)
    have hparent : d.parentContractIndex = i := congrArg Node.parent hnode
    refine .inr ⟨j,⟨d,hd,hpos,hparent⟩,?_⟩
    obtain ⟨-,q,hq,-,-,hbelow⟩ := hp.board.parent hd hpos
    rw [hparent] at hq hbelow
    cases hq.symm.trans hc
    rw [Setup.standing,hbelow,below_honest_iff]
    exact ⟨hst,hnode⟩

/-- The right side wins, none of the challenger's claims is countered, each claim it countered is
resolved in its favour, and it answered none twice. -/
structure RightResult (s : Setup) (claims : List Claim) (result : GameStatus × BidirectionalTree) :
    Prop where
  winner : ∃ root,claims[0]? = some root ∧
    (result.1 = .defenderWon ↔ root.value = s.trace root.position)
  stands : ∀ (i : Nat) (c : Claim),claims[i]? = some c → c.claimant = s.challenger →
    ∃ node : BidirectionalClaim,result.2[i]? = some node ∧
      node.claim = { c with counteredBy := Address.zero }
  paid : ∀ (i : Nat) (c : Claim),claims[i]? = some c → c.claimant = s.challenger →
    ∃ (p : Claim) (node : BidirectionalClaim),claims[c.parentContractIndex]? = some p ∧
      result.2[c.parentContractIndex]? = some node ∧
      node.claim = { p with counteredBy := s.challenger }
  single : ∀ (i j : Nat) (c d : Claim),claims[i]? = some c → claims[j]? = some d →
    c.claimant = s.challenger → d.claimant = s.challenger →
    c.parentContractIndex = d.parentContractIndex → i = j

variable {tree : BidirectionalTree} {j : Nat} {d : Claim}

theorem Play.own_response (hp : Play s claims) (hc : claims[i]? = some c)
    (hown : c.claimant = s.challenger) : ∃ p,claims[c.parentContractIndex]? = some p ∧
      s.standing claims c.parentContractIndex = .disputed ∧ ChildOf claims c.parentContractIndex i c ∧
      nodeOf c = response s.trace c.parentContractIndex (nodeOf p) := by
  obtain ⟨hpos,hst⟩ := hp.own hc hown
  obtain ⟨-,p,hat,-,-,hbe⟩ := hp.board.parent hc hpos
  rw [Setup.standing,hbe,below_honest_iff] at hst
  exact ⟨p,hat,hst.1,⟨hc,hpos,rfl⟩,hst.2⟩

theorem Play.single (hp : Play s claims) (hc : claims[i]? = some c) (hd : claims[j]? = some d)
    (hcown : c.claimant = s.challenger) (hdown : d.claimant = s.challenger)
    (heq : c.parentContractIndex = d.parentContractIndex) : i = j := by
  obtain ⟨p,hat,-,-,hnd⟩ := hp.own_response hc hcown
  obtain ⟨q,hat',-,-,hnd'⟩ := hp.own_response hd hdown
  rw [← heq] at hat' hnd'
  cases hat.symm.trans hat'
  refine hp.board.tree.distinct (node_of_claim hc) ?_
  rw [hnd,← hnd']
  exact node_of_claim hd

/-- A claim to the left of the answer, or level with it, is disputed. -/
theorem Play.left_disputed (hp : Play s claims) {p : Claim} (hat : claims[i]? = some p)
    (hst : s.standing claims i = .disputed) (hd : ChildOf claims i j d)
    (hc : Below p.position c.position) (hcnode : nodeOf c = response s.trace i (nodeOf p))
    (hne : nodeOf d ≠ nodeOf c) (hle : d.position.indexAtDepth ≤ c.position.indexAtDepth) :
    s.standing claims j = .disputed := by
  obtain ⟨-,q,hq,hdp,hb,hbe⟩ := hp.board.parent hd.claim hd.pos
  rw [hd.parent] at hq hbe
  cases hq.symm.trans hat
  have hpl := (hp.board.tree.placed (node_of_claim hat)).1
  have hlevel : d.position.depth.toNat = c.position.depth.toNat := by
    rw [(hb.placed hpl hdp).2,(hc.placed hpl hdp).2]
  rw [Setup.standing,hbe,below_disputed_iff,← hcnode]
  exact .inr ⟨hst,hne,mark_mono hlevel hle⟩

theorem rightResult (hp : Play s claims) (ha : Answered s claims) (hl : Links claims tree) :
    RightResult s claims (resolve tree) := by
  have ho := Board.ordered hp.board
  have hno : ∀ {i : Nat},claims[i]? = none → counteredAt (resolve tree).2 i = Address.zero := by
    intro i hi
    have hat := @resolve_at _ _ i ho hl
    have hti : tree[i]? = none := by
      rw [getElem?_eq_none_iff,hl.length_eq]
      exact getElem?_eq_none_iff.mp hi
    rw [hti] at hat
    simp [counteredAt,hat]
  have hout : ∀ {i : Nat} {c : Claim},claims[i]? = some c →
      Outcome claims (counteredAt (resolve tree).2) i c := resolve_outcome ho hl
  have hstd : ∀ {i : Nat},s.standing claims i = .honest →
      counteredAt (resolve tree).2 i = Address.zero := fun h =>
    not_not.mp ((strategyOf hp ha hout hno).stands h)
  have hfalls : ∀ {i : Nat},s.standing claims i = .disputed →
      counteredAt (resolve tree).2 i ≠ Address.zero := fun h =>
    (strategyOf hp ha hout hno).falls h
  constructor
  · obtain ⟨r,hr,-⟩ := hp.board.tree.root
    obtain ⟨root,hrt,rfl⟩ := claim_of_node hr
    refine ⟨root,hrt,?_⟩
    have hst := @status_root s.trace s.max _ _ hr
    rw [resolve_status]
    by_cases hcor : root.value = s.trace root.position
    · have hc : correct s.trace (nodeOf root) = true := decide_eq_true hcor
      rw [hc] at hst
      exact ⟨fun _ => hcor,fun _ => hstd hst⟩
    have hc : correct s.trace (nodeOf root) = false := decide_eq_false hcor
    rw [hc] at hst
    exact ⟨fun h => absurd h (hfalls hst),fun h => absurd h hcor⟩
  · intro i c hc hown
    obtain ⟨node,hnd,hclm⟩ := resolve_claim ho hl hc
    rw [hstd (hp.own hc hown).2] at hclm
    exact ⟨node,hnd,hclm⟩
  · intro i c hc hown
    obtain ⟨p,hat,hst,hcd,hcnode⟩ := hp.own_response hc hown
    have hz := hstd (hp.own hc hown).2
    obtain ⟨node,hnd,hclm⟩ := resolve_claim ho hl hat
    refine ⟨p,node,hat,hnd,?_⟩
    suffices hby : counteredAt (resolve tree).2 c.parentContractIndex = s.challenger by
      rw [hclm,hby]
    cases hout hat with
    | kept hall heq => exact absurd hz (hall i c hcd)
    | countered j d hd hjstands heq hmin =>
      -- The leftmost child that stands is the challenger's own claim.
      have hsm : nodeOf d = nodeOf c := by
        by_contra hne
        obtain ⟨-,q,hq,-,hb,-⟩ := hp.board.parent hc hcd.pos
        cases hq.symm.trans hat
        exact hfalls (hp.left_disputed hat hst hd hb hcnode hne (hmin i c hcd hz)) hjstands
      have hij : j = i := by
        refine hp.board.tree.distinct (node_of_claim hd.claim) ?_
        rw [hsm]
        exact node_of_claim hc
      subst hij
      cases hc.symm.trans hd.claim
      rw [heq,hown]
  · exact fun _ _ _ _ => hp.single

/-- In every game the result is the right one after a turn of the challenger, up to the depth at
which claims have IDs; the code stops at claims below it. -/
theorem challenger_wins (h : Reached s claims) :
    (∀ game actions e,newGameState claims s.max = .ok game →
      GameSolver.calculateNextActions s.solver game = .ok (actions,e) →
      e = none ∧ ∃ tree,
        createBidirectionalTree (applyActions claims s.challenger actions) = .ok tree ∧
        RightResult s (applyActions claims s.challenger actions) (resolve tree)) ∧
    (s.max.toNat ≤ 2047 → ∃ game actions,newGameState claims s.max = .ok game ∧
      GameSolver.calculateNextActions s.solver game = .ok (actions,none)) := by
  have hp := h.play
  constructor
  · intro game actions e hgame hact
    obtain ⟨rfl,rfl,he,-⟩ := turn_eq hp hgame hact
    obtain ⟨hplay,hanswered⟩ := turn_spec hp
    obtain ⟨tree,htree,hl⟩ := createBidirectionalTree_links (Board.ordered hplay.board)
    exact ⟨he,tree,htree,rightResult hplay hanswered hl⟩
  · intro hm
    obtain ⟨hgame,hact⟩ := turn_found hm hp
    exact ⟨_,_,hgame,hact⟩

def sampleSetup : Setup where
  trace p :=
    match p.traceIndex 2 with
    | .ok k => .fill 32 (.ofNat (k + 1))
    | .error _ => .fill 32 0
  proofs _ _ p := ⟨[.ofNat p.indexAtDepth],[]⟩
  max := 2
  challenger := .fill 20 1
  challenger_ne := by decide

def sampleRival : Address := .fill 20 2

def sampleRoot : Claim := ⟨.fill 32 9,Position.root,Address.zero,sampleRival,0,0⟩

def sampleAttack : Claim := ⟨.fill 32 2,⟨1,0⟩,Address.zero,sampleRival,1,0⟩

/-- The root, the attack of it and a wrong claim against the attack, at the last level. -/
def sampleClaims : List Claim :=
  [sampleRoot,sampleAttack,⟨.fill 32 7,⟨2,0⟩,Address.zero,sampleRival,2,1⟩]

theorem reached_sample : Reached sampleSetup sampleClaims := by
  have hrt : Allowed sampleSetup [sampleRoot] sampleRival sampleRoot true (.fill 32 2) :=
    ⟨by decide,by decide,by decide,by decide,by decide,by decide⟩
  have hatt : Allowed sampleSetup [sampleRoot,sampleAttack] sampleRival sampleAttack true
      (.fill 32 7) :=
    ⟨by decide,by decide,by decide,by decide,by decide,by decide⟩
  exact ((Reached.start rfl rfl rfl (by decide) (by decide)).move hrt).move hatt

theorem challenger_wins_sample : ∃ game actions tree,
    newGameState sampleClaims sampleSetup.max = .ok game ∧
    GameSolver.calculateNextActions sampleSetup.solver game = .ok (actions,none) ∧
    createBidirectionalTree (applyActions sampleClaims sampleSetup.challenger actions) = .ok tree ∧
    RightResult sampleSetup (applyActions sampleClaims sampleSetup.challenger actions)
      (resolve tree) := by
  obtain ⟨hri,hfd⟩ := challenger_wins reached_sample
  obtain ⟨game,actions,hgame,hact⟩ := hfd (by decide)
  obtain ⟨-,tree,htree,hres⟩ := hri game actions none hgame hact
  exact ⟨game,actions,tree,hgame,hact,htree,hres⟩

end OpStack.Proofs.HonestChallenger
