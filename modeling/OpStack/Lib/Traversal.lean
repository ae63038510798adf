import Mathlib.Data.List.Perm.Subperm
import OpStack.Lib.Lists
import OpStack.Lib.Outcome

namespace OpStack.Lib
open Relation List Prod

/-- A node is opened to a list of items, and each item is examined: it may lead to another node. One
node is kept for each key. The first error ends the traversal. -/
structure Traversal (κ β ι ε : Type) where
  items : κ × β → Except ε (List ι)
  examine : κ × β → ι → Except ε (Option (κ × β))
  same : β → β → Bool
  clash : ε

namespace Traversal
variable {κ β ι ε : Type}

structure State (κ β : Type) where
  step : Nat
  found : List (κ × β)
  stack : List (κ × β)

section
variable [DecidableEq κ] (S : Traversal κ β ι ε)

def add (s : List (κ × β) × List (κ × β)) (q : κ × β) : Except ε (List (κ × β) × List (κ × β)) :=
  match s.1.lookup q.1 with
  | some b => if S.same b q.2 then .ok s else .error S.clash
  | none => .ok (q :: s.1,q :: s.2)

def addItem (p : κ × β) (s : List (κ × β) × List (κ × β)) (i : ι) :
    Except ε (List (κ × β) × List (κ × β)) :=
  match S.examine p i with
  | .error e => .error e
  | .ok none => .ok s
  | .ok (some q) => S.add s q

def addItems (p : κ × β) : List ι → List (κ × β) × List (κ × β) →
    Except ε (List (κ × β) × List (κ × β))
  | [],s => .ok s
  | i::rest,s => S.addItem p s i >>= addItems p rest

def visit (order : List ι → List ι) (p : κ × β) (s : List (κ × β) × List (κ × β)) :
    Except ε (List (κ × β) × List (κ × β)) := do
  let items ← S.items p
  S.addItems p (order items) s

/-- The node on top of the stack is visited. Each visit has its own order of the items. -/
def round (order : Nat → List ι → List ι) (s : State κ β) :
    Except Empty (State κ β ⊕ Except ε (List (κ × β))) :=
  match s.stack with
  | [] => .ok (.inr (.ok s.found))
  | p::stack =>
    match S.visit (order s.step) p (s.found,stack) with
    | .error e => .ok (.inr (.error e))
    | .ok (found,stack) => .ok (.inl ⟨s.step + 1,found,stack⟩)

def run (order : Nat → List ι → List ι) (fuel : Nat) (start : κ × β) :
    Option (Except Empty (Except ε (List (κ × β)))) :=
  loop (S.round order) fuel ⟨0,[],[start]⟩

end

section
variable (S : Traversal κ β ι ε)

def Leads (p q : κ × β) : Prop :=
  ∃ items,S.items p = .ok items ∧ ∃ i ∈ items,S.examine p i = .ok (some q)

/-- A visit to the node meets no error of its own. -/
def Clean (p : κ × β) : Prop :=
  ∃ items,S.items p = .ok items ∧ ∀ i ∈ items,∃ r,S.examine p i = .ok r

def Faulty (p : κ × β) (e : ε) : Prop :=
  S.items p = .error e ∨ ∃ items,S.items p = .ok items ∧ ∃ i ∈ items,S.examine p i = .error e

/-- A step of the traversal that no error of the first node ends. -/
def Through (p q : κ × β) : Prop := S.Clean p ∧ S.Leads p q

def Reaches (start p : κ × β) : Prop := ReflTransGen S.Through start p

def Clashes (start : κ × β) : Prop :=
  ∃ x p q,S.Reaches start x ∧ S.Leads x q ∧ (TransGen S.Through start p ∨ S.Leads x p) ∧
    p.1 = q.1 ∧ p.2 ≠ q.2

def Meets (start : κ × β) (e : ε) : Prop :=
  (∃ p,S.Reaches start p ∧ S.Faulty p e) ∨ e = S.clash ∧ S.Clashes start

/-- Nodes of one key that the traversal may come to are told apart. -/
def Distinguishes (start : κ × β) : Prop :=
  ∀ x p q,S.Reaches start x → S.Leads x q → (TransGen S.Through start p ∨ S.Leads x p) →
    p.1 = q.1 → (S.same p.2 q.2 = true ↔ p.2 = q.2)

end

variable {S : Traversal κ β ι ε} {start p q : κ × β} {e : ε}

section
variable {items : List ι}

theorem Clean.not_faulty (h : S.Clean p) : ¬ S.Faulty p e := by
  obtain ⟨items,hit,hok⟩ := h
  rintro (hfa | ⟨items',hit',i,hi,hfa⟩)
  · simp [hit] at hfa
  rw [hit] at hit'
  cases hit'
  obtain ⟨r,hr⟩ := hok i hi
  simp [hr] at hfa

variable [DecidableEq κ] {s s' : List (κ × β) × List (κ × β)} {i : ι}

theorem addItem_ok (hnodup : (s.1.map fst).Nodup)
    (hsame : ∀ p' ∈ s.1,∀ q,S.examine p i = .ok (some q) → p'.1 = q.1 →
      (S.same p'.2 q.2 = true ↔ p'.2 = q.2)) (h : S.addItem p s i = .ok s') :
    (∃ r,S.examine p i = .ok r) ∧
    ∃ new,s' = (new ++ s.1,new ++ s.2) ∧ ((new ++ s.1).map fst).Nodup ∧
      (∀ q ∈ new,S.examine p i = .ok (some q)) ∧
      ∀ q,S.examine p i = .ok (some q) → q ∈ new ++ s.1 := by
  unfold addItem at h
  cases hex : S.examine p i with
  | error e => simp [hex] at h
  | ok r =>
    refine ⟨⟨r,rfl⟩,?_⟩
    rw [hex] at h
    cases r with
    | none =>
      cases h
      exact ⟨[],rfl,hnodup,fun q hq => absurd hq not_mem_nil,nofun⟩
    | some q =>
      simp only [add] at h
      cases hlk : s.1.lookup q.1 with
      | none =>
        rw [hlk] at h
        cases h
        refine ⟨[q],rfl,nodup_cons.mpr ⟨lookup_eq_none.mp hlk,hnodup⟩,?_,?_⟩
        · intro q' hq'
          rw [mem_singleton.mp hq']
        intro q' hq'
        cases hq'
        exact mem_cons_self
      | some b =>
        rw [hlk] at h
        simp only at h
        split at h
        · rename_i hb
          cases h
          have hmem := mem_of_lookup hlk
          have heq : b = q.2 := (hsame (q.1,b) hmem q hex rfl).mp hb
          refine ⟨[],rfl,hnodup,fun q hq => absurd hq not_mem_nil,?_⟩
          intro q' hq'
          cases hq'
          rw [heq] at hmem
          exact hmem
        · cases h

theorem addItem_error (hsame : ∀ p' ∈ s.1,∀ q,S.examine p i = .ok (some q) → p'.1 = q.1 →
      (S.same p'.2 q.2 = true ↔ p'.2 = q.2)) (h : S.addItem p s i = .error e) :
    S.examine p i = .error e ∨ e = S.clash ∧ ∃ p' ∈ s.1,∃ q,S.examine p i = .ok (some q) ∧
      p'.1 = q.1 ∧ p'.2 ≠ q.2 := by
  unfold addItem at h
  cases hex : S.examine p i with
  | error e' =>
    rw [hex] at h
    cases h
    exact .inl rfl
  | ok r =>
    rw [hex] at h
    cases r with
    | none => cases h
    | some q =>
      simp only [add] at h
      cases hlk : s.1.lookup q.1 with
      | none => simp [hlk] at h
      | some b =>
        rw [hlk] at h
        simp only at h
        split at h
        · cases h
        rename_i hb
        cases h
        have hmem := mem_of_lookup hlk
        refine .inr ⟨rfl,(q.1,b),hmem,q,rfl,rfl,?_⟩
        intro heq
        exact hb ((hsame (q.1,b) hmem q hex rfl).mpr heq)

def Wanted (S : Traversal κ β ι ε) (p : κ × β) (items : List ι) (q : κ × β) : Prop :=
  ∃ i ∈ items,S.examine p i = .ok (some q)

def TellsApart (S : Traversal κ β ι ε) (p : κ × β) (items : List ι) (found : List (κ × β)) : Prop :=
  ∀ p' q,(p' ∈ found ∨ S.Wanted p items p') → S.Wanted p items q → p'.1 = q.1 →
    (S.same p'.2 q.2 = true ↔ p'.2 = q.2)

omit [DecidableEq κ] in
theorem TellsApart.tail {new found : List (κ × β)} (h : S.TellsApart p (i::items) found)
    (hnew : ∀ q ∈ new,S.examine p i = .ok (some q)) : S.TellsApart p items (new ++ found) := by
  have hmono : ∀ q,S.Wanted p items q → S.Wanted p (i::items) q := by
    rintro q ⟨j,hj,hq⟩
    exact ⟨j,mem_cons_of_mem _ hj,hq⟩
  intro p' q hp' hq heq
  refine h p' q ?_ (hmono q hq) heq
  rcases hp' with hp' | hp'
  · rcases mem_append.mp hp' with hp' | hp'
    · exact .inr ⟨i,mem_cons_self,hnew p' hp'⟩
    · exact .inl hp'
  · exact .inr (hmono p' hp')

theorem addItems_ok (hnodup : (s.1.map fst).Nodup) (hsame : S.TellsApart p items s.1)
    (h : S.addItems p items s = .ok s') : (∀ i ∈ items,∃ r,S.examine p i = .ok r) ∧
    ∃ new,s' = (new ++ s.1,new ++ s.2) ∧ ((new ++ s.1).map fst).Nodup ∧
      (∀ q ∈ new,S.Wanted p items q) ∧ ∀ q,S.Wanted p items q → q ∈ new ++ s.1 := by
  induction items generalizing s with
  | nil =>
    cases h
    refine ⟨fun i hi => absurd hi not_mem_nil,[],rfl,hnodup,fun q hq => absurd hq not_mem_nil,?_⟩
    rintro q ⟨i,hi,_⟩
    exact absurd hi not_mem_nil
  | cons i items ih =>
    obtain ⟨s₁,hone,hrest⟩ := of_bind_ok h
    obtain ⟨hr,new₁,rfl,hnodup₁,hfm₁,hall₁⟩ := addItem_ok hnodup
      (fun p' hp' q hq heq => hsame p' q (.inl hp') ⟨i,mem_cons_self,hq⟩ heq) hone
    obtain ⟨hrs,new₂,rfl,hnodup₂,hfm₂,hall₂⟩ := ih hnodup₁ (hsame.tail hfm₁) hrest
    refine ⟨?_,new₂ ++ new₁,by simp,by simpa using hnodup₂,?_,?_⟩
    · intro j hj
      rcases mem_cons.mp hj with rfl | hj
      · exact hr
      · exact hrs j hj
    · intro q hq
      rcases mem_append.mp hq with hq | hq
      · obtain ⟨j,hj,hq⟩ := hfm₂ q hq
        exact ⟨j,mem_cons_of_mem _ hj,hq⟩
      · exact ⟨i,mem_cons_self,hfm₁ q hq⟩
    rintro q ⟨j,hj,hq⟩
    rw [append_assoc]
    rcases mem_cons.mp hj with rfl | hj
    · exact mem_append_right _ (hall₁ q hq)
    · exact hall₂ q ⟨j,hj,hq⟩

theorem addItems_error (hnodup : (s.1.map fst).Nodup) (hsame : S.TellsApart p items s.1)
    (h : S.addItems p items s = .error e) : (∃ i ∈ items,S.examine p i = .error e) ∨
      e = S.clash ∧ ∃ p' q,(p' ∈ s.1 ∨ S.Wanted p items p') ∧ S.Wanted p items q ∧
        p'.1 = q.1 ∧ p'.2 ≠ q.2 := by
  induction items generalizing s with
  | nil => cases h
  | cons i items ih =>
    have hsame₁ : ∀ p' ∈ s.1,∀ q,S.examine p i = .ok (some q) → p'.1 = q.1 →
        (S.same p'.2 q.2 = true ↔ p'.2 = q.2) :=
      fun p' hp' q hq heq => hsame p' q (.inl hp') ⟨i,mem_cons_self,hq⟩ heq
    unfold addItems at h
    cases hone : S.addItem p s i with
    | error e' =>
      rw [hone] at h
      cases h
      rcases addItem_error hsame₁ hone with hfa | ⟨rfl,p',hp',q,hq,hkey,hne⟩
      · exact .inl ⟨i,mem_cons_self,hfa⟩
      · exact .inr ⟨rfl,p',q,.inl hp',⟨i,mem_cons_self,hq⟩,hkey,hne⟩
    | ok s₁ =>
      rw [hone] at h
      obtain ⟨_,new₁,rfl,hnodup₁,hfm₁,_⟩ := addItem_ok hnodup hsame₁ hone
      have hmono : ∀ q,S.Wanted p items q → S.Wanted p (i::items) q := by
        rintro q ⟨j,hj,hq⟩
        exact ⟨j,mem_cons_of_mem _ hj,hq⟩
      rcases ih hnodup₁ (hsame.tail hfm₁) h with ⟨j,hj,hfa⟩ | ⟨rfl,p',q,hp',hq,hkey,hne⟩
      · exact .inl ⟨j,mem_cons_of_mem _ hj,hfa⟩
      refine .inr ⟨rfl,p',q,?_,hmono q hq,hkey,hne⟩
      rcases hp' with hp' | hp'
      · rcases mem_append.mp hp' with hp' | hp'
        · exact .inr ⟨i,mem_cons_self,hfm₁ p' hp'⟩
        · exact .inl hp'
      · exact .inr (hmono p' hp')

end

/-! The whole traversal. -/

section
variable {found : List (κ × β)} {order : List ι → List ι}

structure Explored (S : Traversal κ β ι ε) (keys : List κ) (start : κ × β) (s : State κ β) :
    Prop where
  nodup : (s.found.map fst).Nodup
  keys : ∀ p ∈ s.found,p.1 ∈ keys
  reached : ∀ p ∈ s.found,TransGen S.Through start p
  stack : ∀ p ∈ s.stack,p = start ∨ p ∈ s.found
  visited : ∀ p,(p = start ∨ p ∈ s.found) → p ∉ s.stack →
    S.Clean p ∧ ∀ q,S.Leads p q → q ∈ s.found

structure Finds (S : Traversal κ β ι ε) (start : κ × β) (found : List (κ × β)) : Prop where
  nodup : (found.map fst).Nodup
  mem_iff : ∀ p,p ∈ found ↔ TransGen S.Through start p
  clean : ∀ p,S.Reaches start p → S.Clean p

theorem Finds.not_clash (h : S.Finds start found) : ¬ S.Clashes start := by
  rintro ⟨x,p,q,hx,hq,hp,hkey,hne⟩
  have hxclean := h.clean x hx
  have hqmem := (h.mem_iff q).mpr (.tail' hx ⟨hxclean,hq⟩)
  have hpmem : p ∈ found := by
    rcases hp with hp | hp
    · exact (h.mem_iff p).mpr hp
    · exact (h.mem_iff p).mpr (.tail' hx ⟨hxclean,hp⟩)
  exact hne (congrArg snd (inj_on_of_nodup_map h.nodup hpmem hqmem hkey))

theorem Finds.not_meets (h : S.Finds start found) (e : ε) : ¬ S.Meets start e := by
  rintro (⟨p,hp,hfaulty⟩ | ⟨_,hclash⟩)
  · exact (h.clean p hp).not_faulty hfaulty
  · exact h.not_clash hclash

variable {keys : List κ} {s : State κ β} {stack : List (κ × β)} {items items' : List ι}

theorem Explored.top_reached (h : S.Explored keys start s) (hp : p ∈ s.stack) :
    S.Reaches start p := by
  rcases h.stack p hp with rfl | hp
  · exact .refl
  · exact (h.reached p hp).to_reflTransGen

theorem Explored.finished (h : S.Explored keys start s) (hempty : s.stack = []) :
    S.Finds start s.found := by
  have hvisited : ∀ p,(p = start ∨ p ∈ s.found) → S.Clean p ∧ ∀ q,S.Leads p q → q ∈ s.found := by
    intro p hp
    apply h.visited p hp
    rw [hempty]
    exact not_mem_nil
  have hmem : ∀ p,S.Reaches start p → p = start ∨ p ∈ s.found := by
    intro p hp
    induction hp with
    | refl => exact .inl rfl
    | tail _ hst ih => exact .inr ((hvisited _ ih).2 _ hst.2)
  refine ⟨h.nodup,?_,fun p hp => (hvisited p (hmem p hp)).1⟩
  intro p
  constructor
  · exact h.reached p
  intro hp
  obtain ⟨q,hq,hst⟩ := TransGen.tail'_iff.mp hp
  exact (hvisited q (hmem q hq)).2 p hst.2

theorem leads_iff_wanted (hitems : S.items p = .ok items) (hperm : items'.Perm items)
    (q : κ × β) : S.Leads p q ↔ S.Wanted p items' q := by
  constructor
  · rintro ⟨items₁,hitems₁,i,hi,hq⟩
    rw [hitems] at hitems₁
    cases hitems₁
    exact ⟨i,hperm.mem_iff.mpr hi,hq⟩
  · rintro ⟨i,hi,hq⟩
    exact ⟨items,hitems,i,hperm.mem_iff.mp hi,hq⟩

theorem Explored.tellsApart (h : S.Explored keys start s) (hd : S.Distinguishes start)
    (hp : p ∈ s.stack) (hleads : ∀ q,S.Wanted p items q → S.Leads p q) :
    S.TellsApart p items s.found := by
  intro p' q hp' hq
  exact hd p p' q (h.top_reached hp) (hleads q hq) (hp'.imp (h.reached p') (hleads p'))

theorem Explored.length_le (h : S.Explored keys start s) : s.found.length ≤ keys.length := by
  have hsub : (s.found.map fst).Subperm keys := by
    apply subperm_of_subset h.nodup
    intro k hk
    obtain ⟨p,hp,rfl⟩ := mem_map.mp hk
    exact h.keys p hp
  simpa using hsub.length_le

theorem Explored.initial (S : Traversal κ β ι ε) (keys : List κ) (start : κ × β) :
    S.Explored keys start ⟨0,[],[start]⟩ := by
  refine ⟨nodup_nil,fun p hp => absurd hp not_mem_nil,
    fun p hp => absurd hp not_mem_nil,fun p hp => .inl (mem_singleton.mp hp),?_⟩
  rintro p (rfl | hp) hnot
  · exact absurd (mem_singleton.mpr rfl) hnot
  · exact absurd hp not_mem_nil

variable [DecidableEq κ]

theorem Explored.visit (h : S.Explored keys start s) (hd : S.Distinguishes start)
    (hkeys : ∀ p q,S.Leads p q → q.1 ∈ keys) (hstack : s.stack = p::stack)
    (hperm : ∀ l,(order l).Perm l)
    {s' : List (κ × β) × List (κ × β)} (hvisit : S.visit order p (s.found,stack) = .ok s') :
    ∃ new,s' = (new ++ s.found,new ++ stack) ∧ S.Explored keys start ⟨s.step + 1,s'.1,s'.2⟩ := by
  obtain ⟨items,hit,hadd⟩ := of_bind_ok hvisit
  have hp : p ∈ s.stack := by
    rw [hstack]
    exact mem_cons_self
  have hld := leads_iff_wanted hit (hperm items)
  obtain ⟨hok,new,rfl,hnd,hfm,hall⟩ := addItems_ok h.nodup
    (h.tellsApart hd hp fun q => (hld q).mpr) hadd
  have hcn : S.Clean p := ⟨items,hit,fun i hi => hok i ((hperm items).mem_iff.mpr hi)⟩
  refine ⟨new,rfl,hnd,?_,?_,?_,?_⟩
  · intro q hq
    rcases mem_append.mp hq with hq | hq
    · exact hkeys p q ((hld q).mpr (hfm q hq))
    · exact h.keys q hq
  · intro q hq
    rcases mem_append.mp hq with hq | hq
    · exact .tail' (h.top_reached hp) ⟨hcn,(hld q).mpr (hfm q hq)⟩
    · exact h.reached q hq
  · intro q hq
    rcases mem_append.mp hq with hq | hq
    · exact .inr (mem_append_left _ hq)
    rcases h.stack q (by
      rw [hstack]
      exact mem_cons_of_mem _ hq) with hq | hq
    · exact .inl hq
    · exact .inr (mem_append_right _ hq)
  intro q hq hnot
  simp only [mem_append,not_or] at hnot hq
  by_cases hqp : q = p
  · subst hqp
    exact ⟨hcn,fun r hr => hall r ((hld r).mp hr)⟩
  have hold : q = start ∨ q ∈ s.found := by
    rcases hq with hq | hq | hq
    · exact .inl hq
    · exact absurd hq hnot.1
    · exact .inr hq
  have hnot' : q ∉ s.stack := by
    rw [hstack]
    simp [hqp,hnot.2]
  obtain ⟨hcn',hnx⟩ := h.visited q hold hnot'
  exact ⟨hcn',fun r hr => mem_append_right _ (hnx r hr)⟩

theorem Explored.visit_error (h : S.Explored keys start s) (hd : S.Distinguishes start)
    (hstack : s.stack = p::stack) (hperm : ∀ l,(order l).Perm l)
    (hvisit : S.visit order p (s.found,stack) = .error e) : S.Meets start e := by
  have hp : p ∈ s.stack := by
    rw [hstack]
    exact mem_cons_self
  have hrch := h.top_reached hp
  unfold Traversal.visit at hvisit
  cases hit : S.items p with
  | error e' =>
    rw [hit] at hvisit
    cases hvisit
    exact .inl ⟨p,hrch,.inl hit⟩
  | ok items =>
    rw [hit] at hvisit
    have hld := leads_iff_wanted hit (hperm items)
    rcases addItems_error h.nodup (h.tellsApart hd hp fun q => (hld q).mpr) hvisit with
      ⟨i,hi,hfa⟩ | ⟨rfl,p',q,hp',hq,hkey,hne⟩
    · exact .inl ⟨p,hrch,.inr ⟨items,hit,i,(hperm items).mem_iff.mp hi,hfa⟩⟩
    refine .inr ⟨rfl,p,p',q,hrch,(hld q).mpr hq,?_,hkey,hne⟩
    exact hp'.imp (h.reached p') (hld p').mpr

/-- The traversal ends, whatever the orders: with all nodes, and no error to be met, or with one of
the errors it may meet. -/
theorem run_eq {order : Nat → List ι → List ι} (hd : S.Distinguishes start)
    (hkeys : ∀ p q,S.Leads p q → q.1 ∈ keys) (hperm : ∀ k l,(order k l).Perm l) {fuel : Nat}
    (hfuel : keys.length + 1 < fuel) : ∃ r,S.run order fuel start = some (.ok r) ∧
      (∀ found,r = .ok found → S.Finds start found) ∧ ∀ e,r = .error e → S.Meets start e := by
  have hbody : ∀ k s,(S.Explored keys start s ∧ k + s.found.length = s.stack.length + keys.length) →
      Ends (Rounds (fun k s => S.Explored keys start s ∧
        k + s.found.length = s.stack.length + keys.length)
        (fun r => (∀ found,r = .ok found → S.Finds start found) ∧
          ∀ e,r = .error e → S.Meets start e) k)
        (fun _ => False) (S.round order s) := by
    rintro k s ⟨hs,hk⟩
    unfold round
    split
    · rename_i hemp
      refine ⟨?_,fun e h => (by cases h)⟩
      intro found h
      cases h
      exact hs.finished hemp
    rename_i p stack hstack
    cases hvs : S.visit (order s.step) p (s.found,stack) with
    | error e =>
      refine ⟨fun found h => (by cases h),?_⟩
      intro e' h
      cases h
      exact hs.visit_error hd hstack (hperm s.step) hvs
    | ok s' =>
      obtain ⟨new,rfl,hs'⟩ := hs.visit hd hkeys hstack (hperm s.step) hvs
      have hle := hs'.length_le
      rw [hstack,length_cons] at hk
      simp only [length_append] at hle
      exact ⟨k - 1,by omega,hs',by simp only [length_append]; omega⟩
  have hsta : S.Explored keys start ⟨0,[],[start]⟩ ∧
      keys.length + 1 + 0 = [start].length + keys.length :=
    ⟨.initial S keys start,by simp; omega⟩
  have hso := loop_returns hbody hsta hfuel
  obtain ⟨x,hx⟩ := Option.isSome_iff_exists.mp hso
  have hend := loop_ends hbody hsta hx
  cases x with
  | error e => exact e.elim
  | ok r => exact ⟨r,hx,hend⟩

end

/-! Without a clash, each error that the traversal may meet ends it in some order. -/

variable {rest : List (κ × β)}

/-- A way from node to node without a detour: each of them leads to the next and to no later one. -/
def Direct (S : Traversal κ β ι ε) : κ × β → List (κ × β) → Prop
  | _,[] => True
  | p,q::rest => S.Through p q ∧ (∀ r ∈ rest,¬ S.Leads p r) ∧ S.Direct q rest

theorem Direct.shortcut (h : S.Direct q rest) (hp : ∃ r ∈ q::rest,S.Leads p r) :
    ∃ r rest',S.Direct r rest' ∧ rest'.getLastD r = rest.getLastD q ∧ S.Leads p r ∧
      ∀ t ∈ rest',¬ S.Leads p t := by
  induction rest generalizing q with
  | nil =>
    obtain ⟨r,hr,hld⟩ := hp
    rw [mem_singleton.mp hr] at hld
    exact ⟨q,[],trivial,rfl,hld,fun t ht => absurd ht not_mem_nil⟩
  | cons q' rest ih =>
    by_cases hla : ∃ r ∈ q'::rest,S.Leads p r
    · obtain ⟨r,rest',hdir,hls,hrs⟩ := ih h.2.2 hla
      exact ⟨r,rest',hdir,by rw [hls,getLastD_cons],hrs⟩
    obtain ⟨r,hr,hld⟩ := hp
    push Not at hla
    rcases mem_cons.mp hr with rfl | hr
    · exact ⟨r,q'::rest,h,rfl,hld,hla⟩
    · exact absurd hld (hla r hr)

theorem Reaches.direct {x : κ × β} (h : S.Reaches start x) :
    ∃ rest,S.Direct start rest ∧ rest.getLastD start = x := by
  induction h using ReflTransGen.head_induction_on with
  | refl => exact ⟨[],trivial,rfl⟩
  | head hst _ ih =>
    obtain ⟨rest,hdir,hls⟩ := ih
    obtain ⟨r,rest',hdir',hls',hld,hno⟩ := hdir.shortcut ⟨_,mem_cons_self,hst.2⟩
    refine ⟨r::rest',⟨⟨hst.1,hld⟩,hno,hdir'⟩,?_⟩
    rw [getLastD_cons,hls',hls]

variable [DecidableEq κ] {found stack : List (κ × β)} {keys : List κ} {s : State κ β} {fuel : Nat}

theorem addItems_append (items items' : List ι) (s : List (κ × β) × List (κ × β)) :
    S.addItems p (items ++ items') s = S.addItems p items s >>= S.addItems p items' := by
  induction items generalizing s with
  | nil => rfl
  | cons i items ih =>
    simp only [cons_append,addItems]
    cases S.addItem p s i with
    | error e => rfl
    | ok s₁ => exact ih s₁

theorem addItems_again {items : List ι} {s : List (κ × β) × List (κ × β)}
    (hitems : ∀ i ∈ items,S.examine p i = .ok (some q)) (hlook : s.1.lookup q.1 = some q.2)
    (hsame : S.same q.2 q.2 = true) : S.addItems p items s = .ok s := by
  induction items with
  | nil => rfl
  | cons i items ih =>
    have hone : S.addItem p s i = .ok s := by
      simp [addItem,add,hitems i mem_cons_self,hlook,hsame]
    unfold addItems
    rw [hone]
    exact ih fun j hj => hitems j (mem_cons_of_mem _ hj)

/-- A visit can be ordered such that a node it leads to is visited next. -/
theorem exists_visit (hd : S.Distinguishes start) (hone : ¬ S.Clashes start)
    (h : S.Explored keys start s) (hstack : s.stack = p::stack) (hpq : S.Through p q)
    (hq : q ∉ s.found) : ∃ order : List ι → List ι,(∀ l,(order l).Perm l) ∧ ∃ found' stack',
      S.visit order p (s.found,stack) = .ok (found',q::stack') ∧
      ∀ r ∈ found',r ∈ s.found ∨ S.Leads p r := by
  classical
  obtain ⟨⟨items,hit,hcn⟩,hld⟩ := hpq
  have hp : p ∈ s.stack := by
    rw [hstack]
    exact mem_cons_self
  let last (i : ι) : Bool := decide (S.examine p i = .ok (some q))
  -- the items that lead to the node come last
  let order (l : List ι) : List ι := l.filter (fun i => !last i) ++ l.filter last
  have hpm : ∀ l,(order l).Perm l := fun l => perm_append_comm.trans (filter_append_perm last l)
  have hleads := leads_iff_wanted hit (List.Perm.refl items)
  have hsub : ∀ r,S.Wanted p (items.filter fun i => !last i) r → S.Leads p r := by
    rintro r ⟨i,hi,hr⟩
    exact ⟨items,hit,i,(mem_filter.mp hi).1,hr⟩
  have htells := h.tellsApart hd hp hsub
  refine ⟨order,hpm,?_⟩
  cases hfst : S.addItems p (items.filter fun i => !last i) (s.found,stack) with
  | error e =>
    exfalso
    rcases addItems_error h.nodup htells hfst with ⟨i,hi,hfa⟩ | ⟨_,p',r,hp',hr,hkey,hne⟩
    · obtain ⟨r,hr⟩ := hcn i (mem_filter.mp hi).1
      simp [hr] at hfa
    have hp' := hp'.imp (h.reached p') (hsub p')
    exact hone ⟨p,p',r,h.top_reached hp,hsub r hr,hp',hkey,hne⟩
  | ok s₁ =>
    obtain ⟨_,new,rfl,_,hfm,_⟩ := addItems_ok h.nodup htells hfst
    have hfd : ∀ r ∈ new ++ s.found,r ∈ s.found ∨ S.Leads p r := by
      intro r hr
      rcases mem_append.mp hr with hr | hr
      · exact .inr (hsub r (hfm r hr))
      · exact .inl hr
    have hqnew : q ∉ new ++ s.found := by
      intro hmem
      rcases mem_append.mp hmem with hmem | hmem
      · obtain ⟨i,hi,heq⟩ := hfm q hmem
        have := (mem_filter.mp hi).2
        simp [last,heq] at this
      · exact hq hmem
    have hlk : (new ++ s.found).lookup q.1 = none := by
      cases hlk : (new ++ s.found).lookup q.1 with
      | none => rfl
      | some b =>
        have hmem := mem_of_lookup hlk
        by_cases hb : b = q.2
        · rw [hb] at hmem
          exact absurd hmem hqnew
        exfalso
        have hmem := (hfd _ hmem).imp_left (h.reached _)
        exact hone ⟨p,(q.1,b),q,h.top_reached hp,hld,hmem,rfl,hb⟩
    have hsm := (hd p q q (h.top_reached hp) hld (.inr hld) rfl).mpr rfl
    have hls : ∃ i later,items.filter last = i::later := by
      obtain ⟨i,hi,heq⟩ := (hleads q).mp hld
      have hmem : i ∈ items.filter last := mem_filter.mpr ⟨hi,by simp [last,heq]⟩
      cases hl : items.filter last with
      | nil =>
        rw [hl] at hmem
        exact absurd hmem not_mem_nil
      | cons j later => exact ⟨j,later,rfl⟩
    obtain ⟨i,later,hls⟩ := hls
    have hto : ∀ j ∈ i::later,S.examine p j = .ok (some q) := by
      intro j hj
      rw [← hls] at hj
      exact of_decide_eq_true (mem_filter.mp hj).2
    refine ⟨q::(new ++ s.found),new ++ stack,?_,?_⟩
    · have hnx : S.addItem p (new ++ s.found,new ++ stack) i
          = .ok (q::(new ++ s.found),q::(new ++ stack)) := by
        simp [addItem,add,hto i mem_cons_self,hlk]
      have hagain : S.addItems p later (q::(new ++ s.found),q::(new ++ stack))
          = .ok (q::(new ++ s.found),q::(new ++ stack)) :=
        addItems_again (fun j hj => hto j (mem_cons_of_mem _ hj)) lookup_cons_self hsm
      unfold Traversal.visit
      rw [hit]
      change S.addItems p (items.filter (fun i => !last i) ++ items.filter last) _ = _
      rw [addItems_append,hfst,hls]
      change S.addItems p (i::later) (new ++ s.found,new ++ stack) = _
      unfold addItems
      rw [hnx]
      exact hagain
    · intro r hr
      rcases mem_cons.mp hr with rfl | hr
      · exact .inr hld
      · exact hfd r hr

/-- A visit to a faulty node can be ordered such that it ends with the error. -/
theorem Faulty.exists_visit (h : S.Faulty p e) :
    ∃ order : List ι → List ι,(∀ l,(order l).Perm l) ∧ ∀ s,S.visit order p s = .error e := by
  classical
  rcases h with hfa | ⟨items,hit,i,hi,hfa⟩
  · refine ⟨id,fun l => .refl l,fun s => ?_⟩
    unfold Traversal.visit
    simp [hfa]
  let first (i : ι) : Bool := decide (S.examine p i = .error e)
  refine ⟨fun l => l.filter first ++ l.filter (fun i => !first i),
    fun l => filter_append_perm first l,fun s => ?_⟩
  have hmem : i ∈ items.filter first := mem_filter.mpr ⟨hi,by simp [first,hfa]⟩
  unfold Traversal.visit
  rw [hit]
  change S.addItems p (items.filter first ++ items.filter fun i => !first i) s = _
  cases hl : items.filter first with
  | nil =>
    rw [hl] at hmem
    exact absurd hmem not_mem_nil
  | cons j later =>
    have hj : S.examine p j = .error e := by
      have : j ∈ items.filter first := by
        rw [hl]
        exact mem_cons_self
      exact of_decide_eq_true (mem_filter.mp this).2
    unfold addItems
    simp [addItem,hj]

theorem loop_congr {order order' : Nat → List ι → List ι}
    (h : ∀ k,s.step ≤ k → order k = order' k) :
    loop (S.round order) fuel s = loop (S.round order') fuel s := by
  induction fuel generalizing s with
  | zero => rfl
  | succ fuel ih =>
    simp only [loop,round]
    rw [h s.step (Nat.le_refl _)]
    cases s.stack with
    | nil => rfl
    | cons p stack =>
      simp only
      cases S.visit (order' s.step) p (s.found,stack) with
      | error e => rfl
      | ok s' => exact ih fun k hk => h k (Nat.le_of_succ_le hk)

theorem Direct.exists_order (hd : S.Distinguishes start) (hone : ¬ S.Clashes start)
    (hkeys : ∀ p q,S.Leads p q → q.1 ∈ keys) (hdirect : S.Direct p rest)
    (h : S.Explored keys start s) (hstack : s.stack = p::stack)
    (hfresh : ∀ q ∈ rest,q ∉ s.found) (hfaulty : S.Faulty (rest.getLastD p) e) :
    ∃ order : Nat → List ι → List ι,(∀ k l,(order k l).Perm l) ∧
      ∃ fuel,loop (S.round order) fuel s = some (.ok (.error e)) := by
  induction rest generalizing p s stack with
  | nil =>
    obtain ⟨order,hpm,hvs⟩ := @Faulty.exists_visit _ _ _ _ S p e _ hfaulty
    refine ⟨fun _ => order,fun _ => hpm,1,?_⟩
    simp [loop,round,hstack,hvs]
  | cons q rest ih =>
    obtain ⟨hpq,hno,hrs⟩ := hdirect
    obtain ⟨order₁,hpm₁,found',stack',hvs,hfm⟩ :=
      exists_visit hd hone h hstack hpq (hfresh q mem_cons_self)
    obtain ⟨_,_,hs'⟩ := h.visit hd hkeys hstack hpm₁ hvs
    rw [getLastD_cons] at hfaulty
    obtain ⟨order₂,hpm₂,fuel,hlp⟩ := @ih q stack' ⟨s.step + 1,found',q::stack'⟩ hrs hs' rfl
      (by
        intro r hr hmem
        rcases hfm r hmem with hmem | hmem
        · exact hfresh r (mem_cons_of_mem _ hr) hmem
        · exact hno r hr hmem) hfaulty
    refine ⟨fun k => if k = s.step then order₁ else order₂ k,?_,fuel + 1,?_⟩
    · intro k l
      dsimp only
      split
      · exact hpm₁ l
      · exact hpm₂ k l
    simp only [loop,round,hstack,↓reduceIte,hvs]
    rw [← hlp]
    apply loop_congr
    intro k hk
    rw [if_neg (Nat.ne_of_gt hk)]

/-- Each error that may be met is the one that ends the traversal in some order. -/
theorem Meets.exists_order (hd : S.Distinguishes start) (hone : ¬ S.Clashes start)
    (hkeys : ∀ p q,S.Leads p q → q.1 ∈ keys) (hfuel : keys.length + 1 < fuel)
    (h : S.Meets start e) : ∃ order : Nat → List ι → List ι,(∀ k l,(order k l).Perm l) ∧
      S.run order fuel start = some (.ok (.error e)) := by
  rcases h with ⟨x,hx,hfaulty⟩ | ⟨_,hclash⟩
  · obtain ⟨rest,hdir,hls⟩ := hx.direct
    rw [← hls] at hfaulty
    obtain ⟨order,hpm,fuel',hlp⟩ := hdir.exists_order hd hone hkeys
      (.initial S keys start) rfl (fun q _ => not_mem_nil) hfaulty
    obtain ⟨r,hrun,_⟩ := run_eq hd hkeys hpm hfuel
    refine ⟨order,hpm,?_⟩
    rw [hrun,loop_agree hrun hlp]
  · exact absurd hclash hone

end Traversal

end OpStack.Lib
