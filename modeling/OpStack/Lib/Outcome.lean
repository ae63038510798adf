import Mathlib.Logic.Basic
import Mathlib.Logic.Relation

namespace OpStack.Lib

/-- A computation that ends meets `Q`, and one that crashes crashes in a way that `E` allows. -/
def Ends {ε α : Type} (Q : α → Prop) (E : ε → Prop) : Except ε α → Prop
  | .ok a => Q a
  | .error e => E e

namespace Ends
variable {ε α β : Type} {P Q : α → Prop} {R : β → Prop} {E : ε → Prop} {a : α} {e : ε}
  {x : Except ε α}

theorem ok (h : Q a) : Ends Q E (.ok a) := h

theorem error (h : E e) : Ends Q E (.error e : Except ε α) := h

theorem guard {c : Prop} [Decidable c] (he : E e) (h : ¬ c → Ends Q E x) :
    Ends Q E (if c then .error e else x) := by
  split
  · exact he
  · exact h ‹_›

theorem bind {f : α → Except ε β} (hx : Ends Q E x)
    (hf : ∀ a,Q a → Ends R E (f a)) : Ends R E (x >>= f) := by
  cases x with
  | error e => exact hx
  | ok a => exact hf a hx

theorem mono (hx : Ends P E x) (h : ∀ a,P a → Q a) : Ends Q E x := by
  cases x with
  | error e => exact hx
  | ok a => exact h a hx

theorem of_eq (hx : Ends Q E x) (h : x = .ok a) : Q a := by
  rw [h] at hx
  exact hx

theorem of_forall (h : ∀ a,x = .ok a → Q a) : Ends Q (fun _ => True) x := by
  cases x with
  | error e => trivial
  | ok a => exact h a rfl

theorem any (x : Except ε α) : Ends (fun _ => True) (fun _ => True) x := by
  cases x with
  | error e => trivial
  | ok a => trivial

theorem not_error (hx : Ends Q E x) (he : ¬ E e) : x ≠ .error e := by
  intro h
  rw [h] at hx
  exact he hx

end Ends

def orFail {ε α : Type} (e : ε) : Option α → Except ε α
  | some a => .ok a
  | none => .error e

@[simp] theorem orFail_some {ε α : Type} (e : ε) (a : α) : orFail e (some a) = .ok a := rfl

variable {a : α} {f : α → Except ε β} {x : Except ε α}

@[simp] theorem ok_bind : .ok a >>= f = f a := rfl

@[simp] theorem error_bind {e : ε} : .error e >>= f = .error e := rfl

@[simp] theorem pure_eq_ok : (pure a : Except ε α) = .ok a := rfl

theorem bind_ok_iff {b : β} : x >>= f = .ok b ↔ ∃ a,x = .ok a ∧ f a = .ok b := by
  cases x with
  | error e => simp
  | ok a => simp

alias ⟨of_bind_ok,_⟩ := bind_ok_iff

theorem unless_ok_iff {c : Prop} [Decidable c] {e : ε} :
    (if c then .error e else x) = .ok a ↔ ¬ c ∧ x = .ok a := by
  split <;> simp [*]

theorem of_orFail_ok {e : ε} {x : Option α} (h : orFail e x = .ok a) : x = some a := by
  cases x with
  | none => cases h
  | some b =>
    cases h
    rfl

theorem of_mapError_ok {δ : Type} {g : ε → δ} (h : x.mapError g = .ok a) : x = .ok a := by
  cases x with
  | error e => cases h
  | ok b =>
    cases h
    rfl

theorem eq_ok_of_toOption (h : x.toOption = some a) : x = .ok a := by
  cases x with
  | error e => cases h
  | ok b =>
    cases h
    rfl

def inTurn {ε α : Type} (f : α → Except ε Unit) : List α → Except ε Unit
  | [] => .ok ()
  | a::l => f a >>= fun _ => inTurn f l

theorem inTurn_ok_iff {ε α : Type} {f : α → Except ε Unit} {l : List α} :
    inTurn f l = .ok () ↔ ∀ a ∈ l,f a = .ok () := by
  induction l with
  | nil => simp [inTurn]
  | cons a l ih =>
    simp only [inTurn,List.mem_cons,forall_eq_or_imp,← ih]
    cases f a with
    | error e => simp
    | ok u => simp

theorem inTurn_error {ε α : Type} {f : α → Except ε Unit} {l : List α} {e : ε}
    (h : inTurn f l = .error e) : ∃ a ∈ l,f a = .error e := by
  induction l with
  | nil => cases h
  | cons a l ih =>
    unfold inTurn at h
    cases ha : f a with
    | error e' =>
      rw [ha] at h
      cases h
      exact ⟨a,List.mem_cons_self,ha⟩
    | ok u =>
      rw [ha] at h
      obtain ⟨b,hb,hfa⟩ := ih h
      exact ⟨b,List.mem_cons_of_mem _ hb,hfa⟩

variable {σ α ε ο : Type} {step : σ → σ → Prop} {exec : σ → ο → Except ε σ} {ops : List ο} {s : σ}

abbrev Reaches (step : σ → σ → Prop) : σ → σ → Prop := Relation.ReflTransGen step

theorem Reaches.invariant {P : σ → Prop} {a b : σ}
    (h : Reaches step a b) (ha : P a) (hstep : ∀ x y,P x → step x y → P y) : P b := by
  induction h with
  | refl => exact ha
  | tail _ hs ih => exact hstep _ _ ih hs

def runOps (exec : σ → ο → Except ε σ) (s : σ) : List ο → Except ε σ
  | [] => .ok s
  | op::ops => do
    let s ← exec s op
    runOps exec s ops

theorem runOps_reaches {s' : σ} (hstep : ∀ x y,∀ op ∈ ops,exec x op = .ok y → step x y)
    (h : runOps exec s ops = .ok s') : Reaches step s s' := by
  induction ops generalizing s with
  | nil =>
    cases h
    exact .refl
  | cons op ops ih =>
    obtain ⟨s1,hop,h⟩ := of_bind_ok h
    have hrs := ih (fun x y op' h' => hstep x y op' (List.mem_cons_of_mem _ h')) h
    exact .head (hstep s s1 op List.mem_cons_self hop) hrs

theorem runOps_observe {f : σ → α} {a : α} (hstep : ∀ x y,∀ op ∈ ops,exec x op = .ok y → step x y)
    (h : (runOps exec s ops).toOption.map f = some a) : ∃ s',Reaches step s s' ∧ f s' = a := by
  obtain ⟨s',hr,ha⟩ := Option.map_eq_some_iff.mp h
  exact ⟨s',runOps_reaches hstep (eq_ok_of_toOption hr),ha⟩

variable {σ ρ ε : Type} {body : σ → Except ε (σ ⊕ ρ)} {s : σ}

/-- A loop whose body goes on with a new state, ends with a result or fails. It has no result when
the fuel runs out. -/
def loop (body : σ → Except ε (σ ⊕ ρ)) : Nat → σ → Option (Except ε ρ)
  | 0,_ => none
  | fuel+1,s =>
    match body s with
    | .error e => some (.error e)
    | .ok (.inr r) => some (.ok r)
    | .ok (.inl s') => loop body fuel s'

/-- What one round of a loop leaves: the invariant, or the end. -/
def Keeps (J : σ → Prop) (Q : ρ → Prop) : σ ⊕ ρ → Prop
  | .inl s => J s
  | .inr r => Q r

/-- What one round of a loop leaves: the invariant at a smaller measure, or the end. -/
def Rounds (I : Nat → σ → Prop) (Q : ρ → Prop) (k : Nat) : σ ⊕ ρ → Prop
  | .inl s => ∃ k' < k,I k' s
  | .inr r => Q r

variable {I : Nat → σ → Prop} {J : σ → Prop} {Q : ρ → Prop} {E : ε → Prop} {fuel k : Nat}
  {x : Except ε ρ}

/-- The invariant rule: whatever the loop returns, it ends as its body does. -/
theorem loop_keeps (hbody : ∀ s,J s → Ends (Keeps J Q) E (body s)) (hs : J s)
    (h : loop body fuel s = some x) : Ends Q E x := by
  induction fuel generalizing s with
  | zero => cases h
  | succ fuel ih =>
    have hrn := hbody s hs
    unfold loop at h
    split at h
    · rename_i e he
      cases h
      rwa [he] at hrn
    · rename_i r hr
      cases h
      rwa [hr] at hrn
    rename_i s' hs'
    rw [hs'] at hrn
    exact ih hrn h

theorem loop_ends (hbody : ∀ k s,I k s → Ends (Rounds I Q k) E (body s)) (hs : I k s)
    (h : loop body fuel s = some x) : Ends Q E x := by
  refine loop_keeps (J := fun s => ∃ k,I k s) ?_ ⟨k,hs⟩ h
  rintro s ⟨k,hs⟩
  refine (hbody k s hs).mono ?_
  intro x hx
  cases x with
  | inl s' =>
    obtain ⟨k',-,hs'⟩ := hx
    exact ⟨k',hs'⟩
  | inr r => exact hx

theorem loop_returns (hbody : ∀ k s,I k s → Ends (Rounds I Q k) E (body s)) (hs : I k s)
    (hfuel : k < fuel) : (loop body fuel s).isSome = true := by
  induction fuel generalizing k s with
  | zero => omega
  | succ fuel ih =>
    have hrn := hbody k s hs
    unfold loop
    split
    · rfl
    · rfl
    rename_i s' hs'
    rw [hs'] at hrn
    obtain ⟨k',hk,hI⟩ := hrn
    exact ih hI (by omega)

theorem loop_agree {fuel fuel' : Nat} {x y : Except ε ρ}
    (h : loop body fuel s = some x) (h' : loop body fuel' s = some y) : x = y := by
  induction fuel generalizing s fuel' with
  | zero => cases h
  | succ fuel ih =>
    cases fuel' with
    | zero => cases h'
    | succ fuel' =>
      unfold loop at h h'
      split at h
      · rename_i hbody
        rw [hbody] at h'
        cases h
        cases h'
        rfl
      · rename_i hbody
        rw [hbody] at h'
        cases h
        cases h'
        rfl
      · rename_i hbody
        rw [hbody] at h'
        exact ih h h'

/-- A loop that can always go on from an invariant does not return, whatever the fuel. -/
theorem loop_diverges {I : σ → Prop}
    (hbody : ∀ s,I s → ∃ s',body s = .ok (.inl s') ∧ I s') (hs : I s) (fuel : Nat) :
    loop body fuel s = none := by
  induction fuel generalizing s with
  | zero => rfl
  | succ fuel ih =>
    obtain ⟨s',hrn,hI⟩ := hbody s hs
    unfold loop
    rw [hrn]
    exact ih hI

/-- A computation that asks questions of its surroundings and goes on with the answers. -/
inductive Dialogue (Q : Type) (R : Q → Type) (α : Type) where
  | done (a : α)
  | ask (q : Q) (next : R q → Dialogue Q R α)

namespace Dialogue
variable {Q : Type} {R : Q → Type} {α β ε : Type}

def bind : Dialogue Q R α → (α → Dialogue Q R β) → Dialogue Q R β
  | .done a,f => f a
  | .ask q next,f => .ask q fun r => (next r).bind f

instance : Monad (Dialogue Q R) where
  pure := .done
  bind := bind

def eval (answer : (q : Q) → R q) : Dialogue Q R α → α
  | .done a => a
  | .ask q next => (next (answer q)).eval answer

theorem eval_bind (answer : (q : Q) → R q) (x : Dialogue Q R α) (f : α → Dialogue Q R β) :
    (x.bind f).eval answer = (f (x.eval answer)).eval answer := by
  induction x with
  | done a => rfl
  | ask q next ih => exact ih (answer q)

def cost (price : Q → Nat) (answer : (q : Q) → R q) : Dialogue Q R α → Nat
  | .done _ => 0
  | .ask q next => price q + (next (answer q)).cost price answer

theorem cost_bind (price : Q → Nat) (answer : (q : Q) → R q) (x : Dialogue Q R α)
    (f : α → Dialogue Q R β) : (x.bind f).cost price answer =
      x.cost price answer + (f (x.eval answer)).cost price answer := by
  induction x with
  | done a => exact (Nat.zero_add _).symm
  | ask q next ih => exact (congrArg (price q + ·) (ih (answer q))).trans (Nat.add_assoc ..).symm

/-- A dialogue with surroundings that change: what was asked and answered, and the result. -/
def play {σ : Type} (answer : (q : Q) → σ → R q × σ) :
    Dialogue Q R α → σ → List ((q : Q) × R q) × α × σ
  | .done a,s => ([],a,s)
  | .ask q next,s =>
    let r := answer q s
    let rest := (next r.1).play answer r.2
    (⟨q,r.1⟩ :: rest.1,rest.2)

theorem play_bind {σ : Type} (answer : (q : Q) → σ → R q × σ) (x : Dialogue Q R α)
    (f : α → Dialogue Q R β) (s : σ) : (x >>= f).play answer s =
      ((x.play answer s).1 ++ ((f (x.play answer s).2.1).play answer (x.play answer s).2.2).1,
        ((f (x.play answer s).2.1).play answer (x.play answer s).2.2).2) := by
  induction x generalizing s with
  | done a => rfl
  | ask q next ih =>
    change (Dialogue.ask q fun r => next r >>= f).play answer s = _
    simp [play,ih]

def Throughout {σ : Type} (answer : (q : Q) → σ → R q × σ) (P : (q : Q) × R q → Prop)
    (x : Dialogue Q R α) : Prop :=
  ∀ s,∀ step ∈ (x.play answer s).1,P step

variable {σ : Type} {answer : (q : Q) → σ → R q × σ} {P : (q : Q) × R q → Prop}

theorem Throughout.pure (a : α) : Throughout answer P (.done a) := fun _ _ => nofun

theorem Throughout.ask {q : Q} {next : R q → Dialogue Q R α} (h : ∀ r,P ⟨q,r⟩)
    (hnext : ∀ r,Throughout answer P (next r)) : Throughout answer P (.ask q next) := by
  intro s
  simpa [play] using ⟨h _,hnext _ _⟩

theorem Throughout.bind {x : Dialogue Q R α} {f : α → Dialogue Q R β}
    (hx : Throughout answer P x) (hf : ∀ a,Throughout answer P (f a)) :
    Throughout answer P (x >>= f) := by
  intro s step hst
  rw [play_bind] at hst
  exact (List.mem_append.mp hst).elim (hx s step) (hf _ _ step)

end Dialogue

abbrev Inquiry (Q : Type) (R : Q → Type) (ε : Type) := ExceptT ε (Dialogue Q R)

namespace Inquiry
variable {Q : Type} {R : Q → Type} {α β ε : Type} (answer : (q : Q) → R q)

def eval (x : Inquiry Q R ε α) : Except ε α := Dialogue.eval answer x.run

@[simp] theorem eval_pure (a : α) : eval answer (pure a : Inquiry Q R ε α) = .ok a := rfl

@[simp] theorem eval_throw (e : ε) : eval answer (throw e : Inquiry Q R ε α) = .error e := rfl

@[simp] theorem eval_mk (x : Dialogue Q R (Except ε α)) :
    eval answer (ExceptT.mk x) = x.eval answer := rfl

@[simp] theorem eval_bind (x : Inquiry Q R ε α) (f : α → Inquiry Q R ε β) :
    eval answer (x >>= f) = eval answer x >>= fun a => eval answer (f a) := by
  refine (Dialogue.eval_bind answer x.run _).trans ?_
  unfold eval
  cases Dialogue.eval answer x.run with
  | error e => rfl
  | ok a => rfl

@[simp] theorem eval_ite (c : Prop) [Decidable c] (x y : Inquiry Q R ε α) :
    eval answer (if c then x else y) = if c then eval answer x else eval answer y := by
  split <;> rfl

end Inquiry

end OpStack.Lib
