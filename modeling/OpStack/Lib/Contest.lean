import Mathlib.Order.WellFounded

namespace OpStack.Lib

/-- A contest of claims: a claim falls when it is struck down, or when an answer to it stands.
Every line of answers ends. -/
structure Contest (α : Type) where
  answers : α → α → Prop
  wf : WellFounded answers
  struck : α → Prop
  falls : α → Prop
  falls_iff : ∀ a,falls a ↔ struck a ∨ ∃ b,answers b a ∧ ¬falls b

/-- A side of a contest that has everything covered. -/
structure Contest.Strategy {α : Type} (c : Contest α) where
  defended : α → Prop
  attacked : α → Prop
  unstruck : ∀ {a : α},defended a → ¬c.struck a
  watched : ∀ {a b : α},defended a → c.answers b a → attacked b
  answered : ∀ {a : α},attacked a → c.struck a ∨ ∃ b,c.answers b a ∧ defended b

namespace Contest.Strategy
variable {α : Type} {c : Contest α} (s : c.Strategy)
include s

theorem outcome (a : α) : (s.defended a → ¬c.falls a) ∧ (s.attacked a → c.falls a) := by
  induction a using c.wf.induction with
  | _ a ih =>
    constructor
    · intro hd hfalls
      obtain hstruck | ⟨b,hb,hstd⟩ := (c.falls_iff a).mp hfalls
      · exact s.unstruck hd hstruck
      · exact hstd ((ih b hb).2 (s.watched hd hb))
    intro ha
    obtain hstruck | ⟨b,hb,hd⟩ := s.answered ha
    · exact (c.falls_iff a).mpr (.inl hstruck)
    · exact (c.falls_iff a).mpr (.inr ⟨b,hb,(ih b hb).1 hd⟩)

theorem stands {a : α} (h : s.defended a) : ¬c.falls a := (s.outcome a).1 h

theorem falls {a : α} (h : s.attacked a) : c.falls a := (s.outcome a).2 h

end Contest.Strategy

end OpStack.Lib
