import Mathlib.Data.Set.Function
import Mathlib.Order.Bounds.Basic

namespace OpStack.Lib
variable {ι : Type}

/-- A set grows by one element after the other, always the first one outside it that fails. -/
inductive Greedy (fails : Set ι → ι → Prop) (pos : ι → Nat) : Set ι → Set ι → Prop where
  | done {R : Set ι} : (∀ c,c ∉ R → ¬ fails R c) → Greedy fails pos R R
  | step {R S : Set ι} {x : ι} : x ∉ R → fails R x →
      (∀ y,pos y < pos x → y ∉ R → ¬ fails R y) →
      Greedy fails pos (insert x R) S → Greedy fails pos R S

/-- What passes keeps passing when others, which fail, are added, and a set outside which everything
passes is consistent: within `bound`, outside which nothing fails. -/
structure Stable (fails : Set ι → ι → Prop) (Consistent : Set ι → Prop) (bound : Set ι) : Prop where
  bounded : ∀ {R c},R ⊆ bound → fails R c → c ∈ bound
  stable : ∀ {R S c},R ⊆ S → S ⊆ bound → (∀ x ∈ S,x ∉ R → fails R x) → c ∉ S →
    ¬ fails R c → ¬ fails S c
  consistent : ∀ {R},R ⊆ bound → (∀ c,c ∉ R → ¬ fails R c) → Consistent R

variable {fails : Set ι → ι → Prop} {pos : ι → Nat} {Consistent : Set ι → Prop}
  {bound R R₀ S : Set ι}

theorem Greedy.subset (h : Greedy fails pos R S) : R ⊆ S := by
  induction h with
  | done _ => exact subset_rfl
  | step _ _ _ _ ih => exact (Set.subset_insert _ _).trans ih

theorem Greedy.passes (h : Greedy fails pos R S) : ∀ c,c ∉ S → ¬ fails S c := by
  induction h with
  | done hall => exact hall
  | step _ _ _ _ ih => exact ih

variable (h : Stable fails Consistent bound) (hleast : IsLeast {R | Consistent R} R₀)

include h hleast

theorem Stable.least_subset : R₀ ⊆ bound := by
  apply hleast.2
  refine h.consistent subset_rfl ?_
  intro c hc hfl
  exact hc (h.bounded subset_rfl hfl)

/-- Everything in the least consistent set fails until it is added: with all that fails, a smaller
set would be consistent too. -/
theorem Stable.fails_of_least (hR : R ⊆ R₀) {x : ι} (hx : x ∈ R₀) (hnot : x ∉ R) : fails R x := by
  have hbd := hR.trans (h.least_subset hleast)
  have hS : R ∪ {c | c ∉ R ∧ fails R c} ⊆ bound := by
    apply Set.union_subset hbd
    intro c hc
    exact h.bounded hbd hc.2
  have hcs : Consistent (R ∪ {c | c ∉ R ∧ fails R c}) := by
    refine h.consistent hS ?_
    intro c hc
    have hout := not_or.mp hc
    refine h.stable Set.subset_union_left hS ?_ hc ?_
    · intro y hy hyR
      exact (hy.resolve_left hyR).2
    · intro hfl
      exact hout.2 ⟨hout.1,hfl⟩
  exact ((hleast.2 hcs hx).resolve_left hnot).2

/-- While no other element comes first, only elements of the least set are added. -/
theorem Greedy.eq_least (hrun : Greedy fails pos R S) (hR : R ⊆ R₀)
    (hfirst : ∀ c,c ∉ R₀ → ¬ fails {x | x ∈ R₀ ∧ pos x < pos c} c) : S = R₀ := by
  have hbd := h.least_subset hleast
  induction hrun with
  | done hall => exact hR.antisymm (hleast.2 (h.consistent (hR.trans hbd) hall))
  | @step R S x hx hfl hbef _ ih =>
    apply ih
    refine Set.insert_subset ?_ hR
    by_contra hx₀
    -- what comes before `x` has been added, and what has been added besides fails without it
    have hsub : {y | y ∈ R₀ ∧ pos y < pos x} ⊆ R := by
      intro y hy
      by_contra hyR
      exact hbef y hy.2 hyR (h.fails_of_least hleast hR hy.1 hyR)
    refine h.stable hsub (hR.trans hbd) ?_ hx (hfirst x hx₀) hfl
    intro z hz hzB
    exact h.fails_of_least hleast (fun y hy => hy.1) (hR hz) hzB

/-- As long as an element that fails after its predecessors is not added, only these are. -/
theorem Greedy.subset_before (hpos : ∀ {Q Q' x c},fails Q x → fails Q' c → pos x = pos c → x = c)
    (hrun : Greedy fails pos R R₀) {c : ι} (hc : c ∉ R₀)
    (hfails : fails {x | x ∈ R₀ ∧ pos x < pos c} c)
    (hR : R ⊆ {x | x ∈ R₀ ∧ pos x < pos c}) : R₀ ⊆ {x | x ∈ R₀ ∧ pos x < pos c} := by
  generalize hS : R₀ = S at hrun
  induction hrun with
  | done _ =>
    subst hS
    exact hR
  | @step R S x hx hxfails hbef hrs ih =>
    subst hS
    have hx₀ := hrs.subset (Set.mem_insert x R)
    refine ih (Set.insert_subset ⟨hx₀,?_⟩ hR) rfl
    by_contra hlt
    have hcx : pos c < pos x := by
      rcases Nat.lt_or_eq_of_le (Nat.not_lt.mp hlt) with hlt | heq
      · exact hlt
      · rw [hpos hxfails hfails heq.symm] at hx₀
        exact absurd hx₀ hc
    have hcR : c ∉ R := fun hcR => hc (hR hcR).1
    have hR₀ : R ⊆ R₀ := fun y hy => (hR hy).1
    have heq : R = {y | y ∈ R₀ ∧ pos y < pos c} := by
      refine hR.antisymm ?_
      intro y hy
      by_contra hyR
      exact hbef y (hy.2.trans hcx) hyR (h.fails_of_least hleast hR₀ hy.1 hyR)
    rw [← heq] at hfails
    exact hbef c hcx hcR hfails

omit hleast in
/-- The least consistent set is reached iff each element outside it passes with those of its
elements that come earlier. -/
theorem Greedy.least_iff (hpos : ∀ {Q Q' x c},fails Q x → fails Q' c → pos x = pos c → x = c)
    (hrun : Greedy fails pos ∅ S) : IsLeast {R | Consistent R} S ↔
      ∃ R₀,IsLeast {R | Consistent R} R₀ ∧ ∀ c,c ∉ R₀ → ¬ fails {x | x ∈ R₀ ∧ pos x < pos c} c := by
  constructor
  · intro hleast
    refine ⟨S,hleast,?_⟩
    intro c hc hfl
    have hsub := Greedy.subset_before h hleast hpos hrun hc hfl (Set.empty_subset _)
    have heq := Set.Subset.antisymm (fun x hx => hx.1) hsub
    rw [heq] at hfl
    exact hrun.passes c hc hfl
  · rintro ⟨R₀,hleast,hfst⟩
    rw [Greedy.eq_least h hleast hrun (Set.empty_subset _) hfst]
    exact hleast

end OpStack.Lib
