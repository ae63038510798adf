import Mathlib.Data.List.Basic
import Mathlib.Data.List.Nodup
import Mathlib.Data.List.Chain
import Mathlib.Data.List.Lemmas

namespace OpStack.Lib
open List
variable {κ β : Type} [DecidableEq κ] {l : List (κ × β)} {k : κ} {b : β}

/-! Maps as lists of their entries. -/

theorem mem_of_lookup (h : l.lookup k = some b) : (k,b) ∈ l := by
  obtain ⟨l₁,l₂,rfl,_⟩ := lookup_eq_some_iff.mp h
  exact mem_append_right _ mem_cons_self

theorem lookup_eq_none : l.lookup k = none ↔ k ∉ l.map Prod.fst := by
  rw [lookup_eq_none_iff]
  simp only [bne_iff_ne,mem_map,not_exists,not_and]
  constructor
  · intro h p hp heq
    exact h p hp heq.symm
  · intro h p hp heq
    exact h p hp heq.symm

theorem lookup_of_mem (hnodup : (l.map Prod.fst).Nodup) (h : (k,b) ∈ l) : l.lookup k = some b := by
  cases hlk : l.lookup k with
  | none =>
    rw [lookup_eq_none] at hlk
    exact absurd (mem_map_of_mem h) hlk
  | some b' =>
    have heq := inj_on_of_nodup_map hnodup (mem_of_lookup hlk) h rfl
    cases heq
    rfl

def assign (l : List (κ × β)) (k : κ) (b : β) : List (κ × β) :=
  l.filter (fun e => e.1 ≠ k) ++ [(k,b)]

theorem assign_nodup (h : (l.map Prod.fst).Nodup) : ((assign l k b).map Prod.fst).Nodup := by
  unfold assign
  rw [map_append,nodup_append]
  refine ⟨h.sublist (filter_sublist.map _),nodup_singleton _,?_⟩
  intro a ha c hc heq
  obtain ⟨e,he,rfl⟩ := mem_map.mp ha
  rw [mem_filter,decide_eq_true_eq] at he
  exact he.2 (heq.trans (mem_singleton.mp hc))

variable {α : Type} {l : List α} {x y : α} {i k n : Nat}

theorem mem_drop_getElem (hlen : i < l.length) (hk : k ≤ i) : l[i] ∈ l.drop k := by
  refine mem_iff_getElem?.mpr ⟨i - k,?_⟩
  rw [getElem?_drop,Nat.add_sub_cancel' hk,getElem?_eq_getElem hlen]

theorem lt_of_getElem? (hx : l[i]? = some x) : i < l.length :=
  (List.getElem?_eq_some_iff.mp hx).1

theorem of_drop_eq_cons {rest : List α} (h : l.drop i = x::rest) :
    l[i]? = some x ∧ l.drop (i + 1) = rest := by
  rw [← head?_drop,← tail_drop,h]
  exact ⟨rfl,rfl⟩

theorem take_eq_append_cons (hx : l[i]? = some x) (hi : i < n) :
    ∃ rest,l.take n = l.take i ++ x::rest := by
  obtain ⟨hlen,rfl⟩ := List.getElem?_eq_some_iff.mp hx
  refine ⟨(l.drop (i + 1)).take (n - i - 1),?_⟩
  obtain ⟨m,rfl⟩ : ∃ m,n = i + (m + 1) := ⟨n - i - 1,by omega⟩
  rw [take_add,drop_eq_getElem_cons hlen,take_succ_cons]
  have hm : i + (m + 1) - i - 1 = m := by omega
  rw [hm]

theorem getElem?_concat_cases (h : (l ++ [x])[i]? = some y) :
    l[i]? = some y ∨ i = l.length ∧ y = x := by
  rcases Nat.lt_or_ge i l.length with hlt | hge
  · rw [getElem?_append_left hlt] at h
    exact .inl h
  rw [getElem?_append_right hge] at h
  obtain ⟨hlen,hget⟩ := List.getElem?_eq_some_iff.mp h
  rw [length_singleton] at hlen
  rw [getElem_singleton] at hget
  exact .inr ⟨by omega,hget.symm⟩

theorem getElem?_append_of_some {r : List α} (h : l[i]? = some x) : (l ++ r)[i]? = some x := by
  rw [List.getElem?_append_left (lt_of_getElem? h)]
  exact h

theorem map_modify_eq {β : Type} {f : α → α} {g : α → β} (h : ∀ a,g (f a) = g a) :
    (l.modify i f).map g = l.map g := by
  apply ext_getElem?
  intro k
  rw [getElem?_map,getElem?_map,getElem?_modify]
  cases l[k]? with
  | none => rfl
  | some a =>
    by_cases hk : i = k
    · simp [hk,h]
    · simp [hk]

theorem countP_lt {p q : α → Bool} (h : ∀ a ∈ l,q a → p a) (hx : x ∈ l) (hp : p x = true)
    (hq : q x = false) : l.countP q < l.countP p := by
  obtain ⟨l₁,l₂,rfl⟩ := append_of_mem hx
  have h₁ := countP_mono_left fun a ha => h a (mem_append_left _ ha)
  have h₂ : l₂.countP q ≤ l₂.countP p :=
    countP_mono_left fun a ha => h a (mem_append_right _ (mem_cons_of_mem _ ha))
  simp only [countP_append,countP_cons,hp,hq,↓reduceIte,Bool.false_eq_true]
  omega

theorem dropWhile_eq_cons {p : α → Bool} {rest : List α} (h : l.dropWhile p = x::rest) :
    p x = false ∧ x::rest <:+ l := by
  have hx := head?_dropWhile_not p l
  rw [h] at hx
  exact ⟨hx,h ▸ dropWhile_suffix p⟩

theorem find?_before {R : α → α → Prop} {p : α → Bool} (hl : l.Pairwise R)
    (h : l.find? p = some y) (hx : x ∈ l) (hne : x ≠ y) (hr : ¬ R y x) : p x = false := by
  obtain ⟨-,before,after,rfl,hbefore⟩ := find?_eq_some_iff_append.mp h
  rcases mem_append.mp hx with hx | hx
  · simpa using hbefore x hx
  · have hafter := (pairwise_cons.mp (pairwise_append.mp hl).2.1).1
    exact absurd (hafter x ((mem_cons.mp hx).resolve_left hne)) hr

def Consecutive {α : Type} (num : α → Nat) (l : List α) : Prop :=
  l.IsChain fun a b => num b = num a + 1

variable {num : α → Nat} {l' : List α} {a : α}

theorem isChain_and {R S : α → α → Prop} (hr : l.IsChain R)
    (hs : l.IsChain S) : l.IsChain fun a b => R a b ∧ S a b := by
  induction l with
  | nil => exact .nil
  | cons a l ih =>
    rw [isChain_cons] at hr hs ⊢
    exact ⟨fun b hb => ⟨hr.1 b hb,hs.1 b hb⟩,ih hr.2 hs.2⟩

theorem progression_getElem? (num : α → Nat) {d : Nat} (h : l.IsChain fun a b => num b = num a + d)
    (ha : l.head? = some a) (hx : l[i]? = some x) : num x = num a + i * d := by
  induction l generalizing a i with
  | nil => cases ha
  | cons b rest ih =>
    cases ha
    cases i with
    | zero =>
      cases hx
      simp
    | succ i =>
      obtain ⟨hhd,hrs⟩ := isChain_cons.mp h
      cases hr : rest with
      | nil => simp [hr] at hx
      | cons c tail =>
        have hc : rest.head? = some c := by rw [hr]; rfl
        have hbc := hhd c hc
        have hcx := ih hrs hc hx
        rw [hcx,Nat.succ_mul]
        omega

namespace Consecutive

theorem pairwise (h : Consecutive num l) : l.Pairwise fun a b => num a < num b := by
  have hlt : l.IsChain fun a b => num a < num b := List.IsChain.imp (fun a b hab => by omega) h
  exact hlt.pairwise

theorem getElem? (h : Consecutive num l) (ha : l.head? = some a) (hx : l[i]? = some x) :
    num x = num a + i := by
  have := progression_getElem? num h ha hx
  omega

theorem le_of_mem_drop (h : Consecutive num l) (ha : l.head? = some a) (hx : x ∈ l.drop n) :
    num a + n ≤ num x := by
  obtain ⟨i,hi⟩ := mem_iff_getElem?.mp hx
  rw [getElem?_drop] at hi
  have := h.getElem? ha hi
  omega

theorem map_eq (h : Consecutive num (a::l)) : (a::l).map num = range' (num a) (l.length + 1) := by
  induction l generalizing a with
  | nil => rfl
  | cons b l ih =>
    obtain ⟨hb,hl⟩ := isChain_cons_cons.mp h
    rw [map_cons,ih hl,hb]
    rfl

theorem concat (h : Consecutive num l) (hx : ∀ y,l.getLast? = some y → num x = num y + 1) :
    Consecutive num (l ++ [x]) := by
  refine List.IsChain.append h (isChain_singleton x) ?_
  intro y hy z hz
  cases hz
  exact hx y hy

theorem le_getLast (h : Consecutive num l) (hy : l.getLast? = some y) (hx : x ∈ l) :
    num x ≤ num y := by
  obtain ⟨init,rfl⟩ := getLast?_eq_some_iff.mp hy
  rcases mem_append.mp hx with hx | hx
  · have hp := (pairwise_append.mp h.pairwise).2.2 x hx y (mem_singleton_self y)
    omega
  · rw [mem_singleton.mp hx]

end Consecutive

theorem lt_of_mem_take_drop (h : l.Pairwise fun a b => num a < num b) (hx : x ∈ l.take k)
    (hy : y ∈ l.drop k) : num x < num y := by
  rw [← take_append_drop k l] at h
  exact (pairwise_append.mp h).2.2 x hx y hy

theorem mem_take_of_lt (h : l.Pairwise fun a b => num a < num b) (hy : l[i]? = some y)
    (hx : x ∈ l) (hlt : num x < num y) : x ∈ l.take i := by
  rw [← take_append_drop i l] at hx
  rcases mem_append.mp hx with hx | hx
  · exact hx
  have hd : l.drop i = y::l.drop (i + 1) := by
    obtain ⟨hlen,rfl⟩ := List.getElem?_eq_some_iff.mp hy
    exact drop_eq_getElem_cons hlen
  rw [hd] at hx
  rcases mem_cons.mp hx with rfl | hx
  · exact absurd hlt (Nat.lt_irrefl _)
  have hp := h.sublist (drop_sublist i l)
  rw [hd] at hp
  have := (pairwise_cons.mp hp).1 x hx
  omega

theorem append_cons_inj {b c d : List α} (h : (l ++ x::b).Pairwise fun a b => num a < num b)
    (heq : l ++ x::b = c ++ x::d) : l = c := by
  rw [pairwise_append,pairwise_cons] at h
  have hl : x ∉ l := fun hx => Nat.lt_irrefl _ (h.2.2 x hx x mem_cons_self)
  have hb : x ∉ b := fun hx => Nat.lt_irrefl _ (h.2.1.1 x hx)
  exact ((append_cons_inj_of_notMem hl hb).mp heq).1

end OpStack.Lib
