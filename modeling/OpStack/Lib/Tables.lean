import Mathlib.Data.List.AList
import Mathlib.Data.UInt
import Mathlib.Algebra.BigOperators.Group.List.Basic

namespace OpStack.Lib
open List
variable {α β : Type} [DecidableEq α] {s : AList fun _ : α => β} {a : α} {b : β} (f : β → Nat)

def tableSum (f : β → Nat) (s : AList fun _ : α => β) : Nat := (s.entries.map fun e => f e.2).sum

theorem tableSum_lookup (h : s.lookup a = some b) :
    tableSum f s = f b + tableSum f (s.erase a) := by
  have hmem := AList.lookup_isSome.mp (by rw [h]; rfl)
  obtain ⟨b',pre,post,-,hs,herase⟩ := exists_of_kerase hmem
  have hb : b' = b := by
    have hin : (⟨a,b'⟩ : Sigma fun _ : α => β) ∈ s.entries := by simp [hs]
    have hlup := AList.mem_lookup_iff.mpr hin
    rw [h] at hlup
    exact (Option.some.inj hlup).symm
  subst hb
  have he : (s.erase a).entries = pre ++ post := herase
  unfold tableSum
  rw [he,hs]
  simp
  omega

theorem tableSum_insert : tableSum f (s.insert a b) = f b + tableSum f (s.erase a) := by
  rfl

theorem erase_of_not_mem (h : a ∉ s) : s.erase a = s := by
  apply AList.ext
  exact kerase_of_notMem_keys h

theorem toNat_sum {γ : Type} (g : γ → UInt64) (l : List γ)
    (h : (l.map fun x => (g x).toNat).sum < 2 ^ 64) :
    (l.map g).sum.toNat = (l.map fun x => (g x).toNat).sum := by
  induction l with
  | nil => rfl
  | cons x l ih =>
    rw [map_cons,sum_cons] at h
    rw [map_cons,sum_cons,map_cons,sum_cons,UInt64.toNat_add]
    omega

end OpStack.Lib
