import Mathlib.Data.Nat.Basic

namespace OpStack.Lib

def searchFrom (f : Nat → Bool) : (fuel i j : Nat) → Nat
  | 0,i,_ => i
  | fuel + 1,i,j =>
    if i < j then
      if f ((i + j) / 2) then searchFrom f fuel i ((i + j) / 2)
      else searchFrom f fuel ((i + j) / 2 + 1) j
    else i

def search (n : Nat) (f : Nat → Bool) : Nat := searchFrom f n 0 n

variable {f : Nat → Bool} {n : Nat}

theorem searchFrom_bounds {fuel i j : Nat} (hfuel : j ≤ i + fuel) (hij : i ≤ j)
    (hi : ∀ k,k + 1 = i → f k = false) (hj : j < n → f j = true) :
    searchFrom f fuel i j ≤ j ∧ (∀ k,k + 1 = searchFrom f fuel i j → f k = false) ∧
      (searchFrom f fuel i j < n → f (searchFrom f fuel i j) = true) := by
  induction fuel generalizing i j with
  | zero =>
    obtain rfl : i = j := by omega
    exact ⟨hij,hi,hj⟩
  | succ fuel ih =>
    unfold searchFrom
    split
    · split
      · rename_i hf
        obtain ⟨hle,hrs⟩ := ih (j := (i + j) / 2) (by omega) (by omega) hi fun _ => hf
        exact ⟨by omega,hrs⟩
      rename_i hf
      refine ih (by omega) (by omega) ?_ hj
      intro k hk
      obtain rfl : k = (i + j) / 2 := by omega
      simpa using hf
    · obtain rfl : i = j := by omega
      exact ⟨hij,hi,hj⟩

theorem search_le : search n f ≤ n :=
  (searchFrom_bounds (n := n) (by omega) (by omega) (by omega) (by omega)).1

theorem search_before {k : Nat} (h : k + 1 = search n f) : f k = false :=
  (searchFrom_bounds (n := n) (by omega) (by omega) (by omega) (by omega)).2.1 k h

theorem search_accepts (h : search n f < n) : f (search n f) = true :=
  (searchFrom_bounds (by omega) (by omega) (by omega) (by omega)).2.2 h

end OpStack.Lib
