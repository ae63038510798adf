import OpStack.Cannon.HiLo

namespace OpStack.Proofs.HiLo
open Cannon BitVec

/-- Division that rounds towards zero, with a quotient that may wrap around. -/
structure Divides {w : Nat} (a b q r : BitVec w) : Prop where
  sum : q * b + r = a
  small : r.toInt.natAbs < b.toInt.natAbs
  sign : r.toInt = 0 ∨ (r.toInt < 0 ↔ a.toInt < 0)

theorem divides {w : Nat} {a b : BitVec w} (hb : b ≠ 0) : Divides a b (a.sdiv b) (a.srem b) := by
  have h0 : b.toInt ≠ 0 := fun h => hb (eq_of_toInt_eq (by simpa using h))
  constructor
  · apply eq_of_toInt_eq
    have hsum := Int.tdiv_mul_add_tmod a.toInt b.toInt
    simp only [toInt_add,toInt_mul,toInt_sdiv,toInt_srem,Int.bmod_mul_bmod,Int.bmod_add_bmod,hsum,
      toInt_bmod_cancel]
  · rw [toInt_srem,Int.natAbs_tmod]
    exact Nat.mod_lt _ (Int.natAbs_pos.mpr h0)
  rw [toInt_srem]
  rcases Int.lt_or_le a.toInt 0 with ha | ha
  · have hneg := Int.tmod_nonneg b.toInt (Int.neg_nonneg_of_nonpos (Int.le_of_lt ha))
    rw [Int.neg_tmod] at hneg
    omega
  · have hpos := Int.tmod_nonneg b.toInt ha
    omega

/-- The masks cut the word at bit 32 and repeat that half's sign above it. -/
theorem signExtend_eq (dat : Word) :
    Cannon.signExtend dat 32 = (dat.setWidth 32).signExtend 64 := by
  have hsign : (dat >>> 31 &&& 1 ≠ 0) ↔ (dat.setWidth 32).msb = true := by
    rw [msb_eq_decide,Ne,← toNat_inj]
    simp
    omega
  have hmask : ∀ i < 64,(4294967295 : Word).getLsbD i = decide (i < 32) := by decide
  have hhigh : ∀ i < 64,(18446744069414584320 : Word).getLsbD i = decide (32 ≤ i) := by decide
  apply eq_of_getLsbD_eq
  unfold Cannon.signExtend
  simp only [hsign,getLsbD_signExtend]
  split
  · grind
  · simp [*]
    grind

theorem append_toNat (hi lo : Word) : (hi ++ lo).toNat = hi.toNat * 2 ^ 64 + lo.toNat := by
  rw [toNat_append,← Nat.shiftLeft_add_eq_or_of_lt lo.isLt,Nat.shiftLeft_eq]

/-- Flipping both words and adding one, with the carry, negates the pair. -/
theorem neg_append (hi lo : Word) :
    (if ~~~lo = 0xFFFFFFFFFFFFFFFF#64 then ~~~hi + 1#64 else ~~~hi) ++ (~~~lo + 1#64) =
      -(hi ++ lo) := by
  apply eq_of_toNat_eq
  rw [append_toNat,toNat_neg,append_toNat]
  have hz : (~~~lo = 0xFFFFFFFFFFFFFFFF#64) ↔ lo.toNat = 0 := by
    rw [← toNat_inj]
    simp
    omega
  simp only [toNat_add,hz]
  split
  · simp_all
    omega
  · simp
    omega

-- the most negative number is its own absolute value, read without a sign
theorem abs64_toInt (a : Word) :
    a.toInt = if a.msb then -((abs64 a).toNat : Int) else (abs64 a).toNat := by
  unfold abs64
  rw [slt_zero_eq_msb,toInt_eq_msb_cond]
  cases hm : a.msb with
  | true =>
    have hle := toNat_ge_of_msb_true hm
    simp only [if_true,toNat_neg]
    omega
  | false => simp

theorem mul64_exact (x y : Word) :
    (mul64 x y).1 ++ (mul64 x y).2 = BitVec.ofInt 128 (x.toNat * y.toNat) := by
  exact extractLsb'_append_extractLsb'

theorem dmult_exact (a b : Word) :
    (dmult a b).1 ++ (dmult a b).2 = BitVec.ofInt 128 (a.toInt * b.toInt) := by
  have hprod := mul64_exact (abs64 a) (abs64 b)
  rw [abs64_toInt a,abs64_toInt b]
  unfold dmult
  simp only [slt_zero_eq_msb]
  cases a.msb <;> cases b.msb
  · simpa using hprod
  · simp [neg_append,hprod,ofInt_neg]
  · simp [neg_append,hprod,ofInt_neg]
  · simpa using hprod

theorem mult_toInt (a b : BitVec 32) :
    (a.signExtend 64 * b.signExtend 64).toInt = a.toInt * b.toInt := by
  have hbound (x : BitVec 32) : x.toInt.natAbs ≤ 2 ^ 31 := by
    have := two_mul_toInt_lt (x := x)
    have := le_two_mul_toInt (x := x)
    omega
  have hmul := Nat.mul_le_mul (hbound a) (hbound b)
  rw [← Int.natAbs_mul] at hmul
  rw [toInt_mul,toInt_signExtend_of_le (by decide),toInt_signExtend_of_le (by decide)]
  exact Int.bmod_eq_of_le (by omega) (by omega)

/-- The instruction does not panic, and leaves these values in HI and LO. -/
def Leaves (funct : Nat) (rs rt hi lo : Word) : Prop :=
  ∀ cpu registers storeReg,∃ s,handleHiLo cpu registers funct rs rt storeReg = .ok s ∧
    s.1.hi = hi ∧ s.1.lo = lo

theorem leaves {funct : Nat} {rs rt hi lo : Word}
    (h : ∀ cpu,hiLo cpu funct rs rt = .ok (hi,lo,0)) : Leaves funct rs rt hi lo := by
  intro cpu registers storeReg
  rw [handleHiLo,h]
  exact ⟨_,rfl,rfl,rfl⟩

/-- The signed products and quotients, whatever the registers hold. -/
theorem handleHiLo_exact (rs rt : Word) :
    (∃ hi lo,Leaves 0x1c rs rt hi lo ∧ hi ++ lo = BitVec.ofInt 128 (rs.toInt * rt.toInt)) ∧
    (∃ product : Word,product.toInt = (rs.setWidth 32).toInt * (rt.setWidth 32).toInt ∧
      Leaves 0x18 rs rt ((product.extractLsb' 32 32).signExtend 64)
        ((product.extractLsb' 0 32).signExtend 64)) ∧
    (rt.setWidth 32 ≠ 0 → ∃ q r,Leaves 0x1a rs rt (r.signExtend 64) (q.signExtend 64) ∧
      Divides (rs.setWidth 32) (rt.setWidth 32) q r) ∧
    (rt ≠ 0 → ∃ q r,Leaves 0x1e rs rt r q ∧ Divides rs rt q r) := by
  have hback (x : BitVec 32) : Cannon.signExtend (x.signExtend 64) 32 = x.signExtend 64 := by
    have hwidth : (x.signExtend 64).setWidth 32 = x := by
      ext i hi
      simp [getLsbD_signExtend,hi]
      omega
    rw [signExtend_eq,hwidth]
  have hlow (x : Word) : ((x.setWidth 32).setWidth 64).setWidth 32 = x.extractLsb' 0 32 := by
    ext i hi
    simp
  refine ⟨⟨_,_,leaves fun _ => rfl,dmult_exact rs rt⟩,⟨_,mult_toInt _ _,?_⟩,?_,?_⟩
  · refine leaves fun cpu => ?_
    simp only [hiLo,signExtend_eq,setWidth_ushiftRight_eq_extractLsb,hlow]
  · refine fun hb => ⟨_,_,leaves fun cpu => ?_,divides hb⟩
    simp only [hiLo,if_neg hb,hback]
  · refine fun hb => ⟨_,_,leaves fun cpu => ?_,divides hb⟩
    simp only [hiLo,if_neg hb]

theorem handleHiLo_exact_sample :
    ∃ q r,Leaves 0x1e (intMin 64) (-1) r q ∧ Divides (intMin 64) (-1) q r :=
  (handleHiLo_exact (intMin 64) (-1)).2.2.2 (by decide)

end OpStack.Proofs.HiLo
