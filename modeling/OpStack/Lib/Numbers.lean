import Mathlib.Data.List.Induction
import Mathlib.Data.Nat.Size
import Mathlib.Data.Nat.Bitwise
import Mathlib.Tactic.Ring
import Mathlib.Data.List.Forall2
import Mathlib.Algebra.Order.Group.Nat

namespace OpStack.Lib
open List UInt8 Nat

abbrev Bytes := List UInt8

/-- Consumes bytes from the front of its input, or fails with an error of type `ε`. -/
abbrev Reader (ε α : Type) := StateT Bytes (Except ε) α

namespace Reader
variable {ε α β : Type}

def byte (e : ε) : Reader ε UInt8
  | [] => .error e
  | b::bs => .ok (b,bs)

def full (n : Nat) (e : ε) : Reader ε Bytes := fun bs =>
  if n ≤ bs.length then .ok (bs.take n,bs.drop n) else .error e

def many (r : Reader ε α) : Nat → Reader ε (List α)
  | 0 => pure []
  | n+1 => do
    let a ← r
    let as ← many r n
    pure (a::as)

/-- `r` recognises `bs` at the front of any input and returns `a`, leaving the rest. -/
def Reads (r : Reader ε α) (bs : Bytes) (a : α) : Prop :=
  ∀ rest,r (bs ++ rest) = .ok (a,rest)

def Rejects (r : Reader ε α) (bs : Bytes) (e : ε) : Prop :=
  ∀ rest,r (bs ++ rest) = .error e

theorem bind_eq (r : Reader ε α) (f : α → Reader ε β) (bs : Bytes) : (r >>= f) bs = match r bs with
    | .ok (a,rest) => f a rest
    | .error e => .error e := by
  change StateT.bind r f bs = _
  unfold StateT.bind
  cases r bs <;> rfl

theorem Reads.pure (a : α) : Reads (Pure.pure a : Reader ε α) [] a := fun _ => rfl

variable {r : Reader ε α} {f : α → Reader ε β} {bs : Bytes} {a : α} {e : ε} {cs rest : Bytes}
  {b : β} {n : Nat}

theorem Reads.bind (hr : Reads r bs a) (hf : Reads (f a) cs b) : Reads (r >>= f) (bs ++ cs) b := by
  intro rest
  rw [bind_eq,append_assoc,hr (cs ++ rest)]
  exact hf rest

theorem Reads.bind_rejects (hr : Reads r bs a) (hf : Rejects (f a) cs e) :
    Rejects (r >>= f) (bs ++ cs) e := by
  intro rest
  rw [bind_eq,append_assoc,hr (cs ++ rest)]
  exact hf rest

theorem Rejects.bind (hr : Rejects r bs e) : Rejects (r >>= f) bs e := by
  intro rest
  rw [bind_eq,hr rest]

theorem Rejects.append (hr : Rejects r bs e) (cs : Bytes) : Rejects r (bs ++ cs) e := by
  intro rest
  rw [append_assoc]
  exact hr (cs ++ rest)

theorem Reads.map (hr : Reads r bs a) (f : α → β) :
    Reads (r >>= fun a => Pure.pure (f a)) bs (f a) := by
  intro rest
  rw [bind_eq,hr rest]
  rfl

theorem bind_ok (h : (r >>= f) bs = .ok (b,rest)) :
    ∃ a mid,r bs = .ok (a,mid) ∧ f a mid = .ok (b,rest) := by
  rw [bind_eq] at h
  cases hr : r bs with
  | error e => simp [hr] at h
  | ok p => exact ⟨p.1,p.2,rfl,by simpa [hr] using h⟩

theorem full_ok (h : full n e bs = .ok (cs,rest)) : cs.length = n ∧ bs = cs ++ rest := by
  unfold full at h
  split at h
  · rename_i hn
    cases h
    exact ⟨length_take_of_le hn,(take_append_drop n bs).symm⟩
  · cases h

theorem full_reads (bs : Bytes) (e : ε) : Reads (full bs.length e) bs bs := by
  intro rest
  simp [full]

theorem full_reads_of_length (h : bs.length = n) (e : ε) : Reads (full n e) bs bs := by
  subst h
  exact full_reads bs e

theorem many_reads {as : List α} {bss : List Bytes} (h : List.Forall₂ (Reads r) bss as) :
    Reads (many r as.length) bss.flatten as := by
  induction h with
  | nil => exact Reads.pure []
  | cons hr _ ih => exact hr.bind (ih.map _)

/-- The form used with a column of values: each value is read back from its own encoding. -/
theorem many_reads_map (enc : α → Bytes) (as : List α) (h : ∀ a ∈ as,Reads r (enc a) a) :
    Reads (many r as.length) (as.map enc).flatten as := by
  apply many_reads
  rw [forall₂_map_left_iff,forall₂_same]
  exact h

end Reader

/-! Bit lists held in one natural number, lowest index first. -/

def setBit (n i : Nat) (b : Bool) : Nat :=
  if b then n ||| 2 ^ i else if n.testBit i then n - 2 ^ i else n

def ofBits : List Bool → Nat
  | [] => 0
  | b::bs => b.toNat + 2 * ofBits bs

variable (bs : List Bool)

theorem ofBits_lt : ofBits bs < 2 ^ bs.length := by
  induction bs with
  | nil => simp [ofBits]
  | cons b bs ih =>
    have hb := b.toNat_le
    simp only [ofBits,length_cons]
    omega

theorem testBit_ofBits (i : Nat) : (ofBits bs).testBit i = bs.getD i false := by
  induction bs generalizing i with
  | nil => simp [ofBits]
  | cons b bs ih =>
    cases i with
    | zero => cases b <;> simp [ofBits,testBit_zero,add_mod]
    | succ i =>
      have hd : (b.toNat + 2 * ofBits bs) / 2 = ofBits bs := by
        have hb := Bool.toNat_le b
        omega
      simp [ofBits,testBit_succ,hd,ih]

theorem ofBits_append (as bs : List Bool) :
    ofBits (as ++ bs) = ofBits as + 2 ^ as.length * ofBits bs := by
  induction as with
  | nil => simp [ofBits]
  | cons a as ih =>
    simp only [cons_append,ofBits,ih,length_cons]
    ring

/-- Setting the bit just past the end of a bit list appends it. -/
theorem setBit_ofBits (b : Bool) : setBit (ofBits bs) bs.length b = ofBits (bs ++ [b]) := by
  have hlt := ofBits_lt bs
  rw [ofBits_append]
  cases b with
  | false => simp [setBit,ofBits,testBit_lt_two_pow hlt]
  | true =>
    have hor := two_pow_add_eq_or_of_lt hlt 1
    simp only [Nat.mul_one] at hor
    simp only [setBit,ofBits,↓reduceIte,Bool.toNat_true,lor_comm (ofBits bs)]
    omega

/-! Big-endian numbers. -/

def beBytes : Nat → Nat → Bytes
  | 0,_ => []
  | k+1,n => beBytes k (n / 256) ++ [.ofNat (n % 256)]

def ofBe (bs : Bytes) : Nat :=
  bs.foldl (fun n b => n * 256 + b.toNat) 0

def byteLen (n : Nat) : Nat := (n.size + 7) / 8

def natBytes (n : Nat) : Bytes := beBytes (byteLen n) n

@[simp] theorem beBytes_length (k n : Nat) : (beBytes k n).length = k := by
  induction k generalizing n with
  | zero => rfl
  | succ k ih => simp [beBytes,ih]

theorem ofBe_beBytes {k n : Nat} (h : n < 256 ^ k) : ofBe (beBytes k n) = n := by
  induction k generalizing n with
  | zero =>
    simp only [ofBe,beBytes,foldl_nil]
    omega
  | succ k ih =>
    have hd : n / 256 < 256 ^ k := by omega
    have hi := ih hd
    simp only [ofBe] at hi
    simp only [ofBe,beBytes,foldl_append,foldl_cons,foldl_nil,toNat_ofNat']
    omega

theorem ofBe_concat (bs : Bytes) (b : UInt8) : ofBe (bs ++ [b]) = ofBe bs * 256 + b.toNat := by
  simp [ofBe]

theorem ofBe_lt (bs : Bytes) : ofBe bs < 256 ^ bs.length := by
  induction bs using reverseRecOn with
  | nil => simp [ofBe]
  | append_singleton bs b ih =>
    have hb := b.toNat_lt
    rw [ofBe_concat,length_append,length_singleton]
    omega

theorem beBytes_ofBe (bs : Bytes) : beBytes bs.length (ofBe bs) = bs := by
  induction bs using reverseRecOn with
  | nil => rfl
  | append_singleton bs b ih =>
    have hb := b.toNat_lt
    have hdiv : (ofBe bs * 256 + b.toNat) / 256 = ofBe bs := by omega
    have hmod : (ofBe bs * 256 + b.toNat) % 256 = b.toNat := by omega
    rw [ofBe_concat,length_append,length_singleton,beBytes,hdiv,hmod,ih,UInt8.ofNat_toNat]

theorem lt_pow_byteLen (n : Nat) : n < 256 ^ byteLen n := by
  have hs := Nat.lt_size_self n
  have he : (256 : Nat) ^ byteLen n = 2 ^ (8 * byteLen n) := by rw [Nat.pow_mul]
  rw [he]
  refine lt_of_lt_of_le hs (Nat.pow_le_pow_right (by omega) ?_)
  unfold byteLen
  omega

theorem ofBe_natBytes (n : Nat) : ofBe (natBytes n) = n :=
  ofBe_beBytes (lt_pow_byteLen n)

theorem byteLen_le {n k : Nat} (h : n < 256 ^ k) : byteLen n ≤ k := by
  have h2 : n < 2 ^ (8 * k) := by
    rw [pow_mul]
    exact h
  have hs := size_le.mpr h2
  unfold byteLen
  omega

theorem byteLen_pos {n : Nat} (h : 0 < n) : 0 < byteLen n := by
  have hs := size_pos.mpr h
  unfold byteLen
  omega

/-! Unsigned base-128 numbers, lowest group first, with the high bit marking continuation. -/

def putUvarintAux : Nat → Nat → Bytes
  | 0,n => [.ofNat n]
  | k+1,n =>
    if n < 128 then [.ofNat n]
    else .ofNat (n % 128 + 128) :: putUvarintAux k (n / 128)

def putUvarint (x : UInt64) : Bytes := putUvarintAux 9 x.toNat

/-- `k` is the number of bytes that may follow the next one; the tenth byte may only hold one bit. -/
def readUvarintAux {ε : Type} (e : ε) : Nat → Nat → Nat → Reader ε UInt64
  | k,s,x => do
    let b ← .byte e
    if b < 128 then
      if k = 0 ∧ 1 < b then throw e
      else pure (.ofNat (x + b.toNat * 2 ^ s))
    else match k with
      | 0 => throw e
      | k+1 => readUvarintAux e k (s + 7) (x + (b.toNat - 128) * 2 ^ s)

def readUvarint {ε : Type} (e : ε) : Reader ε UInt64 := readUvarintAux e 9 0 0

theorem putUvarintAux_reads {ε : Type} (e : ε) {k n : Nat} (s x : Nat) (h : n < 2 ^ (7 * k + 1)) :
    Reader.Reads (readUvarintAux e k s x) (putUvarintAux k n) (UInt64.ofNat (x + n * 2 ^ s)) := by
  induction k generalizing n s x with
  | zero =>
    intro rest
    have hb : (ofNat n).toNat = n := by
      simp only [toNat_ofNat']
      omega
    have hlt : ofNat n < 128 := by
      rw [lt_iff_toNat_lt]
      simp only [reduceToNat]
      omega
    have hle : ¬ 1 < ofNat n := by
      rw [lt_iff_toNat_lt]
      simp only [reduceToNat]
      omega
    unfold readUvarintAux
    rw [Reader.bind_eq]
    simp only [putUvarintAux,cons_append,nil_append,Reader.byte,hlt,hle,and_false,hb]
    rfl
  | succ k ih =>
    intro rest
    unfold readUvarintAux
    rw [Reader.bind_eq]
    by_cases hn : n < 128
    · have hb : (ofNat n).toNat = n := by
        simp only [toNat_ofNat']
        omega
      have hlt : ofNat n < 128 := by
        rw [lt_iff_toNat_lt,hb]
        exact hn
      simp only [putUvarintAux,hn,↓reduceIte,cons_append,nil_append,Reader.byte,hlt,hb]
      rfl
    have hb : (ofNat (n % 128 + 128)).toNat = n % 128 + 128 := by
      simp only [toNat_ofNat']
      omega
    have hge : ¬ ofNat (n % 128 + 128) < 128 := by
      rw [lt_iff_toNat_lt,hb]
      simp [reduceToNat]
    have hd : n / 128 < 2 ^ (7 * k + 1) := by
      have hp : 2 ^ (7 * (k + 1) + 1) = 128 * 2 ^ (7 * k + 1) := by ring
      omega
    have hv : x + (n % 128 + 128 - 128) * 2 ^ s + n / 128 * 2 ^ (s + 7) = x + n * 2 ^ s := by
      have hn' : n = n % 128 + 128 * (n / 128) := by omega
      conv_rhs => rw [hn']
      rw [Nat.add_sub_cancel]
      ring
    simp only [putUvarintAux,hn,↓reduceIte,cons_append,Reader.byte,hge,hb]
    rw [ih _ _ hd rest,hv]

theorem putUvarint_reads {ε : Type} (e : ε) (x : UInt64) :
    Reader.Reads (readUvarint e) (putUvarint x) x := by
  have hx : x.toNat < 2 ^ (7 * 9 + 1) := x.toNat_lt
  have h := putUvarintAux_reads e 0 0 hx
  simpa [readUvarint,putUvarint] using h

end OpStack.Lib
