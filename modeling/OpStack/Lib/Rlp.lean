import OpStack.Lib.Numbers

namespace OpStack.Lib.Rlp
open List UInt8

/-! Recursive length prefix: a value is a byte string or a list of values. -/

inductive Item where
  | str (bytes : Bytes)
  | list (items : List Item)

inductive Kind where
  | string
  | list
  deriving DecidableEq

/-- `base` is 128 for a string and 192 for a list. -/
def header (base size : Nat) : Bytes :=
  if size < 56 then [ofNat (base + size)]
  else ofNat (base + 55 + byteLen size) :: natBytes size

def encodeBytes (bytes : Bytes) : Bytes :=
  match bytes with
  | [b] => if b < 128 then [b] else header 128 1 ++ [b]
  | _ => header 128 bytes.length ++ bytes

mutual
def encode : Item → Bytes
  | .str bytes => encodeBytes bytes
  | .list items => header 192 (encodeAll items).length ++ encodeAll items

def encodeAll : List Item → Bytes
  | [] => []
  | it::its => encode it ++ encodeAll its
end

/-- The kind of the value at the front, the length of its header and of its content. A byte
below 128 is its own content. -/
def head : Bytes → Option (Kind × Nat × Nat)
  | [] => none
  | b::bs =>
    let long (kind : Kind) (n : Nat) :=
      if n ≤ bs.length then some (kind,n + 1,ofBe (bs.take n)) else none
    if b < 128 then some (.string,0,1)
    else if b < 184 then some (.string,1,b.toNat - 128)
    else if b < 192 then long .string (b.toNat - 183)
    else if b < 248 then some (.list,1,b.toNat - 192)
    else long .list (b.toNat - 247)

def split (bs : Bytes) : Option (Kind × Bytes × Bytes) :=
  match head bs with
  | none => none
  | some (kind,skip,size) =>
    if skip + size ≤ bs.length then
      some (kind,(bs.drop skip).take size,bs.drop (skip + size))
    else none

def decodeAll : Nat → Bytes → Option (List Item)
  | _,[] => some []
  | 0,_::_ => none
  | k+1,b::bs =>
    match split (b::bs) with
    | none => none
    | some (.string,content,rest) => (decodeAll k rest).map (Item.str content :: ·)
    | some (.list,content,rest) =>
      (decodeAll k content).bind fun items => (decodeAll k rest).map (Item.list items :: ·)

def decode (bs : Bytes) : Option Item :=
  match decodeAll bs.length bs with
  | some [it] => some it
  | _ => none

theorem header_length_pos (base size : Nat) : 0 < (header base size).length := by
  unfold header
  split <;> simp

theorem encode_length_pos (it : Item) : 0 < (encode it).length := by
  cases it with
  | str bytes =>
    unfold encode encodeBytes
    have hh := header_length_pos 128
    split
    · split
      · simp
      · simp
    have hp := hh bytes.length
    simp only [length_append]
    omega
  | list items =>
    have hp := header_length_pos 192 (encodeAll items).length
    unfold encode
    simp only [length_append]
    omega

private theorem byteLen_le_eight {n : Nat} (h : n < 2 ^ 64) : byteLen n ≤ 8 :=
  byteLen_le (by simpa using h)

theorem header_cases {base size : Nat} (hbase : base ≤ 192) (h : size < 2 ^ 64) :
    (size < 56 ∧ ∃ b : UInt8,header base size = [b] ∧ b.toNat = base + size) ∨
    (0 < byteLen size ∧ byteLen size ≤ 8 ∧
      ∃ b : UInt8,header base size = b::natBytes size ∧ b.toNat = base + 55 + byteLen size) := by
  unfold header
  split
  · rename_i hs
    refine .inl ⟨hs,_,rfl,?_⟩
    rw [toNat_ofNat']
    omega
  have hl := byteLen_le_eight h
  refine .inr ⟨byteLen_pos (by omega),hl,_,rfl,?_⟩
  rw [toNat_ofNat']
  omega

theorem head_header_string {size : Nat} (h : size < 2 ^ 64) (rest : Bytes) :
    head (header 128 size ++ rest) = some (.string,(header 128 size).length,size) := by
  have hn : (natBytes size).length = byteLen size := beBytes_length _ _
  rcases header_cases (Nat.le_of_lt (by decide : 128 < 192)) h with ⟨hs,b,hh,hb⟩ | ⟨hp,hl,b,hh,hb⟩
  · simp only [hh,cons_append,head,lt_iff_toNat_lt,hb,reduceToNat]
    rw [if_neg (by omega),if_pos (by omega)]
    simp
  simp only [hh,cons_append,head,lt_iff_toNat_lt,hb,reduceToNat]
  rw [if_neg (by omega),if_neg (by omega),if_pos (by omega)]
  simp [hn,ofBe_natBytes]

theorem head_header_list {size : Nat} (h : size < 2 ^ 64) (rest : Bytes) :
    head (header 192 size ++ rest) = some (.list,(header 192 size).length,size) := by
  have hn : (natBytes size).length = byteLen size := beBytes_length _ _
  rcases header_cases (Nat.le_refl 192) h with ⟨hs,b,hh,hb⟩ | ⟨hp,hl,b,hh,hb⟩
  · simp only [hh,cons_append,head,lt_iff_toNat_lt,hb,reduceToNat]
    rw [if_neg (by omega),if_neg (by omega),if_neg (by omega),if_pos (by omega)]
    simp
  simp only [hh,cons_append,head,lt_iff_toNat_lt,hb,reduceToNat]
  rw [if_neg (by omega),if_neg (by omega),if_neg (by omega),if_neg (by omega)]
  simp [hn,ofBe_natBytes]

theorem header_list_first (size : Nat) (h : size < 2 ^ 64) :
    ∃ b bs,header 192 size = b::bs ∧ 192 ≤ b := by
  unfold header
  split
  · refine ⟨_,_,rfl,?_⟩
    rw [le_iff_toNat_le]
    simp only [toNat_ofNat',reduceToNat]
    omega
  have hl := byteLen_le_eight h
  refine ⟨_,_,rfl,?_⟩
  rw [le_iff_toNat_le]
  simp only [toNat_ofNat',reduceToNat]
  omega

private theorem split_of_head {kind : Kind} {hd content : Bytes} (rest : Bytes)
    (h : head (hd ++ content ++ rest) = some (kind,hd.length,content.length)) :
    split (hd ++ content ++ rest) = some (kind,content,rest) := by
  unfold split
  rw [h]
  simp [append_assoc]

theorem split_encodeBytes {bytes : Bytes} (h : bytes.length < 2 ^ 64) (rest : Bytes) :
    split (encodeBytes bytes ++ rest) = some (.string,bytes,rest) := by
  have hlong : split (header 128 bytes.length ++ bytes ++ rest) = some (.string,bytes,rest) := by
    apply split_of_head
    rw [append_assoc]
    exact head_header_string h _
  unfold encodeBytes
  split
  · split
    · rename_i hb
      simp [Rlp.split,head,hb]
    · exact hlong
  · exact hlong

theorem split_encode_list {items : List Item} (h : (encodeAll items).length < 2 ^ 64)
    (rest : Bytes) : split (encode (.list items) ++ rest) = some (.list,encodeAll items,rest) := by
  apply split_of_head
  rw [append_assoc]
  exact head_header_list h _

theorem encodeBytes_length_ge (bytes : Bytes) : bytes.length ≤ (encodeBytes bytes).length := by
  unfold encodeBytes
  split
  · split <;> simp
  · simp

theorem header_length_le (base : Nat) {size : Nat} (h : size < 2 ^ 64) :
    (header base size).length ≤ 9 := by
  have hl := byteLen_le_eight h
  have hn : (natBytes size).length = byteLen size := beBytes_length _ _
  unfold header
  split
  · simp
  · simp only [length_cons]
    omega

theorem encodeBytes_length_le (bytes : Bytes) (h : bytes.length < 2 ^ 64) :
    (encodeBytes bytes).length ≤ bytes.length + 9 := by
  have hh := header_length_le 128 h
  unfold encodeBytes
  split
  · split
    · simp
    · simp [header]
  · simp only [length_append]
    omega

theorem decodeAll_encodeAll (k : Nat) (items : List Item) (hk : (encodeAll items).length ≤ k)
    (hs : (encodeAll items).length < 2 ^ 64) : decodeAll k (encodeAll items) = some items := by
  induction k generalizing items with
  | zero =>
    cases items with
    | nil => simp [encodeAll,decodeAll]
    | cons it its =>
      have hp := encode_length_pos it
      simp only [encodeAll,length_append] at hk
      omega
  | succ k ih =>
    cases items with
    | nil => simp [encodeAll,decodeAll]
    | cons it its =>
      have hp := encode_length_pos it
      simp only [encodeAll,length_append] at hk hs
      have hrs := ih its (by omega) (by omega)
      obtain ⟨b,bs,hb⟩ : ∃ b bs,encode it ++ encodeAll its = b::bs := by
        cases he : encode it with
        | nil => simp [he] at hp
        | cons b bs => exact ⟨b,bs ++ encodeAll its,rfl⟩
      rw [encodeAll,hb,decodeAll,← hb]
      cases it with
      | str bytes =>
        have hl := encodeBytes_length_ge bytes
        simp only [encode] at hs
        rw [encode,split_encodeBytes (by omega)]
        simp [hrs]
      | list inner =>
        have hh := header_length_pos 192 (encodeAll inner).length
        simp only [encode,length_append] at hk hs
        rw [split_encode_list (by omega)]
        simp [hrs,ih inner (by omega) (by omega)]

theorem decode_encode (it : Item) (h : (encode it).length < 2 ^ 64) :
    decode (encode it) = some it := by
  have he : encodeAll [it] = encode it := by simp [encodeAll]
  unfold decode
  rw [← he,decodeAll_encodeAll _ _ le_rfl (by rwa [he])]

end OpStack.Lib.Rlp
