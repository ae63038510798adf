import Mathlib.Data.UInt
import OpStack.Lib.Lists
import OpStack.Lib.Outcome
import OpStack.Supernode.SafeDB

namespace OpStack.Proofs.SafeHeads
open Lib Eth Supernode SafeDB List

def Sorted (db : SafeDB) : Prop := db.Pairwise fun a b => b.l1.number < a.l1.number

structure Sound (allowed : BlockID → Prop) (db : SafeDB) : Prop where
  sorted : Sorted db
  unique : ∀ a ∈ db,∀ b ∈ db,b.l1.number = a.l1.number → b = a
  mono : ∀ a ∈ db,∀ b ∈ db,b.l1.number ≤ a.l1.number → b.l2.number ≤ a.l2.number
  allowed : ∀ e ∈ db,allowed e.l1

def Fits (s : L2BlockRef) (db : SafeDB) : Prop :=
  ∀ e ∈ db,e.l1.number < s.l1Origin.number → e.l2.number < s.number

/-- An update at or after the last entry and not below it, or a reset to a block from `low` on. -/
inductive Change (allowed : BlockID → Prop) (low : UInt64) (db : SafeDB) : SafeDB → Prop
  | updated {safeHead : L2BlockRef} {l1Head : BlockID} (hallowed : allowed l1Head)
      (hl1 : ∀ e ∈ db,e.l1.number < l1Head.number ∨ e.l1 = l1Head)
      (hl2 : ∀ e ∈ db,e.l2.number ≤ safeHead.number) :
      Change allowed low db (db.safeHeadUpdated safeHead l1Head)
  | reset {s : L2BlockRef} (hlow : low ≤ s.number) (hfits : Fits s db) :
      Change allowed low db (db.safeHeadReset s)

structure IsFirst (number : UInt64) (db : SafeDB) (e : Entry) : Prop where
  mem : e ∈ db
  reaches : number ≤ e.l2.number
  earlier : ∀ x ∈ db,x.l1.number < e.l1.number → x.l2.number < number

def reached (number : UInt64) (db : SafeDB) : Except L1AtSafeHeadError BlockID :=
  match db.reverse.find? (number ≤ ·.l2.number) with
  | none => .error .notFound
  | some e => if ∀ x ∈ db,e.l1.number ≤ x.l1.number then .error .unavailable else .ok e.l1

variable {allowed : BlockID → Prop} {db db' : SafeDB} {s : L2BlockRef} {n m low : UInt64}
  {a e x : Entry} {b genesisL1 genesisL2 target : BlockID}

@[grind =] theorem mem_set : x ∈ db.set e ↔ x = e ∨ x ∈ db ∧ x.l1.number ≠ e.l1.number := by
  grind [SafeDB.set]

theorem Sorted.set (h : Sorted db) : Sorted (db.set e) := by
  refine pairwise_append.mpr ⟨h.filter _,pairwise_cons.mpr ⟨?_,h.filter _⟩,?_⟩
  · grind
  · grind

theorem Sorted.reset (h : Sorted db) : Sorted (db.safeHeadReset s) := by
  unfold safeHeadReset
  split
  · exact h
  dsimp only
  split
  · exact Sorted.set (h.filter _)
  · exact h.filter _

theorem reset_cases (hs : Sorted db) (hf : Fits s db) :
    ((∀ e ∈ db,e.l2.number < s.number) ∧ db.safeHeadReset s = db) ∨
    ∃ e,IsFirst s.number db e ∧ ∀ x,x ∈ db.safeHeadReset s ↔
      (x = ⟨e.l1,s.id⟩ ∧ ∃ y ∈ db,y.l1.number < e.l1.number) ∨
        x ∈ db ∧ x.l1.number < e.l1.number := by
  unfold safeHeadReset
  split
  · grind [Fits]
  rename_i e he
  refine .inr ⟨e,⟨?_,?_,?_⟩,?_⟩
  · grind
  · grind
  · intro x hx hlt
    have hbefore := find?_before (pairwise_reverse.mpr hs) he (mem_reverse.mpr hx)
    grind [Fits]
  · grind

theorem Change.sound (h : Change allowed low db db') (hs : Sound allowed db) :
    Sound allowed db' := by
  cases h with
  | updated hallowed hl1 hl2 =>
    refine ⟨hs.sorted.set,?_,?_,?_⟩ <;> grind [safeHeadUpdated,Sound,L2BlockRef.id]
  | reset hlow hfits =>
    rcases reset_cases hs.sorted hfits with ⟨-,heq⟩ | ⟨e,he,hmem⟩
    · rw [heq]
      exact hs
    · refine ⟨hs.sorted.reset,?_,?_,?_⟩ <;> grind [IsFirst,Sound,L2BlockRef.id]

theorem sound_of_reaches (h : Reaches (Change allowed low) [] db) : Sound allowed db :=
  h.invariant ⟨.nil,by simp,by simp,by simp⟩ fun _ _ hs hstep => hstep.sound hs

theorem safeHeadAtL1_some (hs : Sorted db) : db.safeHeadAtL1 n = some e ↔
    e ∈ db ∧ e.l1.number < n+1 ∧ ∀ x ∈ db,x.l1.number < n+1 → x.l1.number ≤ e.l1.number := by
  constructor
  · intro h
    have hbefore := fun x hx => find?_before (x := x) hs h hx
    grind [safeHeadAtL1]
  rintro ⟨he,hlt,hmax⟩
  cases h : db.safeHeadAtL1 n with
  | none => grind [safeHeadAtL1]
  | some x =>
    have hbefore := find?_before hs h he
    grind [safeHeadAtL1]

theorem Sound.ordered (hs : Sound allowed db) (hnm : n ≤ m) (he : e ∈ db.safeHeadAtL1 n)
    (hx : x ∈ db.safeHeadAtL1 m) : e.l2.number ≤ x.l2.number := by
  obtain ⟨he,hlt,-⟩ := (safeHeadAtL1_some hs.sorted).mp he
  obtain ⟨hx,hltx,hmax⟩ := (safeHeadAtL1_some hs.sorted).mp hx
  -- Neither number is the largest one, at which nothing is found.
  have hle : e.l1.number < m+1 := by
    simp only [UInt64.lt_iff_toNat_lt,UInt64.le_iff_toNat_le,UInt64.toNat_add,
      UInt64.toNat_one] at hnm hlt hltx ⊢
    have := m.toNat_lt
    omega
  exact hs.mono x hx e he (hmax e he hle)

theorem reached_none (h : ∀ e ∈ db,e.l2.number < n) : reached n db = .error .notFound := by
  have hfind : db.reverse.find? (n ≤ ·.l2.number) = none := by grind
  rw [reached,hfind]

theorem reached_first (hs : Sorted db) (h : IsFirst n db e) : reached n db =
    if ∀ x ∈ db,e.l1.number ≤ x.l1.number then .error .unavailable else .ok e.l1 := by
  have hfind : db.reverse.find? (n ≤ ·.l2.number) = some e := by
    cases hx : db.reverse.find? (n ≤ ·.l2.number) with
    | none => grind [IsFirst]
    | some x =>
      have hbefore := find?_before (pairwise_reverse.mpr hs) hx (mem_reverse.mpr h.mem)
      grind [IsFirst]
  rw [reached,hfind]

theorem reached_ok (hs : Sorted db) : reached n db = .ok b ↔
    ∃ e,IsFirst n db e ∧ e.l1 = b ∧ ∃ x ∈ db,x.l1.number < b.number := by
  constructor
  · intro h
    unfold reached at h
    split at h
    · cases h
    rename_i e he
    have hbefore := fun x hx => find?_before (x := x) (pairwise_reverse.mpr hs) he hx
    refine ⟨e,⟨?_,?_,?_⟩,?_⟩
    · grind
    · grind
    · grind
    · grind
  · rintro ⟨e,he,rfl,hprev⟩
    rw [reached_first hs he]
    grind

theorem reset_safeHeadAtL1 (hs : Sound allowed db) (hf : Fits s db) :
    (db.safeHeadReset s).safeHeadAtL1 n = (db.safeHeadAtL1 n).bind fun e =>
      if e.l2.number < s.number then some e else (reached s.number db).toOption.map (⟨·,s.id⟩) := by
  rcases reset_cases hs.sorted hf with ⟨hbelow,heq⟩ | ⟨a,ha,hmem⟩
  · rw [heq]
    cases h : db.safeHeadAtL1 n with
    | none => rfl
    | some e => simp [hbelow e (mem_of_find?_eq_some h)]
  rw [reached_first hs.sorted ha]
  cases h : db.safeHeadAtL1 n with
  | none =>
    have hnone := find?_eq_none.mp h
    refine find?_eq_none.mpr fun x hx => ?_
    grind [IsFirst]
  | some e =>
    obtain ⟨he,hlt,hmax⟩ := (safeHeadAtL1_some hs.sorted).mp h
    rw [Option.bind_some]
    split
    · refine (safeHeadAtL1_some hs.sorted.reset).mpr ⟨(hmem e).mpr (.inr ⟨he,?_⟩),hlt,?_⟩
      · grind [IsFirst,Sound]
      · grind [IsFirst]
    have hle : a.l1.number ≤ e.l1.number := by grind [IsFirst]
    split
    · refine find?_eq_none.mpr fun x hx => ?_
      grind
    · refine (safeHeadAtL1_some hs.sorted.reset).mpr ⟨(hmem _).mpr (.inl ⟨rfl,?_⟩),?_,?_⟩
      · grind
      · grind
      · grind

theorem safeHeadReset_min (h : Reaches (Change (·.number < 2 ^ 63) 0) [] db) (hf : Fits s db) :
    (∀ n,(db.safeHeadReset s).safeHeadAtL1 n = (db.safeHeadAtL1 n).bind fun e =>
      if e.l2.number < s.number then some e
      else (reached s.number db).toOption.map (⟨·,s.id⟩)) ∧
    ∀ n m,n ≤ m → ∀ e ∈ (db.safeHeadReset s).safeHeadAtL1 n,
      ∀ x ∈ (db.safeHeadReset s).safeHeadAtL1 m,e.l2.number ≤ x.l2.number := by
  have hs := sound_of_reaches h
  refine ⟨fun n => reset_safeHeadAtL1 hs hf,fun n m hnm e he x hx => ?_⟩
  have hreset := (Change.reset UInt64.zero_le hf).sound hs
  exact hreset.ordered hnm he hx

def sampleL1 (number : UInt64) : BlockID := { BlockID.zero with number }

def sampleL2 (number l1Origin : UInt64) : L2BlockRef :=
  { L2BlockRef.zero with number,l1Origin := sampleL1 l1Origin }

def sampleDB : SafeDB :=
  (SafeDB.safeHeadUpdated [] (sampleL2 5 0) (sampleL1 10)).safeHeadUpdated (sampleL2 7 0)
    (sampleL1 20)

theorem sampleDB_reaches (h₁ : allowed (sampleL1 10)) (h₂ : allowed (sampleL1 20)) :
    Reaches (Change allowed 0) [] sampleDB :=
  .tail (.single (.updated h₁ (by simp) (by simp))) (.updated h₂ (by decide) (by decide))

theorem safeHeadReset_min_sample : (sampleDB.safeHeadReset (sampleL2 6 0)).safeHeadAtL1 30 =
    some ⟨sampleL1 20,(sampleL2 6 0).id⟩ := by
  have hrun : Reaches (Change (·.number < 2 ^ 63) 0) [] sampleDB :=
    sampleDB_reaches (by decide +kernel) (by decide +kernel)
  rw [(safeHeadReset_min hrun (by unfold Fits; decide)).1]
  rfl

/-- A reset to a block that an entry from before its L1 origin has reached leaves L2 numbers that
descend, and the next reset then drops an entry that is below its block. -/
theorem safeHeadReset_unfit :
    let db := sampleDB.safeHeadReset (sampleL2 3 15)
    Fits (sampleL2 4 0) db ∧ (db.safeHeadAtL1 20).map (·.l2.number) = some 3 ∧
      ((db.safeHeadReset (sampleL2 4 0)).safeHeadAtL1 20).map (·.l2.number) = none := by
  unfold Fits
  decide

theorem walkBack_reached (hs : Sound allowed db) (hg : ∀ e ∈ db,low < e.l1.number) (he : e ∈ db)
    (hreach : n ≤ e.l2.number) : db.walkBack low n e.l1 = reached n db := by
  generalize hc : e.l1 = cursor
  fun_induction walkBack db low n cursor generalizing e with
  | case1 cursor h => grind
  | case2 cursor h hnone =>
    have hnone := find?_eq_none.mp hnone
    rw [reached_first hs.sorted ⟨he,hreach,by grind⟩]
    grind
  | case3 cursor h prev hprev hle ih => exact ih (mem_of_find?_eq_some hprev) hle rfl
  | case4 cursor h prev hprev hlt =>
    have hmax := (safeHeadAtL1_some hs.sorted).mp hprev
    rw [reached_first hs.sorted ⟨he,hreach,by grind [Sound]⟩]
    grind

abbrev AfterGenesis (genesisL1 b : BlockID) : Prop :=
  genesisL1.number < b.number ∧ b.number < 2 ^ 63

theorem l1AtSafeHead_reached (hs : Sound (AfterGenesis genesisL1) db) (ht : target ≠ genesisL2) :
    db.l1AtSafeHead genesisL1 genesisL2 target = reached target.number db := by
  have hbounds := hs.allowed
  rw [l1AtSafeHead,if_neg ht]
  split
  · exact (reached_none (by grind [safeHeadAtL1])).symm
  rename_i latest hlatest
  obtain ⟨hmem,-,hmax⟩ := (safeHeadAtL1_some hs.sorted).mp hlatest
  split
  · exact (reached_none (by grind [Sound])).symm
  · exact walkBack_reached hs (by grind) hmem (by grind)

/-- The entry is kept, or the change records another L2 block for its L1 block. -/
theorem Change.reached (h : Change allowed low db db') (hs : Sound allowed db)
    (hr : reached low db = .ok b) : reached low db' = .ok b := by
  obtain ⟨e,he,hl1,hprev⟩ := (reached_ok hs.sorted).mp hr
  refine (reached_ok (h.sound hs).sorted).mpr ?_
  cases h with
  | @updated safeHead l1Head hallowed hhead hl2 =>
    rcases hhead e he.mem with hlt | heq
    · refine ⟨e,⟨?_,?_,?_⟩,?_,?_⟩ <;> grind [IsFirst,safeHeadUpdated]
    · refine ⟨⟨l1Head,safeHead.id⟩,⟨?_,?_,?_⟩,?_,?_⟩ <;>
        grind [IsFirst,safeHeadUpdated,L2BlockRef.id]
  | @reset s hlow hfits =>
    rcases reset_cases hs.sorted hfits with ⟨-,heq⟩ | ⟨a,ha,hmem⟩
    · grind
    have hle : e.l1.number ≤ a.l1.number := by grind [IsFirst]
    rcases UInt64.lt_or_eq_of_le hle with hlt | heq
    · refine ⟨e,⟨?_,?_,?_⟩,?_,?_⟩ <;> grind [IsFirst]
    · refine ⟨⟨a.l1,s.id⟩,⟨?_,?_,?_⟩,?_,?_⟩ <;> grind [IsFirst,L2BlockRef.id,Sound]

theorem l1AtSafeHead_stable (h : Reaches (Change (AfterGenesis genesisL1) 0) [] db)
    (ht : target ≠ genesisL2) :
    db.l1AtSafeHead genesisL1 genesisL2 target = reached target.number db ∧
    ∀ b,db.l1AtSafeHead genesisL1 genesisL2 target = .ok b →
      ∀ db',Reaches (Change (AfterGenesis genesisL1) target.number) db db' →
        db'.l1AtSafeHead genesisL1 genesisL2 target = .ok b := by
  have hs := sound_of_reaches h
  refine ⟨l1AtSafeHead_reached hs ht,fun b hb db' hreach => ?_⟩
  rw [l1AtSafeHead_reached hs ht] at hb
  have hkept := hreach.invariant (P := fun db => Sound _ db ∧ reached target.number db = .ok b)
    ⟨hs,hb⟩ fun _ _ hx hstep => ⟨hstep.sound hx.1,hstep.reached hx.1 hx.2⟩
  rw [l1AtSafeHead_reached hkept.1 ht,hkept.2]

theorem l1AtSafeHead_stable_sample :
    let reset := sampleDB.safeHeadReset (sampleL2 6 0)
    sampleDB.l1AtSafeHead BlockID.zero BlockID.zero (sampleL1 6) = .ok (sampleL1 20) ∧
      reset.l1AtSafeHead BlockID.zero BlockID.zero (sampleL1 6) = .ok (sampleL1 20) := by
  have hrun : Reaches (Change (AfterGenesis BlockID.zero) 0) [] sampleDB :=
    sampleDB_reaches (by decide +kernel) (by decide +kernel)
  have hne : sampleL1 6 ≠ BlockID.zero := by decide
  obtain ⟨heq,hstable⟩ := l1AtSafeHead_stable hrun hne
  have hreached : reached 6 sampleDB = .ok (sampleL1 20) := rfl
  have hok := heq.trans hreached
  exact ⟨hok,hstable _ hok _ (.single (.reset (by decide) (by unfold Fits; decide)))⟩

end OpStack.Proofs.SafeHeads
