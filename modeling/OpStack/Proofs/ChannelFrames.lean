import OpStack.Lib.Lists
import OpStack.Proofs.ChannelReassembly
import OpStack.Proofs.Config

namespace OpStack.Proofs.ChannelFrames
open Lib Eth Derive ChannelReassembly AList List Nat

abbrev Inputs := AList (fun _ : Nat => Frame)

variable {ch ch' : Channel} {f : Frame} {l1 : L1BlockRef} {i : Nat}

theorem lookup_foldr_erase (e : Nat) (keys : List Nat) (inputs : Inputs) (i : Nat) :
    (keys.foldr (fun idx s => if e ≤ idx then s.erase idx else s) inputs).lookup i =
      if e ≤ i ∧ i ∈ keys then none else inputs.lookup i := by
  induction keys with
  | nil => simp
  | cons k keys ih =>
    simp only [foldr_cons,mem_cons]
    by_cases hk : e ≤ k
    · rw [if_pos hk]
      by_cases hi : i = k
      · subst hi
        rw [lookup_erase,if_pos ⟨hk,.inl rfl⟩]
      · rw [lookup_erase_ne hi,ih]
        simp [hi]
    rw [if_neg hk,ih]
    have hne : e ≤ i → i ≠ k := by
      rintro hi rfl
      exact hk hi
    by_cases hi : e ≤ i
    · simp [hne hi]
    · simp [hi]

theorem pruneInputs_lookup (ch : Channel) (i : Nat) : ch.pruneInputs.inputs.lookup i =
    if ch.endFrameNumber.toNat ≤ i then none else ch.inputs.lookup i := by
  unfold Channel.pruneInputs
  rw [lookup_foldr_erase]
  by_cases hi : ch.endFrameNumber.toNat ≤ i
  · rw [if_pos hi]
    by_cases hmem : i ∈ ch.inputs.keys
    · rw [if_pos ⟨hi,hmem⟩]
    · rw [if_neg (fun h => hmem h.2)]
      exact lookup_eq_none.mpr hmem
  · rw [if_neg hi,if_neg (fun h => hi h.1)]

def Prunes (ch : Channel) (f : Frame) : Prop :=
  f.isLast = true ∧ f.frameNumber < ch.highestFrameNumber

instance : Decidable (Prunes ch f) := inferInstanceAs (Decidable (_ ∧ _))

structure Inserted (ch : Channel) (f : Frame) (ch' : Channel) : Prop where
  id : ch'.id = ch.id
  inOrder : ch'.requireInOrder = ch.requireInOrder
  closed : ch'.closed = (ch.closed || f.isLast)
  endFrame : ch'.endFrameNumber = if f.isLast then f.frameNumber else ch.endFrameNumber
  highest : ch'.highestFrameNumber = if Prunes ch f then f.frameNumber
    else if ch.highestFrameNumber < f.frameNumber then f.frameNumber else ch.highestFrameNumber
  lookup : ∀ i,ch'.inputs.lookup i = if i = f.frameNumber.toNat then some f
    else if Prunes ch f ∧ f.frameNumber.toNat ≤ i then none else ch.inputs.lookup i

theorem lookup_insert (inputs : Inputs) (k i : Nat) (f : Frame) :
    (inputs.insert k f).lookup i = if i = k then some f else inputs.lookup i := by
  by_cases hi : i = k
  · rw [hi,if_pos rfl,AList.lookup_insert]
  · rw [if_neg hi,AList.lookup_insert_ne hi]

theorem insertFrame_inserted (ch : Channel) (f : Frame) (l1 : L1BlockRef) :
    Inserted ch f (ch.insertFrame f l1) := by
  by_cases hp : Prunes ch f
  · rw [Channel.insertFrame_eq_of_prunes l1 hp.1 hp.2]
    constructor
    case id => rfl
    case inOrder => rfl
    case closed => rw [hp.1,Bool.or_true]
    case endFrame => rw [if_pos hp.1]
    case highest => rw [if_pos hp]
    case lookup =>
      intro i
      simp only [lookup_insert,pruneInputs_lookup,hp,true_and]
      rfl
  · rw [Channel.insertFrame_eq_of_keeps l1 hp]
    constructor
    case id => rfl
    case inOrder => rfl
    case closed => rfl
    case endFrame => rfl
    case highest => rw [if_neg hp]
    case lookup =>
      simp [lookup_insert,hp]

structure Taken (ch : Channel) (f : Frame) : Prop where
  id : f.id = ch.id
  fresh : f.frameNumber.toNat ∉ ch.inputs
  open_last : f.isLast = true → ch.closed = false
  below_end : ch.closed = true → f.frameNumber < ch.endFrameNumber
  next : ch.requireInOrder = true → f.frameNumber.toNat = ch.inputs.keys.length

theorem addFrame_ok_iff : ch.addFrame f l1 = .ok ch' ↔ Taken ch f ∧ ch' = ch.insertFrame f l1 := by
  simp only [Channel.addFrame,unless_ok_iff,not_and,not_not,Bool.not_eq_true,UInt16.not_le,
    Except.ok.injEq]
  constructor
  · rintro ⟨hid,hls,hfr,hend,hod,h⟩
    exact ⟨⟨hid,hfr,hls,hend,hod⟩,h.symm⟩
  · rintro ⟨h,rfl⟩
    exact ⟨h.id,h.open_last,h.fresh,h.below_end,h.next,rfl⟩

def feed (ch : Channel) (f : Frame) (l1 : L1BlockRef) : Channel :=
  match ch.addFrame f l1 with
  | .ok ch' => ch'
  | .error _ => ch

def Step (ch ch' : Channel) : Prop := ∃ f l1,ch' = feed ch f l1

theorem feed_taken (h : Taken ch f) : feed ch f l1 = ch.insertFrame f l1 := by
  unfold feed
  rw [addFrame_ok_iff.mpr ⟨h,rfl⟩]

theorem feed_refused (h : ¬ Taken ch f) : feed ch f l1 = ch := by
  unfold feed
  cases hadd : ch.addFrame f l1 with
  | error e => rfl
  | ok ch' => exact absurd (addFrame_ok_iff.mp hadd).1 h

structure Bounded (ch : Channel) : Prop where
  highest : ∀ i ∈ ch.inputs,i ≤ ch.highestFrameNumber.toNat
  below : ch.closed = true → ∀ i ∈ ch.inputs,i ≤ ch.endFrameNumber.toNat

theorem newChannel_bounded (id : ChannelID) (openBlock : L1BlockRef) (inOrder : Bool) :
    Bounded (.newChannel id openBlock inOrder) := by
  constructor
  · nofun
  · nofun

theorem Inserted.mem_iff (h : Inserted ch f ch') : i ∈ ch'.inputs ↔
    i = f.frameNumber.toNat ∨ i ∈ ch.inputs ∧ (Prunes ch f → i < f.frameNumber.toNat) := by
  rw [← lookup_isSome,h.lookup,← lookup_isSome]
  grind

theorem Inserted.bounded (h : Inserted ch f ch') (ht : Taken ch f) (hb : Bounded ch) :
    Bounded ch' := by
  constructor
  · intro i hi
    rw [h.highest]
    rcases h.mem_iff.mp hi with rfl | ⟨hi,hlt⟩
    · split
      · exact le_refl _
      split
      · exact le_refl _
      · exact UInt16.le_iff_toNat_le.mp (UInt16.not_lt.mp ‹_›)
    have hle := hb.highest i hi
    split
    · exact le_of_lt (hlt ‹_›)
    split
    · rename_i hlt'
      exact le_trans hle (le_of_lt (UInt16.lt_iff_toNat_lt.mp hlt'))
    · exact hle
  intro hc i hi
  rw [h.closed] at hc
  rw [h.endFrame]
  cases hl : f.isLast with
  | true =>
    rcases h.mem_iff.mp hi with rfl | ⟨hi,hlt⟩
    · exact le_refl _
    by_cases hp : Prunes ch f
    · exact le_of_lt (hlt hp)
    -- nothing is above the closing frame
    have hhigh : ¬ f.frameNumber < ch.highestFrameNumber := fun hlt => hp ⟨hl,hlt⟩
    exact le_trans (hb.highest i hi) (UInt16.le_iff_toNat_le.mp (UInt16.not_lt.mp hhigh))
  | false =>
    rw [hl,Bool.or_false] at hc
    rcases h.mem_iff.mp hi with rfl | ⟨hi,-⟩
    · exact le_of_lt (UInt16.lt_iff_toNat_lt.mp (ht.below_end hc))
    · exact hb.below hc i hi

theorem step_bounded (h : Step ch ch') (hb : Bounded ch) : Bounded ch' := by
  obtain ⟨f,l1,rfl⟩ := h
  by_cases ht : Taken ch f
  · rw [feed_taken ht]
    exact (insertFrame_inserted ch f l1).bounded ht hb
  · rw [feed_refused ht]
    exact hb

theorem nodup_length_of_mem_iff {keys : List Nat} {n : Nat} (hd : keys.Nodup)
    (h : ∀ i,i ∈ keys ↔ i < n) : keys.length = n := by
  have hpm : keys.Perm (range n) := by
    rw [perm_ext_iff_of_nodup hd nodup_range]
    intro i
    rw [h,mem_range]
  rw [hpm.length_eq,length_range]

/-- A closed channel is ready exactly when all frames up to the last one are there. -/
theorem Bounded.isReady_iff (hb : Bounded ch) (hc : ch.closed = true) :
    ch.isReady = true ↔ ∀ i ≤ ch.endFrameNumber.toNat,i ∈ ch.inputs := by
  unfold Channel.isReady
  rw [hc,Bool.true_and,Bool.and_eq_true,decide_eq_true_eq,all_eq_true]
  constructor
  · rintro ⟨-,hall⟩ i hi
    exact lookup_isSome.mp (hall i (mem_range.mpr (lt_succ_of_le hi)))
  intro hall
  constructor
  · refine nodup_length_of_mem_iff ch.inputs.keys_nodup fun i => ?_
    constructor
    · intro hi
      exact lt_succ_of_le (hb.below hc i hi)
    · intro hi
      exact hall i (le_of_lt_succ hi)
  · intro i hi
    exact lookup_isSome.mpr (hall i (le_of_lt_succ (mem_range.mp hi)))

variable {id : ChannelID} {parts : List Frame}

/-- A frame of the same channel that is not one of its parts: a non-last one numbered above them, or
one that repeats the number of a stored frame. -/
def Extra (id : ChannelID) (parts : List Frame) (ch : Channel) (f : Frame) : Prop :=
  f.id = id ∧
    ((f.isLast = false ∧ parts.length ≤ f.frameNumber.toNat) ∨ f.frameNumber.toNat ∈ ch.inputs)

def Arrives (id : ChannelID) (parts : List Frame) : Channel → List (Frame × L1BlockRef) → Prop
  | _,[] => True
  | ch,(f,l1)::rest => (f ∈ parts ∨ Extra id parts ch f) ∧ Arrives id parts (feed ch f l1) rest

def feedAll (ch : Channel) (ins : List (Frame × L1BlockRef)) : Channel :=
  ins.foldl (fun ch p => feed ch p.1 p.2) ch

/-- A channel on the way to its parts: those of `seen` are stored. -/
structure Collects (id : ChannelID) (parts seen : List Frame) (ch : Channel) : Prop where
  id_eq : ch.id = id
  anyOrder : ch.requireInOrder = false
  bounded : Bounded ch
  part : ∀ i f,ch.inputs.lookup i = some f → i < parts.length → parts[i]? = some f
  stored : ∀ i f,parts[i]? = some f → f ∈ seen → ch.inputs.lookup i = some f
  closes : ∀ f ∈ seen,f ∈ parts → f.isLast = true → ch.closed = true
  ends : ch.closed = true → ch.endFrameNumber.toNat + 1 = parts.length ∧
    ch.endFrameNumber.toNat ∈ ch.inputs
  opened : ch.closed = false → parts.length - 1 ∉ ch.inputs

theorem newChannel_collects (id : ChannelID) (openBlock : L1BlockRef) (parts : List Frame) :
    Collects id parts [] (.newChannel id openBlock false) := by
  refine ⟨rfl,rfl,newChannel_bounded _ _ _,?_,by simp,by simp,?_,?_⟩
  · nofun
  · nofun
  · nofun

theorem part_number (h : Complete id parts) {i : Nat} (hi : parts[i]? = some f) :
    f.id = id ∧ f.frameNumber.toNat = i ∧ i < parts.length ∧
      (f.isLast = true ↔ i + 1 = parts.length) := by
  obtain ⟨hid,hnum⟩ := h.numbered i f hi
  obtain ⟨hlt,-⟩ := List.getElem?_eq_some_iff.mp hi
  have hbd := h.bound
  refine ⟨hid,?_,hlt,?_⟩
  · rw [hnum,UInt16.toNat_ofNat']
    omega
  obtain ⟨init,g,rfl,hg,hinit⟩ := h.last
  rcases getElem?_concat_cases hi with hi | ⟨rfl,rfl⟩
  · obtain ⟨hlt,-⟩ := List.getElem?_eq_some_iff.mp hi
    rw [hinit f (List.mem_of_getElem? hi)]
    simp
    omega
  · simp [hg]

variable {seen : List Frame}

theorem Collects.skip (h : Collects id parts seen ch) (hf : f ∉ parts) :
    Collects id parts (seen ++ [f]) ch := by
  refine ⟨h.id_eq,h.anyOrder,h.bounded,h.part,?_,?_,h.ends,h.opened⟩
  · intro i x hx hmem
    rcases mem_append.mp hmem with hmem | hmem
    · exact h.stored i x hx hmem
    · rw [mem_singleton.mp hmem] at hx
      exact absurd (mem_of_getElem? hx) hf
  intro x hmem hx hl
  rcases mem_append.mp hmem with hmem | hmem
  · exact h.closes x hmem hx hl
  · rw [mem_singleton.mp hmem] at hx
    exact absurd hx hf

section
variable (hp : Complete id parts) (h : Collects id parts seen ch)
include hp h

theorem Collects.seen_more (hf : f ∈ parts) (hin : f.frameNumber.toNat ∈ ch.inputs) :
    Collects id parts (seen ++ [f]) ch := by
  obtain ⟨k,hk⟩ := mem_iff_getElem?.mp hf
  obtain ⟨-,hnum,hlt,hls⟩ := part_number hp hk
  rw [hnum] at hin
  obtain ⟨g,hg⟩ := Option.isSome_iff_exists.mp (lookup_isSome.mpr hin)
  have hgf : g = f := by
    have hpart := h.part k g hg hlt
    rw [hk] at hpart
    exact (Option.some.inj hpart).symm
  subst hgf
  refine ⟨h.id_eq,h.anyOrder,h.bounded,h.part,?_,?_,h.ends,h.opened⟩
  · intro i x hx hmem
    rcases mem_append.mp hmem with hmem | hmem
    · exact h.stored i x hx hmem
    rw [mem_singleton.mp hmem] at hx ⊢
    obtain ⟨-,hi,-,-⟩ := part_number hp hx
    rw [← hi,hnum]
    exact hg
  intro x hmem hx hl
  rcases mem_append.mp hmem with hmem | hmem
  · exact h.closes x hmem hx hl
  rw [mem_singleton.mp hmem] at hl
  -- a stored frame with the last number has closed the channel
  cases hc : ch.closed with
  | true => rfl
  | false =>
    have hout := h.opened hc
    have hk1 := hls.mp hl
    rw [← hk1] at hout
    exact absurd hin hout

theorem Collects.takes (hf : f ∈ parts)
    (hfresh : f.frameNumber.toNat ∉ ch.inputs) : Taken ch f := by
  obtain ⟨k,hk⟩ := mem_iff_getElem?.mp hf
  obtain ⟨hid,hnum,hlt,hls⟩ := part_number hp hk
  have hbe : ch.closed = true → f.frameNumber < ch.endFrameNumber := by
    intro hc
    obtain ⟨hend,hmem⟩ := h.ends hc
    have hne : f.frameNumber.toNat ≠ ch.endFrameNumber.toNat := by
      intro heq
      rw [heq] at hfresh
      exact hfresh hmem
    rw [UInt16.lt_iff_toNat_lt]
    omega
  refine ⟨hid.trans h.id_eq.symm,hfresh,?_,hbe,?_⟩
  · intro hl
    cases hc : ch.closed with
    | false => rfl
    | true =>
      have hlt' := UInt16.lt_iff_toNat_lt.mp (hbe hc)
      have hend := (h.ends hc).1
      have hk1 := hls.mp hl
      omega
  · intro ho
    simp [h.anyOrder] at ho

/-- A frame that is taken is a part, or lies above them in an open channel. -/
theorem Collects.insert (ht : Taken ch f)
    (hf : f ∈ parts ∨ f.isLast = false ∧ parts.length ≤ f.frameNumber.toNat) :
    Collects id parts (seen ++ [f]) (ch.insertFrame f l1) := by
  have hins := insertFrame_inserted ch f l1
  have hpos : 0 < parts.length := by
    obtain ⟨init,g,rfl,-⟩ := hp.last
    simp
  -- a part stands at its number, and only the last one closes the channel
  have hpl : f.frameNumber.toNat < parts.length → parts[f.frameNumber.toNat]? = some f := by
    intro hlt
    rcases hf with hf | ⟨-,hge⟩
    · obtain ⟨k,hk⟩ := mem_iff_getElem?.mp hf
      rw [(part_number hp hk).2.1]
      exact hk
    · omega
  have hls : f.isLast = true ↔ f.frameNumber.toNat + 1 = parts.length := by
    rcases hf with hf | ⟨hl,hge⟩
    · obtain ⟨k,hk⟩ := mem_iff_getElem?.mp hf
      obtain ⟨-,hnum,-,hiff⟩ := part_number hp hk
      rw [hnum]
      exact hiff
    · rw [hl]
      simp
      omega
  refine ⟨hins.id.trans h.id_eq,hins.inOrder.trans h.anyOrder,hins.bounded ht h.bounded,?_,?_,?_,?_,?_⟩
  · intro i x hx hi
    rw [hins.lookup] at hx
    split at hx
    · rename_i heq
      cases hx
      rw [heq] at hi ⊢
      exact hpl hi
    · split at hx
      · cases hx
      · exact h.part i x hx hi
  · intro i x hx hmem
    obtain ⟨-,hnum,hi,-⟩ := part_number hp hx
    rw [hins.lookup]
    by_cases heq : i = f.frameNumber.toNat
    · rw [if_pos heq]
      rw [heq] at hi
      rw [heq,hpl hi] at hx
      exact hx
    have hkp : ¬ (Prunes ch f ∧ f.frameNumber.toNat ≤ i) := by
      rintro ⟨⟨hl,-⟩,hle⟩
      have hend := hls.mp hl
      omega
    rw [if_neg heq,if_neg hkp]
    rcases mem_append.mp hmem with hmem | hmem
    · exact h.stored i x hx hmem
    · rw [mem_singleton.mp hmem] at hnum
      exact absurd hnum.symm heq
  · intro x hmem hx hl
    rw [hins.closed]
    rcases mem_append.mp hmem with hmem | hmem
    · simp [h.closes x hmem hx hl]
    · rw [mem_singleton.mp hmem] at hl
      rw [hl,Bool.or_true]
  · intro hc
    rw [hins.closed] at hc
    have hmem : ∀ i,i = f.frameNumber.toNat ∨ i ∈ ch.inputs ∧ f.isLast = false →
        i ∈ (ch.insertFrame f l1).inputs := by
      intro i hi
      refine lookup_isSome.mp ?_
      rw [hins.lookup]
      split
      · rfl
      rename_i hne
      obtain ⟨hi,hl⟩ := hi.resolve_left hne
      rw [if_neg (by rintro ⟨⟨hl',-⟩,-⟩; rw [hl] at hl'; cases hl')]
      exact lookup_isSome.mpr hi
    rw [hins.endFrame]
    cases hl : f.isLast with
    | true => exact ⟨hls.mp hl,hmem _ (.inl rfl)⟩
    | false =>
      rw [hl,Bool.or_false] at hc
      obtain ⟨hend,hin⟩ := h.ends hc
      exact ⟨hend,hmem _ (.inr ⟨hin,hl⟩)⟩
  · intro hc hin
    rw [hins.closed,Bool.or_eq_false_iff] at hc
    rcases hins.mem_iff.mp hin with heq | ⟨hin,-⟩
    · have hl := hls.mpr (by omega)
      simp [hc.2] at hl
    · exact h.opened hc.1 hin

theorem Collects.feed (hf : f ∈ parts ∨ Extra id parts ch f) :
    Collects id parts (seen ++ [f]) (feed ch f l1) := by
  by_cases ht : Taken ch f
  · rw [feed_taken ht]
    refine h.insert hp ht ?_
    rcases hf with hf | ⟨-,hf | hf⟩
    · exact .inl hf
    · exact .inr hf
    · exact absurd hf ht.fresh
  rw [feed_refused ht]
  by_cases hpart : f ∈ parts
  · refine h.seen_more hp hpart ?_
    by_contra hfr
    exact ht (h.takes hp hpart hfr)
  · exact h.skip hpart

/-- Once all parts have arrived, exactly they are stored. -/
theorem Collects.complete (hall : ∀ p ∈ parts,p ∈ seen) :
    (∀ i,ch.inputs.lookup i = parts[i]?) ∧ ch.isReady = true ∧
      ch.reader = some (parts.flatMap Frame.data) := by
  obtain ⟨init,g,hsp,hg,-⟩ := hp.last
  have hgmem : g ∈ parts := by simp [hsp]
  have hc := h.closes g (hall g hgmem) hgmem hg
  obtain ⟨hend,-⟩ := h.ends hc
  have hlup : ∀ i,ch.inputs.lookup i = parts[i]? := by
    intro i
    cases hi : parts[i]? with
    | some x => exact h.stored i x hi (hall x (mem_of_getElem? hi))
    | none =>
      refine lookup_eq_none.mpr fun hmem => ?_
      have hle := h.bounded.below hc i hmem
      have hge := getElem?_eq_none_iff.mp hi
      omega
  refine ⟨hlup,?_,?_⟩
  · rw [h.bounded.isReady_iff hc]
    intro i hi
    refine lookup_isSome.mp ?_
    rw [hlup,getElem?_eq_getElem (by omega)]
    rfl
  · have hrd := foldrM_lookup ch.inputs parts hlup (le_refl _)
    rw [drop_length,← hend] at hrd
    exact hrd

end

theorem Collects.feedAll (hp : Complete id parts) {ins : List (Frame × L1BlockRef)}
    (h : Collects id parts seen ch) (hins : Arrives id parts ch ins) :
    Collects id parts (seen ++ ins.map Prod.fst) (feedAll ch ins) := by
  induction ins generalizing ch seen with
  | nil => simpa [ChannelFrames.feedAll] using h
  | cons p ins ih =>
    obtain ⟨f,l1⟩ := p
    obtain ⟨hf,hrs⟩ := hins
    have hnx := ih (h.feed hp hf) hrs
    simpa [ChannelFrames.feedAll] using hnx

/-- A channel that takes frames in any order is complete once its frames have arrived, among
whatever extra frames; and the frames of any closed channel lie within its end. -/
theorem channel_order_independent :
    (∀ (id : ChannelID) (openBlock : L1BlockRef) (parts : List Frame)
      (ins : List (Frame × L1BlockRef)), Complete id parts →
      Arrives id parts (.newChannel id openBlock false) ins →
      (∀ p ∈ parts,p ∈ ins.map Prod.fst) →
      (∀ i,(feedAll (.newChannel id openBlock false) ins).inputs.lookup i = parts[i]?) ∧
      (feedAll (.newChannel id openBlock false) ins).isReady = true ∧
      (feedAll (.newChannel id openBlock false) ins).reader = some (parts.flatMap Frame.data)) ∧
    ∀ (id : ChannelID) (openBlock : L1BlockRef) (inOrder : Bool) (ch : Channel),
      Reaches Step (.newChannel id openBlock inOrder) ch →
      (ch.closed = true → (∀ i ∈ ch.inputs,i ≤ ch.endFrameNumber.toNat) ∧
        (ch.isReady = true ↔ ∀ i ≤ ch.endFrameNumber.toNat,i ∈ ch.inputs)) ∧
      (ch.closed = false → ch.isReady = false) := by
  constructor
  · intro id openBlock parts ins hp hins hall
    exact ((newChannel_collects id openBlock parts).feedAll hp hins).complete hp (by simpa using hall)
  intro id openBlock inOrder ch hrch
  have hb : Bounded ch := by
    apply hrch.invariant (newChannel_bounded id openBlock inOrder)
    intro x y hx hst
    exact step_bounded hst hx
  refine ⟨fun hc => ⟨hb.below hc,hb.isReady_iff hc⟩,fun hc => ?_⟩
  simp [Channel.isReady,hc]

def frameOf (number : UInt16) (data : Bytes) (isLast : Bool) : Frame :=
  ⟨.fill 16 1,number,data,isLast⟩

/-- The closing frame arrives before the first one, after a frame above it and with a repetition. -/
theorem channel_order_independent_sample : (feedAll (.newChannel (.fill 16 1) .zero false)
    [(frameOf 5 [9] false,.zero),(frameOf 1 [2] true,.zero),
      (frameOf 1 [8] true,.zero),(frameOf 0 [1] false,.zero)]).reader =
    some [1,2] := by
  refine (channel_order_independent.1 (.fill 16 1) L1BlockRef.zero
    [frameOf 0 [1] false,frameOf 1 [2] true] _ ?_ ?_ (by simp)).2.2
  · refine ⟨?_,by decide,[frameOf 0 [1] false],frameOf 1 [2] true,rfl,rfl,by simp [frameOf]⟩
    intro i f hf
    match i,hf with
    | 0,hf =>
      cases hf
      exact ⟨rfl,rfl⟩
    | 1,hf =>
      cases hf
      exact ⟨rfl,rfl⟩
    | _+2,hf => simp at hf
  · exact ⟨.inr ⟨rfl,.inl ⟨rfl,by decide⟩⟩,.inl (by simp),.inr ⟨rfl,.inr (by decide)⟩,.inl (by simp),
      trivial⟩

end OpStack.Proofs.ChannelFrames
