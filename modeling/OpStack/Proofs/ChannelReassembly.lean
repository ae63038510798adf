import OpStack.Derive.Channel
import OpStack.Lib.Outcome

namespace OpStack.Proofs.ChannelReassembly
open Lib Eth Derive Frame Channel List Reader Nat UInt16

variable {f : Frame} {id : ChannelID} {bs rest : Bytes} {n : Nat} {fs : List Frame}

theorem readChannelID_reads (id : ChannelID) : Reader.Reads readChannelID id.bytes id := by
  have hr := full_reads_of_length id.size FrameError.readingChannelID
  intro rest
  unfold readChannelID
  rw [bind_eq,hr rest]
  simp only [FixedBytes.ofBytes?_bytes]
  rfl

theorem full_reads_beBytes (k n : Nat) (e : FrameError) :
    Reader.Reads (full k e) (beBytes k n) (beBytes k n) :=
  full_reads_of_length (beBytes_length k n) e

theorem readFrameLength_reads (h : n ≤ maxFrameLen) :
    Reader.Reads readFrameLength (beBytes 4 n) n := by
  have hof : ofBe (beBytes 4 n) = n := by
    refine ofBe_beBytes ?_
    unfold maxFrameLen at h
    omega
  intro rest
  unfold readFrameLength
  rw [bind_eq,full_reads_beBytes 4 n _ rest]
  simp only [hof]
  rw [if_neg (not_lt.mpr h)]
  rfl

theorem readFrameLength_rejects (h : maxFrameLen < n) (hn : n < 2 ^ 32) :
    Reader.Rejects readFrameLength (beBytes 4 n) (.frameDataLengthTooLarge n) := by
  have hof : ofBe (beBytes 4 n) = n := ofBe_beBytes hn
  intro rest
  unfold readFrameLength
  rw [bind_eq,full_reads_beBytes 4 n _ rest]
  simp only [hof]
  rw [if_pos h]
  rfl

theorem readIsLast_reads (b : Bool) : Reader.Reads readIsLast [if b then 1 else 0] b := by
  intro rest
  cases b with
  | true => rfl
  | false => rfl

theorem ofNat_ofBe_beBytes (n : UInt16) : .ofNat (ofBe (beBytes 2 n.toNat)) = n := by
  rw [ofBe_beBytes n.toNat_lt,UInt16.ofNat_toNat]

theorem unmarshalBinary_reads (h : f.data.length ≤ maxFrameLen) :
    Reader.Reads unmarshalBinary f.marshalBinary f := by
  have hmod : f.data.length % 2 ^ 32 = f.data.length := by
    unfold maxFrameLen at h
    omega
  unfold marshalBinary
  rw [hmod]
  refine (readChannelID_reads f.id).bind ?_
  refine (full_reads_beBytes 2 f.frameNumber.toNat _).bind ?_
  refine (readFrameLength_reads h).bind ?_
  refine (full_reads f.data _).bind ?_
  rw [ofNat_ofBe_beBytes]
  exact (readIsLast_reads f.isLast).map fun isLast => (⟨f.id,f.frameNumber,f.data,isLast⟩ : Frame)

theorem unmarshalBinary_rejects (h : maxFrameLen < f.data.length) (hlen : f.data.length < 2 ^ 32) :
    Reader.Rejects unmarshalBinary f.marshalBinary (.frameDataLengthTooLarge f.data.length) := by
  unfold marshalBinary
  rw [mod_eq_of_lt hlen]
  refine (readChannelID_reads f.id).bind_rejects ?_
  refine (full_reads_beBytes 2 f.frameNumber.toNat _).bind_rejects ?_
  exact ((readFrameLength_rejects h hlen).bind).append _

theorem marshalBinary_length (f : Frame) :
    f.marshalBinary.length = f.data.length + frameV0OverHeadSize := by
  unfold marshalBinary frameV0OverHeadSize
  simp only [length_append,f.id.size,beBytes_length,length_singleton]
  omega

theorem marshalBinary_cons (f : Frame) : ∃ b bs,f.marshalBinary = b::bs := by
  cases hm : f.marshalBinary with
  | nil =>
    have hlen := marshalBinary_length f
    rw [hm] at hlen
    simp [frameV0OverHeadSize] at hlen
  | cons b bs => exact ⟨b,bs,rfl⟩

theorem readChannelID_ok (h : readChannelID bs = .ok (id,rest)) : bs = id.bytes ++ rest := by
  obtain ⟨buf,mid,hfu,hid⟩ := bind_ok h
  obtain ⟨hsz,hbs⟩ := full_ok hfu
  simp only [FixedBytes.ofBytes?,hsz] at hid
  cases hid
  exact hbs

theorem readFrameLength_ok (h : readFrameLength bs = .ok (n,rest)) :
    n ≤ maxFrameLen ∧ bs = beBytes 4 n ++ rest := by
  obtain ⟨buf,mid,hfu,hn⟩ := bind_ok h
  obtain ⟨hsz,hbs⟩ := full_ok hfu
  split at hn
  · cases hn
  rename_i hle
  cases hn
  exact ⟨not_lt.mp hle,by rw [hbs,← hsz,beBytes_ofBe]⟩

theorem readIsLast_ok {b : Bool} (h : readIsLast bs = .ok (b,rest)) :
    bs = (if b then 1 else 0)::rest := by
  obtain ⟨v,mid,hbyte,hb⟩ := bind_ok h
  cases bs with
  | nil => cases hbyte
  | cons c bs =>
    cases hbyte
    split at hb
    · cases hb
      simp [*]
    split at hb
    · cases hb
      simp [*]
    · cases hb

theorem unmarshalBinary_ok (h : unmarshalBinary bs = .ok (f,rest)) :
    f.data.length ≤ maxFrameLen ∧ bs = f.marshalBinary ++ rest := by
  obtain ⟨id,_,hid,h⟩ := bind_ok h
  obtain ⟨number,_,hnumber,h⟩ := bind_ok h
  obtain ⟨n,_,hlength,h⟩ := bind_ok h
  obtain ⟨data,_,hda,h⟩ := bind_ok h
  obtain ⟨isLast,_,hls,h⟩ := bind_ok h
  cases h
  obtain ⟨hsz,hnumber'⟩ := full_ok hnumber
  obtain ⟨hle,hlength'⟩ := readFrameLength_ok hlength
  obtain ⟨rfl,hda'⟩ := full_ok hda
  have hof := hsz ▸ beBytes_ofBe number
  have hlt : ofBe number < 2 ^ 16 := lt_of_lt_of_eq (ofBe_lt number) (by rw [hsz]; norm_num)
  have hmod : data.length % 2 ^ 32 = data.length := by
    unfold maxFrameLen at hle
    omega
  refine ⟨hle,?_⟩
  rw [readChannelID_ok hid,hnumber',hlength',hda',readIsLast_ok hls,marshalBinary,hmod,
    toNat_ofNat_of_lt' hlt,hof]
  simp [cons_append,nil_append]

theorem nil_eq_flatMap : [] = fs.flatMap marshalBinary ↔ fs = [] := by
  cases fs with
  | nil => simp
  | cons f fs =>
    obtain ⟨b,bs,hm⟩ := marshalBinary_cons f
    simp [hm]

theorem parseFramesLoop_ok_iff {fuel : Nat} (hfuel : bs.length ≤ fuel) :
    parseFramesLoop fuel n bs = .ok fs ↔
      (∀ f ∈ fs,f.data.length ≤ maxFrameLen) ∧ bs = fs.flatMap marshalBinary := by
  induction fuel generalizing n bs fs with
  | zero =>
    cases length_eq_zero_iff.mp (le_zero.mp hfuel)
    rw [nil_eq_flatMap]
    simp +contextual [parseFramesLoop,eq_comm]
  | succ fuel ih =>
    cases bs with
    | nil =>
      rw [nil_eq_flatMap]
      simp +contextual [parseFramesLoop,eq_comm]
    | cons b bs =>
      unfold parseFramesLoop
      constructor
      · intro h
        cases hf : unmarshalBinary (b::bs) with
        | error e => simp [hf] at h
        | ok p =>
          obtain ⟨f,rest⟩ := p
          obtain ⟨hle,hbs⟩ := unmarshalBinary_ok hf
          have hlen := congrArg length hbs
          rw [length_append,marshalBinary_length,frameV0OverHeadSize] at hlen
          simp only [hf] at h
          obtain ⟨fs',hlp,h⟩ := of_bind_ok h
          cases h
          obtain ⟨hall,rfl⟩ := (ih (by omega)).mp hlp
          exact ⟨forall_mem_cons.mpr ⟨hle,hall⟩,hbs⟩
      · rintro ⟨hall,hbs⟩
        cases fs with
        | nil => cases hbs
        | cons f fs =>
          obtain ⟨hle,hall⟩ := forall_mem_cons.mp hall
          have hlen := congrArg length hbs
          rw [flatMap_cons,length_append,marshalBinary_length,frameV0OverHeadSize] at hlen
          rw [hbs,flatMap_cons,unmarshalBinary_reads hle]
          simp [(ih (by omega)).mpr ⟨hall,rfl⟩]

theorem parseFrames_marshalBinary (h : f.data.length ≤ maxFrameLen) :
    parseFrames (derivationVersion0::f.marshalBinary) = .ok [f] := by
  have hlp : parseFramesLoop f.marshalBinary.length 0 f.marshalBinary = .ok [f] :=
    (parseFramesLoop_ok_iff (le_refl _)).mpr ⟨by simpa using h,by simp⟩
  simp [parseFrames,hlp]

/-- The frames of a transaction and its bytes determine each other. -/
theorem parseFrames_ok_iff (d : Bytes) (fs : List Frame) :
    parseFrames d = .ok fs ↔ fs ≠ [] ∧ (∀ f ∈ fs,f.data.length ≤ maxFrameLen) ∧
      d = derivationVersion0::fs.flatMap marshalBinary := by
  cases d with
  | nil => simp [parseFrames]
  | cons version buf =>
    rw [parseFrames]
    split
    · rename_i hver
      simp [hver]
    rename_i hver
    constructor
    · intro h
      obtain ⟨frames,hlp,h⟩ := of_bind_ok h
      split at h
      · cases h
      rename_i hne
      cases h
      obtain ⟨hall,rfl⟩ := (parseFramesLoop_ok_iff (le_refl _)).mp hlp
      exact ⟨hne,hall,by rw [not_not.mp hver]⟩
    · rintro ⟨hne,hall,hd⟩
      cases hd
      rw [(parseFramesLoop_ok_iff (le_refl _)).mpr ⟨hall,rfl⟩]
      exact if_neg hne

theorem parseFrames_too_large (h : maxFrameLen < f.data.length) (hlen : f.data.length < 2 ^ 32) :
    parseFrames (derivationVersion0::f.marshalBinary) =
      .error (.parsingFrame 0 (.frameDataLengthTooLarge f.data.length)) := by
  obtain ⟨b,bs,hm⟩ := marshalBinary_cons f
  have hrd := unmarshalBinary_rejects h hlen []
  rw [append_nil,hm] at hrd
  have hlp : parseFramesLoop f.marshalBinary.length 0 f.marshalBinary =
      .error (.parsingFrame 0 (.frameDataLengthTooLarge f.data.length)) := by
    rw [hm]
    unfold parseFramesLoop
    simp [hrd]
  simp [parseFrames,hlp]

variable {frames : List Frame} {ch : Channel} {rest : List Frame} {ins : List (Frame × L1BlockRef)}

structure Fed (id : ChannelID) (frames : List Frame) (ch : Channel) : Prop where
  id_eq : ch.id = id
  inOrder : ch.requireInOrder = true
  count : ch.inputs.keys.length = frames.length
  lookup : ∀ i,ch.inputs.lookup i = frames[i]?
  highest : ch.highestFrameNumber.toNat ≤ frames.length

theorem newChannel_fed (id : ChannelID) (openBlock : L1BlockRef) :
    Fed id [] (newChannel id openBlock true) :=
  ⟨rfl,rfl,rfl,fun _ => rfl,le_refl 0⟩

theorem Fed.not_mem (h : Fed id frames ch) : frames.length ∉ ch.inputs := by
  intro hmem
  have hso := AList.lookup_isSome.mpr hmem
  simp [h.lookup] at hso

section
variable (h : Fed id frames ch) (hnum : f.frameNumber.toNat = frames.length)
include h hnum

theorem Fed.insert {ch' : Channel} (hid : ch'.id = ch.id)
    (horder : ch'.requireInOrder = ch.requireInOrder)
    (hinputs : ch'.inputs = ch.inputs.insert f.frameNumber.toNat f)
    (hhigh : ch'.highestFrameNumber.toNat ≤ frames.length + 1) : Fed id (frames ++ [f]) ch' := by
  refine ⟨hid.trans h.id_eq,horder.trans h.inOrder,?_,?_,?_⟩
  · simp [hinputs,hnum,List.erase_of_not_mem h.not_mem,h.count]
  · intro i
    rw [hinputs,hnum]
    by_cases hi : i = frames.length
    · rw [hi,AList.lookup_insert,getElem?_concat_length]
    rw [AList.lookup_insert_ne hi,h.lookup]
    rcases lt_or_ge i frames.length with hlt | hge
    · rw [getElem?_append_left hlt]
    rw [getElem?_eq_none hge,getElem?_eq_none]
    simp only [length_append,length_singleton]
    omega
  · rw [length_append]
    exact hhigh

theorem Fed.keeps : ¬ (f.isLast = true ∧ f.frameNumber < ch.highestFrameNumber) := by
  rintro ⟨-,hlt⟩
  rw [lt_iff_toNat_lt,hnum] at hlt
  exact not_lt.mpr h.highest hlt

theorem insertFrame_fed (hopen : ch.closed = false) (l1 : L1BlockRef) :
    Fed id (frames ++ [f]) (ch.insertFrame f l1) ∧ (ch.insertFrame f l1).closed = f.isLast ∧
      (f.isLast = true → (ch.insertFrame f l1).endFrameNumber = f.frameNumber) := by
  have hle := h.highest
  rw [insertFrame_eq_of_keeps l1 (h.keeps hnum)]
  refine ⟨h.insert hnum rfl rfl rfl ?_,?_,fun hl => if_pos hl⟩
  · dsimp only
    split
    · omega
    · omega
  · rw [hopen,Bool.false_or]

theorem addFrame_next (hid : f.id = id) (hopen : ch.closed = false) (l1 : L1BlockRef) :
    ch.addFrame f l1 = .ok (ch.insertFrame f l1) := by
  unfold addFrame
  have hnot : f.frameNumber.toNat ∉ ch.inputs := by
    rw [hnum]
    exact h.not_mem
  rw [if_neg (by rw [hid,h.id_eq]; simp),if_neg (by rw [hopen]; simp),if_neg hnot,
    if_neg (by rw [hopen]; simp),if_neg (by rw [hnum,h.count]; simp)]

end

def Numbered (id : ChannelID) (n : Nat) (frames : List Frame) : Prop :=
  ∀ i f,frames[i]? = some f → f.id = id ∧ f.frameNumber = ofNat (n + i)

theorem Numbered.head (h : Numbered id n (f::rest)) :
    f.id = id ∧ f.frameNumber = ofNat n := h 0 f rfl

theorem Numbered.tail (h : Numbered id n (f::rest)) : Numbered id (n + 1) rest := by
  intro i g hg
  have hnx := h (i + 1) g hg
  rw [add_assoc,add_comm 1]
  exact hnx

theorem addFrames_open (h : Fed id frames ch)
    (hopen : ch.closed = false) (hnum : Numbered id frames.length (ins.map Prod.fst))
    (hlen : frames.length + ins.length ≤ 2 ^ 16) (hlast : ∀ p ∈ ins,p.1.isLast = false) :
    ∃ ch',ch.addFrames ins = .ok ch' ∧ Fed id (frames ++ ins.map Prod.fst) ch' ∧
      ch'.closed = false := by
  induction ins generalizing ch frames with
  | nil =>
    refine ⟨ch,rfl,?_,hopen⟩
    rw [map_nil,append_nil]
    exact h
  | cons p rest ih =>
    obtain ⟨f,l1⟩ := p
    rw [length_cons] at hlen
    obtain ⟨hid,hfn⟩ := hnum.head
    have hn : f.frameNumber.toNat = frames.length := by
      rw [hfn,toNat_ofNat']
      omega
    obtain ⟨hfed,hcl,-⟩ := insertFrame_fed h hn hopen l1
    rw [hlast (f,l1) mem_cons_self] at hcl
    have htl : Numbered id (frames ++ [f]).length (rest.map Prod.fst) := by
      rw [length_append]
      exact hnum.tail
    obtain ⟨ch',hadd,hfed',hopen'⟩ := ih hfed hcl htl
      (by rw [length_append,length_singleton]; omega)
      fun q hq => hlast q (mem_cons_of_mem _ hq)
    refine ⟨ch',?_,?_,hopen'⟩
    · unfold addFrames
      rw [addFrame_next h hn hid hopen l1]
      exact hadd
    · rw [map_cons,append_cons]
      exact hfed'

theorem foldrM_lookup (inputs : AList (fun _ : Nat => Frame)) (frames : List Frame)
    (h : ∀ i,inputs.lookup i = frames[i]?) (hn : n ≤ frames.length) :
    (range n).foldrM (fun i data => (inputs.lookup i).map fun frame => frame.data ++ data)
      ((frames.drop n).flatMap data) = some (frames.flatMap data) := by
  induction n with
  | zero => rfl
  | succ n ih =>
    have hlt := hn
    have hst : [n].foldrM (fun i data => (inputs.lookup i).map fun frame => frame.data ++ data)
        ((frames.drop (n + 1)).flatMap data) =
        some ((frames.drop n).flatMap data) := by
      rw [drop_eq_getElem_cons hlt,flatMap_cons]
      simp [h,getElem?_eq_getElem hlt]
    rw [range_succ,foldrM_append,hst]
    exact ih (le_of_lt hlt)

theorem addFrame_last (h : Fed id frames ch) (hid : f.id = id)
    (hnum : f.frameNumber.toNat = frames.length) (hopen : ch.closed = false)
    (hlast : f.isLast = true) (l1 : L1BlockRef) :
    ∃ ch',ch.addFrame f l1 = .ok ch' ∧ ch'.isReady = true ∧
      ch'.reader = some ((frames ++ [f]).flatMap data) := by
  obtain ⟨hfed,hcl,hend⟩ := insertFrame_fed h hnum hopen l1
  refine ⟨ch.insertFrame f l1,addFrame_next h hnum hid hopen l1,?_,?_⟩
  · have hall : ∀ i ∈ range (frames.length + 1),
        ((ch.insertFrame f l1).inputs.lookup i).isSome = true := by
      intro i hi
      rw [mem_range] at hi
      rw [hfed.lookup,getElem?_eq_getElem (by simp; omega)]
      rfl
    unfold isReady
    rw [hcl,hend hlast,hnum,hfed.count,hlast,length_append,all_eq_true.mpr hall]
    simp
  · have hrd := foldrM_lookup (ch.insertFrame f l1).inputs (frames ++ [f]) hfed.lookup (le_refl _)
    rw [drop_length,length_append] at hrd
    unfold reader
    rw [hend hlast,hnum]
    exact hrd

theorem addFrames_append {ch ch' : Channel} (ins rest : List (Frame × L1BlockRef))
    (h : ch.addFrames ins = .ok ch') : ch.addFrames (ins ++ rest) = ch'.addFrames rest := by
  induction ins generalizing ch with
  | nil =>
    cases h
    rfl
  | cons p ins ih =>
    obtain ⟨ch1,hadd,h⟩ := of_bind_ok h
    rw [cons_append,addFrames,hadd]
    exact ih h

structure Complete (id : ChannelID) (frames : List Frame) : Prop where
  numbered : Numbered id 0 frames
  bound : frames.length ≤ 2 ^ 16
  last : ∃ init f,frames = init ++ [f] ∧ f.isLast = true ∧ ∀ g ∈ init,g.isLast = false

theorem addFrames_complete (openBlock : L1BlockRef)
    (h : Complete id (ins.map Prod.fst)) : (∀ k < ins.length,∃ ch,
      (newChannel id openBlock true).addFrames (ins.take k) = .ok ch ∧ ch.isReady = false) ∧
    ∃ ch,(newChannel id openBlock true).addFrames ins = .ok ch ∧ ch.isReady = true ∧
      ch.reader = some ((ins.map Prod.fst).flatMap data) := by
  obtain ⟨init,f,hsp,hls,hinit⟩ := h.last
  obtain ⟨ins',tail,rfl,hins',htl⟩ := map_eq_append_iff.mp hsp
  obtain ⟨⟨g,l1⟩,rfl,hg⟩ : ∃ p,tail = [p] ∧ p.1 = f := by
    cases tail with
    | nil => cases htl
    | cons p tail =>
      rw [map_cons,cons.injEq,map_eq_nil_iff] at htl
      exact ⟨p,by rw [htl.2],htl.1⟩
  subst hg
  have hbd := h.bound
  have hnum := h.numbered
  rw [map_append] at hnum hbd
  rw [length_append,length_map,length_map,length_singleton] at hbd
  have hpre : ∀ k ≤ ins'.length,∃ ch,
      (newChannel id openBlock true).addFrames (ins'.take k) = .ok ch ∧
        Fed id ((ins'.take k).map Prod.fst) ch ∧ ch.closed = false := by
    intro k hk
    refine addFrames_open (newChannel_fed id openBlock) rfl ?_ ?_ ?_
    · intro i f' hf'
      refine hnum i f' ?_
      rw [map_take,getElem?_take] at hf'
      split at hf'
      · rw [getElem?_append_left]
        · exact hf'
        · rw [length_map]
          omega
      · cases hf'
    · simp only [length_nil,length_take]
      omega
    · intro p hp
      refine hinit p.1 ?_
      rw [← hins']
      exact mem_map_of_mem (mem_of_mem_take hp)
  refine ⟨?_,?_⟩
  · intro k hk
    rw [length_append,length_singleton] at hk
    obtain ⟨ch,hadd,-,hop⟩ := hpre k (by omega)
    refine ⟨ch,?_,?_⟩
    · rw [take_append_of_le_length (by omega)]
      exact hadd
    unfold isReady
    simp [hop]
  obtain ⟨ch,hadd,hfed,hop⟩ := hpre ins'.length (le_refl _)
  rw [take_length] at hadd hfed
  obtain ⟨hid,hfn⟩ := hnum ins'.length g (by
    rw [getElem?_append_right (by rw [length_map]),length_map,Nat.sub_self]
    rfl)
  have hn : g.frameNumber.toNat = (ins'.map Prod.fst).length := by
    rw [hfn,toNat_ofNat',length_map]
    omega
  obtain ⟨ch',hadd',hrdy,hrdr⟩ := addFrame_last hfed hid hn hop hls l1
  refine ⟨ch',?_,hrdy,?_⟩
  · rw [addFrames_append _ _ hadd]
    simp [addFrames,hadd']
  · simp [hrdr]

end OpStack.Proofs.ChannelReassembly
