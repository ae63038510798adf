import OpStack.Derive.ForceClose
import OpStack.Proofs.ChannelFrames

namespace OpStack.Proofs.ForceClose
open Lib Eth Derive Channel ChannelReassembly ChannelFrames List

variable {id : ChannelID} {openBlock : L1BlockRef} {ch ch' : Channel} {f : Frame} {s : FrameScan}
  {frames : List Frame} {ins : List (Frame × L1BlockRef)} {i : UInt16} {n : Nat}

/-- The scan knows what the channel stores up to its last frame. -/
structure Tracks (id : ChannelID) (ch : Channel) (s : FrameScan) : Prop where
  id_eq : ch.id = id
  anyOrder : ch.requireInOrder = false
  bounded : Bounded ch
  closed : s.closed = ch.closed
  last : ch.closed = true → s.closeNumber = ch.endFrameNumber ∧ s.closeNumber ∈ s.frameNumbers
  mem : ∀ i : UInt16,(ch.closed = true → i ≤ ch.endFrameNumber) →
    (i.toNat ∈ ch.inputs ↔ i ∈ s.frameNumbers)

theorem Tracks.add (h : Tracks id ch s) (ht : Taken ch f) (hi : Inserted ch f ch') :
    Tracks id ch' (s.add f) := by
  refine ⟨hi.id.trans h.id_eq,hi.inOrder.trans h.anyOrder,hi.bounded ht h.bounded,?_,?_,?_⟩
  · rw [FrameScan.add,h.closed,hi.closed]
  · have hopen := ht.open_last
    have hend := hi.endFrame
    have hclosed := hi.closed
    have hlast := h.last
    have hs := h.closed
    grind [FrameScan.add]
  intro i hle
  have hmem := h.mem i
  have hend := hi.endFrame
  have hclosed := hi.closed
  have hbelow := ht.below_end
  rw [hi.mem_iff]
  grind [FrameScan.add,Prunes,UInt16.le_iff_toNat_le,UInt16.toNat_inj]

theorem scanFrames_tracks {i : Nat} (h : Tracks id ch s) (hadd : ch.addFrames ins = .ok ch') :
    ∃ s',scanFrames id i s (ins.map Prod.fst) = .ok s' ∧ Tracks id ch' s' := by
  induction ins generalizing ch s i with
  | nil =>
    cases hadd
    exact ⟨s,rfl,h⟩
  | cons p ins ih =>
    obtain ⟨f,l1⟩ := p
    obtain ⟨ch1,hf,hadd⟩ := of_bind_ok hadd
    obtain ⟨ht,rfl⟩ := addFrame_ok_iff.mp hf
    obtain ⟨s',hscan,hs'⟩ := ih (h.add ht (insertFrame_inserted ch f l1)) hadd
    refine ⟨s',?_,hs'⟩
    rw [map_cons,scanFrames,if_neg (by simp [ht.id,h.id_eq])]
    exact hscan

/-- The frames from number `i` on that are not among the numbers. -/
def missing (id : ChannelID) (numbers : List UInt16) : UInt16 → Nat → List Frame
  | _,0 => []
  | i,n+1 => (if i ∈ numbers then [] else [⟨id,i,[],false⟩]) ++ missing id numbers (i + 1) n

theorem succ_toNat {last : UInt16} (hle : i ≤ last) (hlast : last ≠ 65535) :
    (i + 1).toNat = i.toNat + 1 := by
  have hlt := last.toNat_lt
  have hne : last.toNat ≠ 65535 := fun h => hlast (UInt16.toNat_inj.mp h)
  have hle := UInt16.le_iff_toNat_le.mp hle
  exact Nat.mod_eq_of_lt (by simp; omega)

section
variable (hmax : s.closeNumber ≠ 65535) (hn : i.toNat + n = s.closeNumber.toNat + 1)
include hmax hn

theorem loop_fillFrame {out : Bytes} : loop (fillFrame id s) (n + 1) (i,out) =
    some (.ok (out ++ (missing id s.frameNumbers i n).flatMap Frame.marshalBinary)) := by
  induction n generalizing i out with
  | zero =>
    have hgt : ¬ i ≤ s.closeNumber := by
      rw [UInt16.le_iff_toNat_le]
      omega
    simp [loop,fillFrame,hgt,missing]
  | succ n ih =>
    have hle : i ≤ s.closeNumber := UInt16.le_iff_toNat_le.mpr (by omega)
    have hsucc := succ_toNat hle hmax
    have hround : fillFrame id s (i,out) = .ok (.inl (i + 1,if i ∈ s.frameNumbers then out
        else out ++ (Frame.mk id i [] false).marshalBinary)) := if_pos hle
    rw [loop,hround]
    dsimp only
    rw [ih (by omega),missing]
    split <;> simp

/-- The missing frames go into the closed channel one by one, until it has them all. -/
theorem Tracks.feedAll {numbers : List UInt16} (h : Tracks id ch s) (hc : ch.closed = true)
    (hlow : ∀ j,j.toNat < i.toNat → j ∈ s.frameNumbers)
    (hhigh : ∀ j,i.toNat ≤ j.toNat → (j ∈ s.frameNumbers ↔ j ∈ numbers))
    (hins : ins.map Prod.fst = missing id numbers i n) :
    (feedAll ch ins).closed = true ∧ (feedAll ch ins).isReady = true := by
  induction n generalizing i s ch ins with
  | zero =>
    obtain rfl := map_eq_nil_iff.mp hins
    refine ⟨hc,(h.bounded.isReady_iff hc).mpr ?_⟩
    intro j hj
    have hlt := ch.endFrameNumber.toNat_lt
    have hj' : (UInt16.ofNat j).toNat = j := Nat.mod_eq_of_lt (by omega)
    rw [(h.last hc).1] at hn
    rw [← hj']
    exact (h.mem _ fun _ => UInt16.le_iff_toNat_le.mpr (by omega)).mpr (hlow _ (by omega))
  | succ n ih =>
    obtain ⟨hlast,hmem⟩ := h.last hc
    have hle : i ≤ s.closeNumber := UInt16.le_iff_toNat_le.mpr (by omega)
    have hsucc := succ_toNat hle hmax
    rw [missing] at hins
    by_cases hi : i ∈ numbers
    · rw [if_pos hi,nil_append] at hins
      refine ih hmax (by omega) h hc ?_ ?_ hins
      · grind [UInt16.toNat_inj]
      · grind
    rw [if_neg hi,singleton_append] at hins
    obtain ⟨⟨f,l1⟩,rest,rfl,rfl,hrest⟩ := map_eq_cons_iff.mp hins
    have hnew : i ∉ s.frameNumbers := (hhigh i (Nat.le_refl _)).not.mpr hi
    have ht : Taken ch ⟨id,i,[],false⟩ := by
      refine ⟨h.id_eq.symm,(h.mem i fun _ => hlast ▸ hle).not.mpr hnew,nofun,fun _ => ?_,
        by simp [h.anyOrder]⟩
      rw [← hlast]
      refine UInt16.lt_of_le_of_ne hle ?_
      rintro rfl
      exact hnew hmem
    have hin := insertFrame_inserted ch ⟨id,i,[],false⟩ l1
    rw [ChannelFrames.feedAll,foldl_cons,feed_taken ht]
    refine ih ?_ ?_ (h.add ht hin) (by simp [hin.closed,hc]) ?_ ?_ hrest
    · simpa [FrameScan.add] using hmax
    · simp only [FrameScan.add,Bool.false_eq_true,and_false,if_false]
      omega
    · grind [FrameScan.add,UInt16.toNat_inj]
    · grind [FrameScan.add]

end

theorem missing_data {numbers : List UInt16} : ∀ f ∈ missing id numbers i n,f.data = [] := by
  induction n generalizing i with
  | zero => simp [missing]
  | succ n ih =>
    intro f hf
    rw [missing,mem_append] at hf
    rcases hf with hf | hf
    · split at hf <;> simp_all
    · exact ih f hf

/-- The frames of a transaction; there may be none in it. -/
def Carries (out : Bytes) (frames : List Frame) : Prop :=
  parseFrames out = .ok frames ∨ parseFrames out = .error .noFrames ∧ frames = []

theorem carries (hall : ∀ f ∈ frames,f.data = []) :
    Carries (derivationVersion0::frames.flatMap Frame.marshalBinary) frames := by
  by_cases hne : frames = []
  · subst hne
    exact .inr ⟨rfl,rfl⟩
  left
  have hparse := (@parseFramesLoop_ok_iff _ 0 frames _ (Nat.le_refl _)).mpr
    ⟨fun f hf => by simp [hall f hf],rfl⟩
  rw [parseFrames,hparse]
  exact if_neg hne

/-- The transaction is there, and its frames close the channel. -/
def Closes (ch : Channel) (frames : List Frame) : Prop :=
  ∃ fuel out rest,forceCloseTxData fuel frames = some (.ok out) ∧ Carries out rest ∧
    ∀ fed,fed.map Prod.fst = rest →
      (feedAll ch fed).closed = true ∧ (feedAll ch fed).isReady = true

theorem newChannel_tracks : Tracks id (newChannel id openBlock false) ⟨[],0,false⟩ :=
  ⟨rfl,rfl,newChannel_bounded _ _ _,rfl,nofun,fun i _ => by simp [newChannel]⟩

theorem forceCloseTxData_eq (hne : ins ≠ [])
    (h : (newChannel id openBlock false).addFrames ins = .ok ch) :
    ∃ s,Tracks id ch s ∧ ∀ fuel,forceCloseTxData fuel (ins.map Prod.fst) =
      if s.closed then loop (fillFrame id s) fuel (0,[derivationVersion0])
      else some (.ok (derivationVersion0::(Frame.mk id 0 [] true).marshalBinary)) := by
  obtain ⟨s,hscan,hs⟩ := scanFrames_tracks (i := 0) newChannel_tracks h
  refine ⟨s,hs,fun fuel => ?_⟩
  cases ins with
  | nil => exact absurd rfl hne
  | cons p ins =>
    obtain ⟨f,l1⟩ := p
    obtain ⟨ch1,hf,-⟩ := of_bind_ok h
    have hid : f.id = id := (addFrame_ok_iff.mp hf).1.id
    rw [map_cons] at hscan ⊢
    simp only [forceCloseTxData,hid,hscan]

/-- A channel that is still open is closed by a frame with number 0, unless it has one. -/
theorem open_closes (h : Tracks id ch s) (hopen : ch.closed = false)
    (hzero : 0 ∉ ch.inputs) {l1 : L1BlockRef} : (feed ch ⟨id,0,[],true⟩ l1).closed = true ∧
      (feed ch ⟨id,0,[],true⟩ l1).isReady = true := by
  have ht : Taken ch ⟨id,0,[],true⟩ :=
    ⟨h.id_eq.symm,hzero,fun _ => hopen,by simp [hopen],by simp [h.anyOrder]⟩
  have hin := insertFrame_inserted ch ⟨id,0,[],true⟩ l1
  have hclosed := hin.closed.trans (Bool.or_true _)
  rw [feed_taken ht]
  refine ⟨hclosed,((hin.bounded ht h.bounded).isReady_iff hclosed).mpr ?_⟩
  intro i hi
  rw [hin.mem_iff]
  rw [hin.endFrame] at hi
  exact .inl (Nat.le_zero.mp hi)

/-- The frame with number 0 is refused as a duplicate. -/
theorem not_closes (heq : ∀ fuel,forceCloseTxData fuel frames =
      some (.ok (derivationVersion0::(Frame.mk id 0 [] true).marshalBinary)))
    (hopen : ch.closed = false) (hzero : 0 ∈ ch.inputs) : ¬ Closes ch frames := by
  rintro ⟨fuel,out,rest,hout,hrest,hfed⟩
  have hparse := parseFrames_marshalBinary (f := ⟨id,0,[],true⟩) (Nat.zero_le _)
  obtain rfl := Except.ok.inj (Option.some.inj ((heq fuel).symm.trans hout))
  obtain rfl : rest = [⟨id,0,[],true⟩] := by
    rcases hrest with hrest | ⟨hrest,-⟩
    · exact Except.ok.inj (hrest.symm.trans hparse)
    · cases hrest.symm.trans hparse
  have hclosed := (hfed [(⟨id,0,[],true⟩,.zero)] rfl).1
  rw [ChannelFrames.feedAll,foldl_cons,feed_refused fun ht => ht.fresh hzero] at hclosed
  cases hopen.symm.trans hclosed

/-- The counter never gets past the number 65535, and a second frame 0 is refused. -/
theorem closes_iff (hne : ins ≠ []) (h : (newChannel id openBlock false).addFrames ins = .ok ch) :
    Closes ch (ins.map Prod.fst) ↔
      if ch.closed then ch.endFrameNumber ≠ 65535 else 0 ∉ ch.inputs := by
  obtain ⟨s,hs,heq⟩ := forceCloseTxData_eq hne h
  cases hc : ch.closed with
  | true =>
    have hlast := (hs.last hc).1
    simp only [hs.closed,hc,if_true] at heq ⊢
    rw [← hlast]
    constructor
    · rintro ⟨fuel,out,rest,hout,-⟩ hmax
      rw [heq,loop_diverges (I := fun _ => True)] at hout
      · cases hout
      · rintro ⟨i,out⟩ -
        refine ⟨_,if_pos ?_,trivial⟩
        rw [hmax]
        exact Nat.le_of_lt_succ i.toNat_lt
      · trivial
    · intro hmax
      have hn : (0 : UInt16).toNat + (s.closeNumber.toNat + 1) = s.closeNumber.toNat + 1 := by simp
      exact ⟨_,_,_,(heq _).trans (loop_fillFrame hmax hn),carries missing_data,
        fun fed => hs.feedAll hmax hn hc nofun fun _ _ => Iff.rfl⟩
  | false =>
    simp only [hs.closed,hc] at heq ⊢
    have hparse := parseFrames_marshalBinary (f := ⟨id,0,[],true⟩) (Nat.zero_le _)
    constructor
    · exact fun hcl hzero => not_closes heq hc hzero hcl
    intro hzero
    refine ⟨0,_,_,heq 0,.inl hparse,fun fed hfed => ?_⟩
    obtain ⟨⟨f,l1⟩,rfl,hp⟩ := map_eq_singleton_iff.mp hfed
    obtain rfl : f = ⟨id,0,[],true⟩ := hp
    exact open_closes hs hc hzero

theorem closes_iff_sample : ∃ ch,(newChannel (.fill 16 1) .zero false).addFrames
    [(⟨.fill 16 1,1,[],true⟩,.zero)] = .ok ch ∧ Closes ch [⟨.fill 16 1,1,[],true⟩] := by
  have hadd : (newChannel (.fill 16 1) .zero false).addFrames
      [(⟨.fill 16 1,1,[],true⟩,.zero)] = .ok _ := rfl
  exact ⟨_,hadd,(closes_iff (by simp) hadd).mpr (by decide)⟩

theorem zero_not_closes : ∃ ch,(newChannel (.fill 16 1) .zero false).addFrames
    [(⟨.fill 16 1,0,[],false⟩,.zero)] = .ok ch ∧ ¬ Closes ch [⟨.fill 16 1,0,[],false⟩] :=
  ⟨_,rfl,not_closes (fun _ => rfl) rfl (by decide)⟩

end OpStack.Proofs.ForceClose
