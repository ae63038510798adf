import OpStack.Proofs.ChannelFrames

namespace OpStack.Proofs.ChannelSize
open Lib Eth Derive ChannelFrames AList

def storedSize (inputs : Inputs) : UInt64 := (inputs.entries.map fun e => frameSize e.2).sum

variable {ch ch' : Channel} {f : Frame} {l1 : L1BlockRef} {inputs : Inputs} {k : Nat}

theorem foldl_sub_frameSize (entries : List (Sigma fun _ : Nat => Frame)) (size : UInt64) :
    entries.foldl (fun size e => size - frameSize e.2) size =
      size - (entries.map fun e => frameSize e.2).sum := by
  induction entries generalizing size with
  | nil => simp
  | cons e entries ih => grind

theorem storedSize_insert (h : k ∉ inputs) (f : Frame) :
    storedSize (inputs.insert k f) = frameSize f + storedSize inputs := by
  unfold storedSize
  rw [entries_insert_of_notMem h,List.map_cons,List.sum_cons]

/-- Pruning takes the sizes of all frames off the size, those of the kept ones as well. -/
theorem insertFrame_size (ch : Channel) (f : Frame) (l1 : L1BlockRef) : (ch.insertFrame f l1).size =
    (if Prunes ch f then ch.size - storedSize ch.inputs else ch.size) + frameSize f := by
  by_cases hp : Prunes ch f
  · rw [Channel.insertFrame_eq_of_prunes l1 hp.1 hp.2,if_pos hp,storedSize,← foldl_sub_frameSize]
    rfl
  · rw [Channel.insertFrame_eq_of_keeps l1 hp,if_neg hp]

theorem insertFrame_inputs (h : ¬ Prunes ch f) :
    (ch.insertFrame f l1).inputs = ch.inputs.insert f.frameNumber.toNat f := by
  rw [Channel.insertFrame_eq_of_keeps l1 h]

theorem insertFrame_entries (hp : Prunes ch f) (hlow : ∀ i ∈ ch.inputs,f.frameNumber.toNat ≤ i) :
    (ch.insertFrame f l1).inputs.entries = [⟨f.frameNumber.toNat,f⟩] := by
  have hins := insertFrame_inserted ch f l1
  have hlup : ∀ i,(ch.insertFrame f l1).inputs.lookup i =
      (singleton f.frameNumber.toNat f : Inputs).lookup i := by
    intro i
    rw [hins.lookup,← insert_empty,lookup_insert]
    by_cases hi : i = f.frameNumber.toNat
    · rw [if_pos hi,if_pos hi]
    rw [if_neg hi,if_neg hi]
    by_cases hle : f.frameNumber.toNat ≤ i
    · rw [if_pos ⟨hp,hle⟩]
      rfl
    · rw [if_neg (fun h => hle h.2)]
      exact lookup_eq_none.mpr fun hmem => hle (hlow i hmem)
  have hpm : (ch.insertFrame f l1).inputs.entries.Perm
      (singleton f.frameNumber.toNat f : Inputs).entries := by
    apply List.lookup_ext (nodupKeys _) (nodupKeys _)
    intro i x
    have h := hlup i
    unfold lookup at h
    rw [h]
  exact List.perm_singleton.mp hpm

/-- Every channel that is still open has its exact size; in order, nothing is ever pruned. -/
structure Sized (ch : Channel) : Prop where
  opened : ch.closed = false → ch.size = storedSize ch.inputs
  inOrder : ch.requireInOrder = true → ch.highestFrameNumber.toNat ≤ ch.inputs.keys.length

theorem newChannel_sized (id : ChannelID) (openBlock : L1BlockRef) (inOrder : Bool) :
    Sized (.newChannel id openBlock inOrder) := ⟨fun _ => rfl,fun _ => Nat.le_refl 0⟩

theorem Sized.not_prunes (h : Sized ch) (ht : Taken ch f) (ho : ch.requireInOrder = true) :
    ¬ Prunes ch f := by
  rintro ⟨-,hlt⟩
  have hle := h.inOrder ho
  rw [UInt16.lt_iff_toNat_lt,ht.next ho] at hlt
  omega

theorem keys_insert_length (h : k ∉ inputs) (f : Frame) :
    (inputs.insert k f).keys.length = inputs.keys.length + 1 := by
  rw [keys_insert,List.length_cons,List.erase_of_not_mem h]

theorem insertFrame_sized (h : Sized ch) (ht : Taken ch f) : Sized (ch.insertFrame f l1) := by
  have hins := insertFrame_inserted ch f l1
  constructor
  · intro hop
    rw [hins.closed,Bool.or_eq_false_iff] at hop
    have hp : ¬ Prunes ch f := by
      rintro ⟨hl,-⟩
      simp [hop.2] at hl
    rw [insertFrame_size,insertFrame_inputs hp,storedSize_insert ht.fresh,h.opened hop.1]
    grind
  intro ho
  rw [hins.inOrder] at ho
  have hp := h.not_prunes ht ho
  have hle := h.inOrder ho
  have hnx := ht.next ho
  rw [insertFrame_inputs hp,keys_insert_length ht.fresh,hins.highest,if_neg hp]
  split
  · omega
  · omega

theorem step_sized (hs : Step ch ch') (h : Sized ch) : Sized ch' := by
  obtain ⟨f,l1,rfl⟩ := hs
  by_cases ht : Taken ch f
  · rw [feed_taken ht]
    exact insertFrame_sized h ht
  · rw [feed_refused ht]
    exact h

/-- No frame with a lower number is stored when an accepted frame closes the channel below a stored
frame. -/
def ClosesClean (ch : Channel) (f : Frame) : Prop :=
  Taken ch f → ch.requireInOrder = false → Prunes ch f → ∀ i ∈ ch.inputs,f.frameNumber.toNat ≤ i

def CleanStep (ch ch' : Channel) : Prop := ∃ f l1,ClosesClean ch f ∧ ch' = feed ch f l1

theorem feed_size_exact (h : Sized ch) (hsize : ch.size = storedSize ch.inputs)
    (hclean : ClosesClean ch f) : (feed ch f l1).size = storedSize (feed ch f l1).inputs := by
  by_cases ht : Taken ch f
  · rw [feed_taken ht,insertFrame_size]
    by_cases hp : Prunes ch f
    · have hod : ch.requireInOrder = false := by
        cases ho : ch.requireInOrder with
        | false => rfl
        | true => exact absurd hp (h.not_prunes ht ho)
      have hlow := hclean ht hod hp
      have hone : storedSize (ch.insertFrame f l1).inputs = frameSize f := by
        rw [storedSize,insertFrame_entries hp hlow]
        simp
      rw [if_pos hp,hone,hsize]
      simp
    · rw [insertFrame_inputs hp,storedSize_insert ht.fresh,hsize]
      grind
  · rw [feed_refused ht]
    exact hsize

/-- The size of a channel is that of the frames it stores. -/
theorem channel_size_exact (id : ChannelID) (openBlock : L1BlockRef) (inOrder : Bool) (ch : Channel)
    (h : Reaches CleanStep (.newChannel id openBlock inOrder) ch) :
    ch.size = storedSize ch.inputs := by
  have hinv : Sized ch ∧ ch.size = storedSize ch.inputs := by
    apply h.invariant (P := fun ch => Sized ch ∧ ch.size = storedSize ch.inputs)
    · exact ⟨newChannel_sized id openBlock inOrder,rfl⟩
    · rintro x y ⟨hszd,hsz⟩ ⟨f,l1,hcn,rfl⟩
      exact ⟨step_sized ⟨f,l1,rfl⟩ hszd,feed_size_exact hszd hsz hcn⟩
  exact hinv.2

/-- A closing frame above which a frame is pruned, and below which there is none. -/
theorem channel_size_exact_sample :
    (feed (feed (.newChannel (.fill 16 1) .zero false) (frameOf 2 [9] false)
      .zero) (frameOf 1 [7,8] true) .zero).size = 202 := by
  refine (channel_size_exact (.fill 16 1) .zero false _ ?_).trans rfl
  refine .tail (.single ⟨frameOf 2 [9] false,.zero,?_,rfl⟩) ⟨frameOf 1 [7,8] true,.zero,?_,rfl⟩
  · rintro - - - i hi
    cases hi
  rintro - - - i hi
  have hkeys := hi
  rw [List.mem_singleton.mp hkeys]
  decide

/-- Frame 0 is stored, and its size is taken off as well when frame 1 closes the channel below
frame 2. -/
theorem channel_size_understated : ∃ ch,Reaches Step (.newChannel (.fill 16 1) .zero false) ch ∧
    ch.size = 201 ∧ storedSize ch.inputs = 402 := by
  refine ⟨feed (feed (feed (.newChannel (.fill 16 1) .zero false) (frameOf 0 [1] false)
    .zero) (frameOf 2 [3] false) .zero) (frameOf 1 [2] true) .zero,
    ?_,by decide +kernel,by decide +kernel⟩
  exact .tail (.tail (.single ⟨_,_,rfl⟩) ⟨_,_,rfl⟩) ⟨_,_,rfl⟩

end OpStack.Proofs.ChannelSize
