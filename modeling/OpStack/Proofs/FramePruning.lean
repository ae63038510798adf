import Mathlib.Data.List.Chain
import OpStack.Derive.FrameQueue
import OpStack.Proofs.ChannelReassembly
import OpStack.Proofs.Config

namespace OpStack.Proofs.FramePruning
open Derive List ChannelReassembly Eth Lib Rollup FrameQueue

def WellOrdered (a b : Frame) : Prop :=
  if a.id = b.id then a.isLast = false ∧ b.frameNumber = a.frameNumber + 1
  else a.isLast = true ∧ b.frameNumber = 0

instance (a b : Frame) : Decidable (WellOrdered a b) := by
  unfold WellOrdered
  infer_instance

/-- What is kept, the last frame first: a first frame discards frames of unclosed channels, and
other frames that do not fit are dropped. -/
def push : List Frame → Frame → List Frame
  | [],f => [f]
  | top::kept,f =>
    if WellOrdered top f then f::top::kept
    else if top.id ≠ f.id ∧ f.frameNumber = 0 then push kept f
    else top::kept

section
variable {top f : Frame} {kept rest : List Frame}

theorem pruneFrom_cons : pruneFrom (kept.reverse ++ top::f::rest) kept.length =
    if WellOrdered top f then pruneFrom ((top::kept).reverse ++ f::rest) (top::kept).length
    else if top.id ≠ f.id ∧ f.frameNumber = 0 then
      pruneFrom (kept.reverse ++ f::rest) (kept.length - 1)
    else pruneFrom (kept.reverse ++ top::rest) kept.length := by
  rw [pruneFrom]
  grind [WellOrdered]

/-- The loop keeps what `push` keeps, frame by frame. -/
theorem pruneFrom_eq : pruneFrom (kept.reverse ++ top::rest) kept.length =
    (rest.foldl push (top::kept)).reverse := by
  induction rest generalizing top kept with
  | nil =>
    rw [pruneFrom]
    simp
  | cons f rest ih =>
    rw [foldl_cons]
    induction kept generalizing top with
    | nil =>
      rw [pruneFrom_cons,push]
      split
      · exact ih
      split
      · exact @ih f []
      · exact ih
    | cons p kept ihk =>
      rw [pruneFrom_cons,push]
      split
      · exact ih
      split
      · rw [← ihk]
        simp
      · exact ih

theorem pruneFrameQueue_eq (frames : List Frame) :
    pruneFrameQueue frames = (frames.foldl push []).reverse := by
  cases frames with
  | nil => simp [pruneFrameQueue,pruneFrom]
  | cons f rest => exact @pruneFrom_eq f [] rest

theorem push_sublist : (push kept f).Sublist (f::kept) := by
  induction kept with
  | nil => exact .refl _
  | cons top kept ih =>
    rw [push]
    split
    · exact .refl _
    split
    · exact ih.trans ((sublist_cons_self top kept).cons_cons f)
    · exact sublist_cons_self f _

theorem foldl_push_sublist : (rest.foldl push kept).Sublist (rest.reverse ++ kept) := by
  induction rest generalizing kept with
  | nil => exact .refl _
  | cons f rest ih =>
    rw [reverse_cons,append_assoc]
    exact ih.trans (push_sublist.append_left _)

theorem push_ordered (h : kept.IsChain (flip WellOrdered)) :
    (push kept f).IsChain (flip WellOrdered) := by
  induction kept with
  | nil => exact .singleton f
  | cons top kept ih =>
    rw [push]
    split
    · rename_i hf
      exact .cons_cons hf h
    split
    · exact ih h.tail
    · exact h

theorem pruned_ordered (frames : List Frame) : (pruneFrameQueue frames).IsChain WellOrdered := by
  rw [pruneFrameQueue_eq,isChain_reverse]
  have : ∀ kept : List Frame,kept.IsChain (flip WellOrdered) →
      (frames.foldl push kept).IsChain (flip WellOrdered) := by
    induction frames with
    | nil => exact fun _ h => h
    | cons f rest ih => exact fun _ h => ih _ (push_ordered h)
  exact this [] .nil

theorem foldl_push_ordered (h : (top::rest).IsChain WellOrdered) :
    rest.foldl push (top::kept) = rest.reverse ++ top::kept := by
  induction rest generalizing top kept with
  | nil => rfl
  | cons f rest ih =>
    rw [isChain_cons_cons] at h
    rw [foldl_cons,push,if_pos h.1,ih h.2]
    simp

theorem foldl_push_pruned (frames : List Frame) :
    (pruneFrameQueue frames).foldl push [] = frames.foldl push [] := by
  have hord := pruned_ordered frames
  rw [← reverse_inj,← pruneFrameQueue_eq frames]
  cases hp : pruneFrameQueue frames with
  | nil => rfl
  | cons top rest =>
    rw [hp] at hord
    rw [foldl_cons,push,foldl_push_ordered hord]
    simp

theorem push_first (hf : f.frameNumber = 0) (h : ∀ g ∈ kept,g.id ≠ f.id) :
    ∃ below,push kept f = f::below := by
  induction kept with
  | nil => exact ⟨[],rfl⟩
  | cons top kept ih =>
    rw [forall_mem_cons] at h
    rw [push]
    split
    · exact ⟨_,rfl⟩
    rw [if_pos ⟨h.1,hf⟩]
    exact ih h.2

/-- A closed channel is not discarded. -/
theorem push_last {above : List Frame} (ht : top.isLast = true) :
    ∃ above',push (above ++ top::kept) f = above' ++ top::kept := by
  induction above with
  | nil =>
    rw [nil_append,push]
    split
    · exact ⟨[f],rfl⟩
    rename_i hf
    rw [if_neg]
    · exact ⟨[],rfl⟩
    · rintro ⟨hid,hnum⟩
      rw [WellOrdered,if_neg hid] at hf
      exact hf ⟨ht,hnum⟩
  | cons g above ih =>
    rw [cons_append,push]
    split
    · exact ⟨f::g::above,rfl⟩
    split
    · exact ih
    · exact ⟨g::above,rfl⟩

theorem foldl_push_last {above : List Frame} (ht : top.isLast = true) :
    ∃ above',rest.foldl push (above ++ top::kept) = above' ++ top::kept := by
  induction rest generalizing above with
  | nil => exact ⟨above,rfl⟩
  | cons f rest ih =>
    obtain ⟨above',h⟩ := push_last ht
    rw [foldl_cons,h]
    exact ih

theorem complete_ordered {id : ChannelID} {run : List Frame} (h : Complete id run) :
    run.IsChain WellOrdered := by
  obtain ⟨init,last,rfl,-,hinit⟩ := h.last
  rw [isChain_iff_getElem]
  intro i hi
  have hlt : i < init.length := by simpa using hi
  obtain ⟨hid,hnum⟩ := h.numbered i _ (getElem?_eq_getElem (by omega))
  obtain ⟨hid',hnum'⟩ := h.numbered (i + 1) _ (getElem?_eq_getElem hi)
  rw [WellOrdered,if_pos (hid.trans hid'.symm),hnum,hnum',getElem_append_left hlt]
  refine ⟨hinit _ (getElem_mem hlt),?_⟩
  simp

end

theorem pruneFrameQueue_holocene : (∀ frames,(pruneFrameQueue frames).Sublist frames ∧
      (pruneFrameQueue frames).IsChain WellOrdered ∧
      pruneFrameQueue (pruneFrameQueue frames) = pruneFrameQueue frames) ∧
    (∀ a b,pruneFrameQueue (a ++ b) = pruneFrameQueue (pruneFrameQueue a ++ b)) ∧
    ∀ (id : ChannelID) (before run after : List Frame),Complete id run → (∀ f ∈ before,f.id ≠ id) →
      ∃ l r,pruneFrameQueue (before ++ (run ++ after)) = l ++ (run ++ r) := by
  refine ⟨?_,?_,?_⟩
  · intro frames
    refine ⟨?_,pruned_ordered frames,?_⟩
    · rw [pruneFrameQueue_eq,← reverse_sublist]
      simpa using @foldl_push_sublist [] frames
    · rw [pruneFrameQueue_eq,foldl_push_pruned,← pruneFrameQueue_eq]
  · intro a b
    rw [pruneFrameQueue_eq,pruneFrameQueue_eq,foldl_append,foldl_append,foldl_push_pruned]
  intro id before run after hrun hbef
  have hord := complete_ordered hrun
  obtain ⟨init,last,hsp,hls,-⟩ := hrun.last
  cases run with
  | nil => simp at hsp
  | cons first rest =>
    obtain ⟨hid,hnum⟩ := hrun.numbered.head
    obtain ⟨below,hpush⟩ := @push_first first (before.foldl push []) hnum (by
      intro g hg
      rw [hid]
      exact hbef g (by simpa using foldl_push_sublist.subset hg))
    obtain ⟨above,hab⟩ := @foldl_push_last last (init.reverse ++ below) after [] hls
    have hkp : (first::rest).foldl push (before.foldl push []) =
        (first::rest).reverse ++ below := by
      rw [foldl_cons,hpush,foldl_push_ordered hord]
      simp
    refine ⟨below.reverse,above.reverse,?_⟩
    rw [pruneFrameQueue_eq,foldl_append,foldl_append,hkp,hsp]
    simpa using congrArg reverse hab

/-- The frames that an answer of the previous stage carries. -/
def carried {ε : Type} (cfg : Config) : UInt64 × Except ε Bytes → List Frame
  | (_,.error _) => []
  | (time,.ok data) =>
    match parseFrames data with
    | .error _ => []
    | .ok frames => if cfg.isHolocene time then pruneFrameQueue frames else frames

/-- Calls of `NextFrame` on an empty queue: how many, the answers they asked for, the frames they
returned, and the queue. -/
inductive Calls {ε : Type} (cfg : Config) :
    Nat → List (UInt64 × Except ε Bytes) → List Frame → List Frame → Prop
  | start : Calls cfg 0 [] [] []
  | next {n asked out frames frames' r} (h : Calls cfg n asked out frames) (answer)
      (hnext : nextFrame cfg frames answer = (frames',r)) :
    Calls cfg (n + 1) (if frames = [] then asked ++ [answer] else asked)
      (out ++ r.toOption.toList) frames'

variable {ε : Type} {cfg : Config} {frames : List Frame} {answer : UInt64 × Except ε Bytes}
  {r : Except (Option ε) Frame}

theorem nextFrame_nil (h : nextFrame cfg [] answer = (frames,r)) :
    r.toOption.toList ++ frames = carried cfg answer := by
  have hload : (loadNextFrames cfg [] answer).toOption.getD [] = carried cfg answer := by
    obtain ⟨time,err | data⟩ := answer
    · rfl
    · rw [loadNextFrames,carried]
      cases parseFrames data <;> rfl
  rw [nextFrame,if_pos rfl] at h
  rw [← hload]
  split at h
  all_goals
    rename_i heq
    cases h
    rw [heq]
    rfl

/-- The queue hands on the frames of every answer in order, without loss or repetition. -/
theorem frames_delivered {n : Nat} {asked : List (UInt64 × Except ε Bytes)} {out : List Frame}
    (h : Calls cfg n asked out frames) :
    out ++ frames = asked.flatMap (carried cfg) ∧ n ≤ out.length + asked.length := by
  induction h with
  | start => exact ⟨rfl,Nat.le_refl 0⟩
  | @next n asked out frames frames' r h answer hnext ih =>
    obtain ⟨hout,hn⟩ := ih
    rw [append_assoc]
    cases frames with
    | nil =>
      rw [nextFrame_nil hnext,if_pos rfl,flatMap_append,← hout]
      simp
      omega
    | cons f rest =>
      cases hnext
      exact ⟨hout,by simpa [Except.toOption] using by omega⟩

def sampleFrame (n : Nat) : Frame := ⟨.fill 16 0,.ofNat n,[],n = 1⟩

/-- A transaction with the two frames of a channel. -/
def twoFrames : Bytes := replicate 24 0 ++ replicate 17 0 ++ [1,0,0,0,0,1]

def sampleAnswers : List (UInt64 × Except Unit Bytes) :=
  [(0,.ok twoFrames),(1,.error ()),(2,.ok [0]),(3,.ok twoFrames)]

/-- Five calls: an answer with two frames, one that fails, one without frames, and two frames. -/
theorem frames_delivered_sample :
    Calls Config.sampleConfig 5 sampleAnswers [sampleFrame 0,sampleFrame 1,sampleFrame 0]
        [sampleFrame 1] ∧
      [sampleFrame 0,sampleFrame 1,sampleFrame 0] ++ [sampleFrame 1] =
        sampleAnswers.flatMap (carried Config.sampleConfig) := by
  let load (t : UInt64) := nextFrame Config.sampleConfig [] (t,(.ok twoFrames : Except Unit Bytes))
  have hload : load 0 = ([sampleFrame 1],.ok (sampleFrame 0)) ∧ load 3 = load 0 := by
    decide +kernel
  have hempty : nextFrame Config.sampleConfig [] (2,(.ok [0] : Except Unit Bytes)) =
      ([],.error none) := by
    decide +kernel
  have h₁ := Calls.next .start _ hload.1
  have h₂ := h₁.next (1,.error ()) rfl
  have h₃ := h₂.next (1,.error ()) rfl
  have h := (h₃.next _ hempty).next _ (hload.2.trans hload.1)
  exact ⟨h,(frames_delivered h).1⟩

end OpStack.Proofs.FramePruning
