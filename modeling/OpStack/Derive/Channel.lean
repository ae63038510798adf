import Mathlib.Data.UInt
import Mathlib.Data.List.AList
import OpStack.Derive.Frame
import OpStack.Rollup.Config

namespace OpStack.Derive
open Lib Eth Rollup

def frameOverhead : UInt64 := 200

def frameSize (frame : Frame) : UInt64 := .ofNat frame.data.length + frameOverhead

structure Channel where
  id : ChannelID
  openBlock : L1BlockRef
  requireInOrder : Bool
  size : UInt64
  closed : Bool
  highestFrameNumber : UInt16
  endFrameNumber : UInt16
  inputs : AList (fun _ : Nat => Frame)
  highestL1InclusionBlock : L1BlockRef

inductive AddFrameError where
  | wrongChannel
  | endingFrameOfClosed
  | duplicate
  | beyondEndFrame
  | outOfOrder
  deriving DecidableEq

namespace Channel

def newChannel (id : ChannelID) (openBlock : L1BlockRef) (requireInOrder : Bool) : Channel where
  id := id
  openBlock := openBlock
  requireInOrder := requireInOrder
  size := 0
  closed := false
  highestFrameNumber := 0
  endFrameNumber := 0
  inputs := ∅
  highestL1InclusionBlock := .zero

/-- The frames with a number below that of the closing frame stay; the size shrinks by that of all
frames. -/
def pruneInputs (ch : Channel) : Channel :=
  { ch with
    inputs := ch.inputs.keys.foldr
      (fun idx inputs => if ch.endFrameNumber.toNat ≤ idx then inputs.erase idx else inputs) ch.inputs
    size := ch.inputs.entries.foldl (fun size e => size - frameSize e.2) ch.size
    highestFrameNumber := ch.endFrameNumber }

def insertFrame (frame : Frame) (l1InclusionBlock : L1BlockRef) (ch : Channel) : Channel :=
  let ch := if frame.isLast then
      { ch with endFrameNumber := frame.frameNumber, closed := true } else ch
  let ch := if frame.isLast ∧ ch.endFrameNumber < ch.highestFrameNumber then ch.pruneInputs else ch
  let ch := if ch.highestFrameNumber < frame.frameNumber then
      { ch with highestFrameNumber := frame.frameNumber } else ch
  let ch := if ch.highestL1InclusionBlock.number < l1InclusionBlock.number then
      { ch with highestL1InclusionBlock := l1InclusionBlock } else ch
  { ch with
    inputs := ch.inputs.insert frame.frameNumber.toNat frame
    size := ch.size + frameSize frame }

def closedBy (ch : Channel) (frame : Frame) : Channel :=
  { ch with endFrameNumber := frame.frameNumber, closed := true }

section insert
variable {ch : Channel} {f : Frame} (l1 : L1BlockRef)

theorem insertFrame_eq_of_keeps (h : ¬ (f.isLast = true ∧ f.frameNumber < ch.highestFrameNumber)) :
    ch.insertFrame f l1 =
      { ch with
        closed := ch.closed || f.isLast
        endFrameNumber := if f.isLast then f.frameNumber else ch.endFrameNumber
        highestFrameNumber :=
          if ch.highestFrameNumber < f.frameNumber then f.frameNumber else ch.highestFrameNumber
        highestL1InclusionBlock :=
          if ch.highestL1InclusionBlock.number < l1.number then l1 else ch.highestL1InclusionBlock
        inputs := ch.inputs.insert f.frameNumber.toNat f
        size := ch.size + frameSize f } := by
  unfold insertFrame
  cases hl : f.isLast with
  | true =>
    rw [hl] at h
    simp only [true_and] at h
    simp only [if_true,true_and,if_neg h,Bool.or_true]
    split <;> split <;> rfl
  | false =>
    simp only [Bool.false_eq_true,if_false,false_and,Bool.or_false]
    split <;> split <;> rfl

theorem insertFrame_eq_of_prunes (hl : f.isLast = true)
    (hlt : f.frameNumber < ch.highestFrameNumber) :
    ch.insertFrame f l1 =
      { ch with
        closed := true
        endFrameNumber := f.frameNumber
        highestFrameNumber := f.frameNumber
        highestL1InclusionBlock :=
          if ch.highestL1InclusionBlock.number < l1.number then l1 else ch.highestL1InclusionBlock
        inputs := (ch.closedBy f).pruneInputs.inputs.insert f.frameNumber.toNat f
        size := (ch.closedBy f).pruneInputs.size + frameSize f } := by
  have hsl : ¬ (ch.closedBy f).pruneInputs.highestFrameNumber < f.frameNumber :=
    UInt16.lt_irrefl _
  unfold insertFrame
  unfold closedBy at hsl ⊢
  simp only [hl,if_true,true_and,if_pos hlt,if_neg hsl]
  split
  · rename_i hnum
    rw [if_pos (show ch.highestL1InclusionBlock.number < l1.number from hnum)]
    rfl
  rename_i hnum
  rw [if_neg (show ¬ ch.highestL1InclusionBlock.number < l1.number from hnum)]
  rfl

end insert

def addFrame (frame : Frame) (l1InclusionBlock : L1BlockRef) (ch : Channel) :
    Except AddFrameError Channel :=
  if frame.id ≠ ch.id then .error .wrongChannel
  else if frame.isLast ∧ ch.closed then .error .endingFrameOfClosed
  else if frame.frameNumber.toNat ∈ ch.inputs then .error .duplicate
  else if ch.closed ∧ ch.endFrameNumber ≤ frame.frameNumber then .error .beyondEndFrame
  else if ch.requireInOrder ∧ frame.frameNumber.toNat ≠ ch.inputs.keys.length then
    .error .outOfOrder
  else .ok (ch.insertFrame frame l1InclusionBlock)

def isReady (ch : Channel) : Bool :=
  ch.closed && decide (ch.inputs.keys.length = ch.endFrameNumber.toNat + 1) &&
    (List.range (ch.endFrameNumber.toNat + 1)).all fun i => (ch.inputs.lookup i).isSome

/-- The data of the frames from `i` to the last one; a missing frame panics. -/
def reader (ch : Channel) : Option Bytes :=
  (List.range (ch.endFrameNumber.toNat + 1)).foldrM
    (fun i data => (ch.inputs.lookup i).map fun frame => frame.data ++ data) []

def addFrames (ch : Channel) : List (Frame × L1BlockRef) → Except AddFrameError Channel
  | [] => .ok ch
  | (frame,l1InclusionBlock)::rest => do
    let ch ← ch.addFrame frame l1InclusionBlock
    addFrames ch rest

end Channel

structure ChannelAssembler where
  channel : Option Channel

inductive AssemblerError (ε : Type) where
  | prev (e : ε)
  | unexpectedReady
  | unexpectedNonReady
  | readerPanic

namespace ChannelAssembler

def newChannelAssembler : ChannelAssembler := ⟨none⟩

def reset (_ : ChannelAssembler) : ChannelAssembler := ⟨none⟩

def flushChannel (_ : ChannelAssembler) : ChannelAssembler := ⟨none⟩

def channelTimedOut (cfg : Config) (origin : L1BlockRef) (ch : Channel) : Bool :=
  ch.openBlock.number + cfg.channelTimeoutAt origin.time < origin.number

/-- One iteration of the loop over frames. The flag says that the staged channel is complete. -/
def ingestFrame (cfg : Config) (origin : L1BlockRef) (channel : Option Channel) (frame : Frame) :
    Option Channel × Bool :=
  let channel := if frame.frameNumber = 0 then some (.newChannel frame.id origin true) else channel
  match channel with
  | none => (none,false)
  | some ch =>
    match ch.addFrame frame origin with
    | .error _ => (some ch,false)
    | .ok ch =>
      if cfg.maxRLPBytesPerChannelAt origin.time < ch.size then (none,false)
      else (some ch,frame.isLast)

/-- `none` when there are no more frames, and otherwise the frames that are left. -/
def ingestFrames (cfg : Config) (origin : L1BlockRef) :
    Option Channel → List Frame → Option Channel × Option (List Frame)
  | channel,[] => (channel,none)
  | channel,frame::frames =>
    match ingestFrame cfg origin channel frame with
    | (channel,true) => (channel,some frames)
    | (channel,false) => ingestFrames cfg origin channel frames

/-- The frame provider yields `frames`, and then the error `e`. Also returns the frames not asked
for. -/
def nextRawChannel {ε : Type} (cfg : Config) (origin : L1BlockRef) (frames : List Frame) (e : ε)
    (ca : ChannelAssembler) : ChannelAssembler × List Frame × Except (AssemblerError ε) Bytes :=
  let channel := ca.channel.filter fun ch => !channelTimedOut cfg origin ch
  if channel.any Channel.isReady then (⟨channel⟩,frames,.error .unexpectedReady)
  else
    match ingestFrames cfg origin channel frames with
    | (channel,none) => (⟨channel⟩,[],.error (.prev e))
    | (none,some rest) => (⟨none⟩,rest,.error .unexpectedNonReady)
    | (some ch,some rest) =>
      if ch.isReady then
        match ch.reader with
        | none => (⟨none⟩,rest,.error .readerPanic)
        | some data => (⟨none⟩,rest,.ok data)
      else (⟨some ch⟩,rest,.error .unexpectedNonReady)

end ChannelAssembler

end OpStack.Derive
