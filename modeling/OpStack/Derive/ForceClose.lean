import OpStack.Derive.Frame
import OpStack.Lib.Outcome

namespace OpStack.Derive
open Lib

inductive ForceCloseError where
  | noFrames
  | invalidID (first : ChannelID) (index : Nat) (id : ChannelID)

/-- What `ForceCloseTxData` has seen of the frames. -/
structure FrameScan where
  frameNumbers : List UInt16
  closeNumber : UInt16
  closed : Bool

def FrameScan.add (s : FrameScan) (frame : Frame) : FrameScan where
  frameNumbers := frame.frameNumber::s.frameNumbers
  closeNumber := if s.closed = false ∧ frame.isLast then frame.frameNumber else s.closeNumber
  closed := s.closed || frame.isLast

def scanFrames (id : ChannelID) : Nat → FrameScan → List Frame → Except ForceCloseError FrameScan
  | _,s,[] => .ok s
  | i,s,frame::frames =>
    if frame.id ≠ id then .error (.invalidID id i frame.id)
    else scanFrames id (i + 1) (s.add frame) frames

/-- One round of the loop over the frame numbers, whose counter wraps around. -/
def fillFrame (id : ChannelID) (s : FrameScan) :
    UInt16 × Bytes → Except ForceCloseError (UInt16 × Bytes ⊕ Bytes)
  | (i,out) =>
    if i ≤ s.closeNumber then
      .ok (.inl (i + 1,if i ∈ s.frameNumbers then out
        else out ++ (Frame.mk id i [] false).marshalBinary))
    else .ok (.inr out)

def forceCloseTxData (fuel : Nat) : List Frame → Option (Except ForceCloseError Bytes)
  | [] => some (.error .noFrames)
  | frame::frames =>
    match scanFrames frame.id 0 ⟨[],0,false⟩ (frame::frames) with
    | .error e => some (.error e)
    | .ok s =>
      if s.closed then loop (fillFrame frame.id s) fuel (0,[derivationVersion0])
      else some (.ok (derivationVersion0::(Frame.mk frame.id 0 [] true).marshalBinary))

end OpStack.Derive
