import OpStack.Eth.Types

namespace OpStack.Derive
open Lib Eth

abbrev ChannelID := FixedBytes 16

def maxFrameLen : Nat := 1000000

def frameV0OverHeadSize : Nat := 23

structure Frame where
  id : ChannelID
  frameNumber : UInt16
  data : Bytes
  isLast : Bool
  deriving DecidableEq

inductive FrameError where
  | readingChannelID
  | readingFrameNumber
  | readingFrameDataLength
  | frameDataLengthTooLarge (frameLength : Nat)
  | readingFrameData
  | readingFinalByte
  | invalidIsLast
  deriving DecidableEq

namespace Frame

/-- The length field is the length as a `uint32`. -/
def marshalBinary (f : Frame) : Bytes :=
  f.id.bytes ++ (beBytes 2 f.frameNumber.toNat ++ (beBytes 4 (f.data.length % 2 ^ 32) ++
    (f.data ++ [if f.isLast then 1 else 0])))

def readChannelID : Reader FrameError ChannelID := do
  let buf ← Reader.full 16 .readingChannelID
  match FixedBytes.ofBytes? 16 buf with
  | some id => pure id
  | none => throw .readingChannelID

def readFrameLength : Reader FrameError Nat := do
  let buf ← .full 4 .readingFrameDataLength
  if maxFrameLen < ofBe buf then throw (.frameDataLengthTooLarge (ofBe buf))
  pure (ofBe buf)

def readIsLast : Reader FrameError Bool := do
  let isLastByte ← .byte .readingFinalByte
  if isLastByte = 0 then pure false
  else if isLastByte = 1 then pure true
  else throw .invalidIsLast

def unmarshalBinary : Reader FrameError Frame := do
  let id ← readChannelID
  let number ← .full 2 .readingFrameNumber
  let frameLength ← readFrameLength
  let data ← .full frameLength .readingFrameData
  let isLast ← readIsLast
  pure ⟨id,.ofNat (ofBe number),data,isLast⟩

end Frame

inductive ParseError where
  | emptyData
  | invalidDerivationFormat (version : UInt8)
  | parsingFrame (index : Nat) (err : FrameError)
  | notConsumed
  | noFrames
  deriving DecidableEq

def derivationVersion0 : UInt8 := 0

/-- `n` is the number of frames so far; each frame takes at least one byte, of which `fuel` are
left. -/
def parseFramesLoop : Nat → Nat → Bytes → Except ParseError (List Frame)
  | _,_,[] => .ok []
  | 0,_,_::_ => .error .notConsumed
  | fuel+1,n,b::bs =>
    match Frame.unmarshalBinary (b::bs) with
    | .error e => .error (.parsingFrame n e)
    | .ok (f,rest) => do
      let fs ← parseFramesLoop fuel (n + 1) rest
      .ok (f::fs)

def parseFrames : Bytes → Except ParseError (List Frame)
  | [] => .error .emptyData
  | version::buf =>
    if version ≠ derivationVersion0 then .error (.invalidDerivationFormat version)
    else do
      let frames ← parseFramesLoop buf.length 0 buf
      if frames = [] then .error .noFrames
      .ok frames

end OpStack.Derive
