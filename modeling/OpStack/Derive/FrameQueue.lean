import OpStack.Derive.Frame
import OpStack.Rollup.Config

namespace OpStack.Derive
open List Eth Lib Rollup

def pruneFrom (frames : List Frame) (i : Nat) : List Frame :=
  if h : i + 1 < frames.length then
    let current := frames[i]
    let next := frames[i + 1]
    if current.id = next.id then
      if current.isLast || next.frameNumber ≠ current.frameNumber + 1 then
        pruneFrom (frames.eraseIdx (i + 1)) i
      else pruneFrom frames (i + 1)
    else if next.frameNumber = 0 && !current.isLast then pruneFrom (frames.eraseIdx i) (i - 1)
    else if next.frameNumber ≠ 0 then pruneFrom (frames.eraseIdx (i + 1)) i
    else pruneFrom frames (i + 1)
  else frames
termination_by 2 * frames.length - i
decreasing_by
  all_goals first
    | omega
    | rw [length_eraseIdx_of_lt (by omega)]; omega

def pruneFrameQueue (frames : List Frame) : List Frame := pruneFrom frames 0

namespace FrameQueue
variable {ε : Type} (cfg : Config) (frames : List Frame)

/-- The answer of `NextData` comes with the time of the origin. -/
def loadNextFrames : UInt64 × Except ε Bytes → Except ε (List Frame)
  | (_,.error err) => .error err
  | (time,.ok data) =>
    match parseFrames data with
    | .error _ => .ok frames
    | .ok parsed =>
      let frames := frames ++ parsed
      .ok (if cfg.isHolocene time then pruneFrameQueue frames else frames)

/-- `NextData` is called only where the queue is empty. The error `none` is `NotEnoughData`. -/
def nextFrame (answer : UInt64 × Except ε Bytes) : List Frame × Except (Option ε) Frame :=
  match if frames = [] then loadNextFrames cfg frames answer else .ok frames with
  | .error err => (frames,.error (some err))
  | .ok [] => ([],.error none)
  | .ok (f::frames) => (frames,.ok f)

end FrameQueue

end OpStack.Derive
