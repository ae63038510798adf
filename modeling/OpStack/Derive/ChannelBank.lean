import OpStack.Derive.BatchStage
import OpStack.Derive.Channel

namespace OpStack.Derive
open Lib Eth Rollup

abbrev Channels := AList (fun _ : ChannelID => Channel)

structure ChannelBank where
  channels : Channels
  channelQueue : List ChannelID

/-- An index past the end of the queue, a channel that is not in the map, or a reader without a
frame. -/
inductive BankPanic where
  | indexOutOfRange
  | missingChannel
  | readerPanic
  deriving DecidableEq

inductive ReadResult where
  | data (data : Bytes)
  | timedOut
  | eof
  deriving DecidableEq

namespace ChannelBank

def newChannelBank : ChannelBank := ⟨∅,[]⟩

def reset (_ : ChannelBank) : ChannelBank := ⟨∅,[]⟩

def timedOut (cfg : Config) (origin : L1BlockRef) (ch : Channel) : Bool :=
  ch.openBlock.number + cfg.channelTimeoutAt origin.time < origin.number

def totalSize (channels : Channels) : UInt64 := (channels.entries.map fun e => e.2.size).sum

def pruneLoop (limit : UInt64) :
    List ChannelID → Channels → UInt64 → Except BankPanic ChannelBank
  | [],channels,total =>
    if limit < total then .error .indexOutOfRange else .ok ⟨channels,[]⟩
  | id::queue,channels,total =>
    if limit < total then
      match channels.lookup id with
      | none => .error .missingChannel
      | some ch => pruneLoop limit queue (channels.erase id) (total - ch.size)
    else .ok ⟨channels,id::queue⟩

def prune (cfg : Config) (origin : L1BlockRef) (cb : ChannelBank) : Except BankPanic ChannelBank :=
  pruneLoop (cfg.maxChannelBankSizeAt origin.time) cb.channelQueue cb.channels
    (totalSize cb.channels)

def channelFor (origin : L1BlockRef) (f : Frame) (cb : ChannelBank) : ChannelBank × Channel :=
  match cb.channels.lookup f.id with
  | some ch => (cb,ch)
  | none =>
    let ch := Channel.newChannel f.id origin false
    (⟨cb.channels.insert f.id ch,cb.channelQueue ++ [f.id]⟩,ch)

/-- The flag says whether the frame was stored. -/
def ingestFrame (cfg : Config) (origin : L1BlockRef) (f : Frame) (cb : ChannelBank) :
    Except BankPanic (ChannelBank × Bool) :=
  let (cb,currentCh) := channelFor origin f cb
  if timedOut cfg origin currentCh then .ok (cb,false)
  else
    match currentCh.addFrame f origin with
    | .error _ => .ok (cb,false)
    | .ok ch => do
      let cb ← prune cfg origin { cb with channels := cb.channels.insert f.id ch }
      .ok (cb,true)

def tryReadChannelAtIndex (cfg : Config) (origin : L1BlockRef) (i : Nat) (cb : ChannelBank) :
    Except BankPanic (ChannelBank × ReadResult) :=
  match cb.channelQueue[i]? with
  | none => .error .indexOutOfRange
  | some chanID =>
    match cb.channels.lookup chanID with
    | none => .error .missingChannel
    | some ch =>
      if timedOut cfg origin ch || !ch.isReady then .ok (cb,.eof)
      else
        match ch.reader with
        | none => .error .readerPanic
        | some data => .ok (⟨cb.channels.erase chanID,cb.channelQueue.eraseIdx i⟩,.data data)

def tryReadFrom (cfg : Config) (origin : L1BlockRef) (cb : ChannelBank) :
    Nat → Nat → Except BankPanic (ChannelBank × ReadResult)
  | _,0 => .ok (cb,.eof)
  | i,n+1 => do
    match ← tryReadChannelAtIndex cfg origin i cb with
    | (_,.eof) => tryReadFrom cfg origin cb (i + 1) n
    | (cb,res) => .ok (cb,res)

def read (cfg : Config) (origin : L1BlockRef) (cb : ChannelBank) :
    Except BankPanic (ChannelBank × ReadResult) :=
  match cb.channelQueue with
  | [] => .ok (cb,.eof)
  | first::rest =>
    match cb.channels.lookup first with
    | none => .error .missingChannel
    | some ch =>
      if timedOut cfg origin ch then .ok (⟨cb.channels.erase first,rest⟩,.timedOut)
      else if !cfg.isCanyon origin.time then tryReadChannelAtIndex cfg origin 0 cb
      else tryReadFrom cfg origin cb 0 cb.channelQueue.length

inductive RawChannelResult where
  | data (data : Option Bytes)
  | error (e : StageError)

/-- `next` is the answer of the frame provider. The flag says whether a frame was stored. -/
def nextRawChannel (cfg : Config) (origin : L1BlockRef) (next : Except StageError Frame)
    (cb : ChannelBank) : Except BankPanic (ChannelBank × RawChannelResult × Bool) := do
  match ← read cfg origin cb with
  | (cb,.data data) => .ok (cb,.data (some data),false)
  | (cb,.timedOut) => .ok (cb,.data none,false)
  | (cb,.eof) =>
    match next with
    | .error e => .ok (cb,.error e,false)
    | .ok frame =>
      let (cb,stored) ← ingestFrame cfg origin frame cb
      .ok (cb,.error .notEnoughData,stored)

end ChannelBank
end OpStack.Derive
