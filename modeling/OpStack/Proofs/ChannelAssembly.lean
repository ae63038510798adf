import OpStack.Proofs.ChannelFrames

namespace OpStack.Proofs.ChannelAssembly
open Lib Eth Derive Rollup ChannelReassembly Config ChannelAssembler List Prod
open ChannelFrames (addFrame_ok_iff)

/-- What the stage has seen: the start of a call, a frame with the origin at that time, a flush or a
reset. -/
inductive Event where
  | call (origin : L1BlockRef)
  | frame (origin : L1BlockRef) (f : Frame)
  | flush
  | reset
  deriving DecidableEq

def Event.isRestart : Event → Bool
  | .frame _ f => f.frameNumber = 0
  | .flush | .reset => true
  | .call _ => false

def Event.frame? : Event → Option (L1BlockRef × Frame)
  | .frame o f => some (o,f)
  | _ => none

def totalSize (frames : List Frame) : UInt64 := (frames.map frameSize).sum

def WithinLimit (cfg : Config) (run : List (L1BlockRef × Frame)) : Prop :=
  ∀ pre o f,pre ++ [(o,f)] <+: run →
    totalSize ((pre ++ [(o,f)]).map snd) ≤ cfg.maxRLPBytesPerChannelAt o.time

/-- A run of frames of one channel: since its first frame there was no other first frame, no flush
or reset, and no timeout at the start of a call. -/
structure Run (cfg : Config) (log : List Event) (o : L1BlockRef) (f : Frame)
    (run : List (L1BlockRef × Frame)) : Prop where
  events : ∃ pre mid,log = pre ++ .frame o f::mid ∧ (∀ e ∈ mid,e.isRestart = false) ∧
    (∀ o',.call o' ∈ mid → ¬ o.number + cfg.channelTimeoutAt o'.time < o'.number) ∧
    run.Sublist ((.frame o f::mid).filterMap Event.frame?)
  head : run.head? = some (o,f)
  limit : WithinLimit cfg run

/-- The data of a channel whose frames 0, 1, …, n were received in that order, with the last one at
the end of the events. -/
def WellOrdered (cfg : Config) (log : List Event) (data : Bytes) : Prop :=
  ∃ o f run,Run cfg log o f run ∧ Complete f.id (run.map snd) ∧
    log.getLast?.bind Event.frame? = run.getLast? ∧
    data = (run.map snd).flatMap Frame.data

variable {cfg : Config} {log : List Event} {o o' : L1BlockRef} {f g : Frame}
  {run : List (L1BlockRef × Frame)} {ch : Channel}

theorem withinLimit_nil (cfg : Config) : WithinLimit cfg [] := by
  intro pre o f hpre
  simp at hpre

theorem WithinLimit.concat (h : WithinLimit cfg run)
    (hsize : totalSize ((run ++ [(o,f)]).map snd) ≤ cfg.maxRLPBytesPerChannelAt o.time) :
    WithinLimit cfg (run ++ [(o,f)]) := by
  intro pre o' f' hpre
  rcases prefix_concat_iff.mp hpre with heq | hpre
  · obtain ⟨rfl,hls⟩ := append_inj' heq rfl
    cases hls
    exact hsize
  · exact h pre o' f' hpre

theorem Run.extend (h : Run cfg log o f run) {e : Event} (he : e.isRestart = false)
    (hcall : ∀ o',e = .call o' → ¬ o.number + cfg.channelTimeoutAt o'.time < o'.number) :
    Run cfg (log ++ [e]) o f run := by
  obtain ⟨pre,mid,hlog,hmid,htm,hsub⟩ := h.events
  refine ⟨⟨pre,mid ++ [e],?_,?_,?_,?_⟩,h.head,h.limit⟩
  · simp [hlog]
  · intro e' he'
    rcases mem_append.mp he' with he' | he'
    · exact hmid e' he'
    · rw [mem_singleton.mp he']
      exact he
  · intro o' ho'
    rcases mem_append.mp ho' with ho' | ho'
    · exact htm o' ho'
    · exact hcall o' (mem_singleton.mp ho').symm
  · rw [← cons_append,filterMap_append]
    exact hsub.trans (sublist_append_left _ _)

theorem Run.add (h : Run cfg log o f run) (hg : g.frameNumber ≠ 0)
    (hsize : totalSize ((run ++ [(o',g)]).map snd) ≤ cfg.maxRLPBytesPerChannelAt o'.time) :
    Run cfg (log ++ [.frame o' g]) o f (run ++ [(o',g)]) := by
  obtain ⟨pre,mid,hlog,hmid,htm,hsub⟩ := h.events
  refine ⟨⟨pre,mid ++ [.frame o' g],?_,?_,?_,?_⟩,?_,?_⟩
  · simp [hlog]
  · intro e' he'
    rcases mem_append.mp he' with he' | he'
    · exact hmid e' he'
    · rw [mem_singleton.mp he']
      simpa [Event.isRestart] using hg
  · intro o'' ho''
    simp only [mem_append,mem_singleton,reduceCtorEq,or_false] at ho''
    exact htm o'' ho''
  · rw [← cons_append,filterMap_append]
    exact hsub.append (List.Sublist.refl _)
  · simp [h.head]
  · exact h.limit.concat hsize

theorem Run.start (log : List Event) (hsize : totalSize [f] ≤ cfg.maxRLPBytesPerChannelAt o.time) :
    Run cfg (log ++ [.frame o f]) o f [(o,f)] := by
  exact ⟨⟨log,[],rfl,by simp,by simp,by simp [Event.frame?]⟩,rfl,(withinLimit_nil cfg).concat hsize⟩

structure Holding (id : ChannelID) (o : L1BlockRef) (run : List (L1BlockRef × Frame))
    (ch : Channel) : Prop where
  fed : Fed id (run.map snd) ch
  opened : ch.closed = false
  openBlock : ch.openBlock = o
  size : ch.size = totalSize (run.map snd)
  numbered : Numbered id 0 (run.map snd)
  bound : run.length ≤ 2 ^ 16
  notLast : ∀ g ∈ run.map snd,g.isLast = false

theorem newChannel_holding (id : ChannelID) (o : L1BlockRef) :
    Holding id o [] (.newChannel id o true) := by
  refine ⟨newChannel_fed id o,rfl,rfl,rfl,?_,by simp,by simp⟩
  intro i g hg
  simp at hg

variable {ch' : Channel} {frames : List Frame} {id : ChannelID}

theorem addFrame_cases (h : Fed id frames ch) (hadd : ch.addFrame g o' = .ok ch') :
    g.id = id ∧ g.frameNumber.toNat = frames.length ∧ ch' = ch.insertFrame g o' := by
  obtain ⟨ht,rfl⟩ := addFrame_ok_iff.mp hadd
  exact ⟨ht.id.trans h.id_eq,(ht.next h.inOrder).trans h.count,rfl⟩

theorem insertFrame_size (h : Fed id frames ch) (hnum : g.frameNumber.toNat = frames.length)
    (o' : L1BlockRef) : (ch.insertFrame g o').size = ch.size + frameSize g ∧
      (ch.insertFrame g o').openBlock = ch.openBlock := by
  rw [Channel.insertFrame_eq_of_keeps o' (h.keeps hnum)]
  exact ⟨rfl,rfl⟩

theorem addFrame_holding (h : Holding id o run ch) (hadd : ch.addFrame g o' = .ok ch') :
    g.frameNumber.toNat = run.length ∧
    ch'.size = totalSize ((run ++ [(o',g)]).map snd) ∧
    (g.isLast = false → Holding id o (run ++ [(o',g)]) ch') ∧
    (g.isLast = true → ch'.isReady = true ∧
      ch'.reader = some (((run ++ [(o',g)]).map snd).flatMap Frame.data) ∧
      Complete id ((run ++ [(o',g)]).map snd)) := by
  obtain ⟨hid,hnum,rfl⟩ := addFrame_cases h.fed hadd
  have hlen : g.frameNumber.toNat = run.length := by rw [hnum,length_map]
  obtain ⟨hsz,hop⟩ := insertFrame_size h.fed hnum o'
  obtain ⟨hfed,hcl,-⟩ := insertFrame_fed h.fed hnum h.opened o'
  have htot : (ch.insertFrame g o').size = totalSize ((run ++ [(o',g)]).map snd) := by
    rw [hsz,h.size]
    simp [totalSize]
  have hbd : (run ++ [(o',g)]).length ≤ 2 ^ 16 := by
    have hlt := g.frameNumber.toNat_lt
    rw [length_append,← hlen]
    exact hlt
  have hnumbered : Numbered id 0 ((run ++ [(o',g)]).map snd) := by
    intro i x hx
    rw [map_append] at hx
    rcases getElem?_concat_cases hx with hx | ⟨rfl,rfl⟩
    · exact h.numbered i x hx
    · rw [← hnum,Nat.zero_add,UInt16.ofNat_toNat]
      exact ⟨hid,rfl⟩
  rw [map_append] at hnumbered ⊢
  refine ⟨hlen,by simpa using htot,?_,?_⟩
  · intro hl
    refine ⟨by simpa using hfed,hcl.trans hl,hop.trans h.openBlock,htot,
      by simpa using hnumbered,hbd,?_⟩
    intro x hx
    rw [map_append] at hx
    rcases mem_append.mp hx with hx | hx
    · exact h.notLast x hx
    · rw [mem_singleton.mp hx]
      exact hl
  · intro hl
    obtain ⟨ch',hok,hrdy,hrdr⟩ := addFrame_last h.fed hid hnum h.opened hl o'
    rw [hadd] at hok
    cases hok
    refine ⟨hrdy,hrdr,hnumbered,?_,run.map snd,g,rfl,hl,h.notLast⟩
    simpa using hbd

def Staged (cfg : Config) (log : List Event) (ch : Channel) : Prop :=
  ∃ o f run,Run cfg log o f run ∧ Holding f.id o run ch

def Ingested (cfg : Config) (log : List Event) : Option Channel × Bool → Prop
  | (channel,false) => ∀ ch,channel = some ch → Staged cfg log ch
  | (channel,true) => ∃ ch data,channel = some ch ∧ ch.isReady = true ∧ ch.reader = some data ∧
      WellOrdered cfg log data

theorem added_ingested (hrun : run ≠ [] → Run cfg log o f run) (hfirst : run = [] → o = o' ∧ f = g)
    (h : Holding f.id o run ch) (hadd : ch.addFrame g o' = .ok ch') :
    Ingested cfg (log ++ [.frame o' g])
      (if cfg.maxRLPBytesPerChannelAt o'.time < ch'.size then (none,false)
        else (some ch',g.isLast)) := by
  obtain ⟨hlen,hsz,hop,hdo⟩ := addFrame_holding h hadd
  split
  · nofun
  rename_i hfi
  rw [hsz,UInt64.not_lt] at hfi
  have hnx : Run cfg (log ++ [.frame o' g]) o f (run ++ [(o',g)]) := by
    by_cases hnil : run = []
    · obtain ⟨rfl,rfl⟩ := hfirst hnil
      subst hnil
      exact Run.start log hfi
    refine (hrun hnil).add ?_ hfi
    intro hz
    rw [hz] at hlen
    exact hnil (length_eq_zero_iff.mp hlen.symm)
  cases hl : g.isLast with
  | false =>
    rintro x hx
    cases hx
    exact ⟨o,f,_,hnx,hop hl⟩
  | true =>
    obtain ⟨hrdy,hrdr,hcmp⟩ := hdo hl
    refine ⟨ch',_,rfl,hrdy,hrdr,o,f,_,hnx,hcmp,?_,rfl⟩
    simp [Event.frame?]

theorem ingestFrame_ingested {channel : Option Channel}
    (h : ∀ ch,channel = some ch → Staged cfg log ch) (o' : L1BlockRef) (g : Frame) :
    Ingested cfg (log ++ [.frame o' g]) (ingestFrame cfg o' channel g) := by
  unfold ingestFrame
  by_cases hz : g.frameNumber = 0
  · -- a first frame always goes into its new channel
    have hhold := newChannel_holding g.id o'
    have hadd := addFrame_next hhold.fed (by rw [hz]; rfl) rfl hhold.opened o'
    simp only [if_pos hz,hadd]
    exact added_ingested (fun hne => absurd rfl hne) (fun _ => ⟨rfl,rfl⟩) hhold hadd
  have hsk : ∀ ch,channel = some ch → Staged cfg (log ++ [.frame o' g]) ch := by
    intro ch hch
    obtain ⟨o,f,run,hrun,hhold⟩ := h ch hch
    exact ⟨o,f,run,hrun.extend (by simpa [Event.isRestart] using hz) (by simp),hhold⟩
  simp only [if_neg hz]
  cases channel with
  | none => nofun
  | some ch =>
    obtain ⟨o,f,run,hrun,hhold⟩ := h ch rfl
    simp only
    cases hadd : ch.addFrame g o' with
    | error e => exact hsk
    | ok ch' =>
      refine added_ingested (fun _ => hrun) ?_ hhold hadd
      intro hnil
      have hhd := hrun.head
      simp [hnil] at hhd

theorem ingestFrames_ingested {channel channel' : Option Channel} {rest : Option (List Frame)}
    (o' : L1BlockRef) (h : ∀ ch,channel = some ch → Staged cfg log ch)
    (hin : ingestFrames cfg o' channel frames = (channel',rest)) :
    ∃ used,frames = used ++ rest.getD [] ∧
      Ingested cfg (log ++ used.map (.frame o')) (channel',rest.isSome) := by
  induction frames generalizing channel log with
  | nil =>
    cases hin
    refine ⟨[],rfl,?_⟩
    rw [map_nil,append_nil]
    exact h
  | cons g frames ih =>
    have hone := ingestFrame_ingested h o' g
    unfold ingestFrames at hin
    cases hg : ingestFrame cfg o' channel g with
    | mk channel₁ done =>
      rw [hg] at hin hone
      cases done with
      | true =>
        cases hin
        exact ⟨[g],rfl,hone⟩
      | false =>
        obtain ⟨used,hused,hres⟩ := ih hone hin
        refine ⟨g::used,by rw [hused,cons_append],?_⟩
        rw [map_cons,append_cons]
        exact hres

structure Assembly where
  stage : ChannelAssembler
  log : List Event

inductive Op (ε : Type) where
  | nextRawChannel (origin : L1BlockRef) (frames : List Frame) (e : ε)
  | reset
  | flushChannel

def callLog (origin : L1BlockRef) (frames rest : List Frame) : List Event :=
  .call origin::(frames.take (frames.length - rest.length)).map (.frame origin)

def exec {ε : Type} (cfg : Config) (s : Assembly) : Op ε → Assembly
  | .nextRawChannel origin frames e =>
    let (stage,rest,_) := s.stage.nextRawChannel cfg origin frames e
    ⟨stage,s.log ++ callLog origin frames rest⟩
  | .reset => ⟨s.stage.reset,s.log ++ [.reset]⟩
  | .flushChannel => ⟨s.stage.flushChannel,s.log ++ [.flush]⟩

def Step (ε : Type) (cfg : Config) (s s' : Assembly) : Prop := ∃ op : Op ε,exec cfg s op = s'

def start : Assembly := ⟨.newChannelAssembler,[]⟩

def Returned {ε : Type} (cfg : Config) (log : List Event) : Except (AssemblerError ε) Bytes → Prop
  | .ok data => WellOrdered cfg log data
  | .error (.prev _) => True
  | .error _ => False

theorem isReady_closed {ch : Channel} (h : ch.closed = false) : ch.isReady = false := by
  simp [Channel.isReady,h]

theorem nextRawChannel_returned {ε : Type} {ca : ChannelAssembler}
    (h : ∀ ch,ca.channel = some ch → Staged cfg log ch) (o' : L1BlockRef) (frames : List Frame)
    (e : ε) {stage : ChannelAssembler} {rest : List Frame} {res : Except (AssemblerError ε) Bytes}
    (hnext : ca.nextRawChannel cfg o' frames e = (stage,rest,res)) :
    rest <:+ frames ∧ Returned cfg (log ++ callLog o' frames rest) res ∧
      ∀ ch,stage.channel = some ch → Staged cfg (log ++ callLog o' frames rest) ch := by
  have hkp : ∀ ch,(ca.channel.filter fun ch => !channelTimedOut cfg o' ch) =
      some ch → Staged cfg (log ++ [.call o']) ch ∧ ch.isReady = false := by
    intro ch hch
    obtain ⟨hso,hout⟩ := Option.filter_eq_some_iff.mp hch
    obtain ⟨o,f,run,hrun,hhold⟩ := h ch hso
    refine ⟨⟨o,f,run,hrun.extend rfl ?_,hhold⟩,isReady_closed hhold.opened⟩
    simpa [channelTimedOut,hhold.openBlock] using hout
  unfold nextRawChannel at hnext
  generalize (ca.channel.filter fun ch => !channelTimedOut cfg o' ch) = channel at hkp hnext
  have hno : ¬ channel.any Channel.isReady = true := by
    intro hany
    obtain ⟨ch,hch,hrdy⟩ := (Option.any_eq_true ..).mp hany
    simp [(hkp ch hch).2] at hrdy
  simp only [if_neg hno] at hnext
  cases hin : ingestFrames cfg o' channel frames with
  | mk channel' left =>
    obtain ⟨used,hused,hres⟩ := ingestFrames_ingested o' (fun ch hch => (hkp ch hch).1) hin
    rw [append_assoc] at hres
    rw [hin] at hnext
    cases left with
    | none =>
      cases hnext
      rw [Option.getD_none,append_nil] at hused
      subst hused
      have hlog : callLog o' frames [] = .call o'::frames.map (.frame o') := by simp [callLog]
      rw [hlog]
      exact ⟨⟨frames,append_nil _⟩,trivial,hres⟩
    | some left =>
      obtain ⟨ch,data,rfl,hrdy,hrdr,hord⟩ := hres
      simp only [hrdy,hrdr] at hnext
      cases hnext
      have hlog : callLog o' frames rest = .call o'::used.map (.frame o') := by
        rw [hused]
        simp [callLog]
      rw [hlog]
      refine ⟨⟨used,hused.symm⟩,hord,?_⟩
      nofun

theorem exec_staged {ε : Type} {s : Assembly} (op : Op ε)
    (h : ∀ ch,s.stage.channel = some ch → Staged cfg s.log ch) :
    ∀ ch,(exec cfg s op).stage.channel = some ch → Staged cfg (exec cfg s op).log ch := by
  cases op with
  | nextRawChannel origin frames e =>
    cases hnx : s.stage.nextRawChannel cfg origin frames e with
    | mk stage p =>
      simp only [exec,hnx]
      exact (nextRawChannel_returned h origin frames e hnx).2.2
  | reset => nofun
  | flushChannel => nofun

/-- Every byte string that is returned is the data of a well-ordered channel, and no call ends in a
critical error or a panic. -/
theorem assembler_emits_well_ordered {ε : Type} (cfg : Config) (s : Assembly)
    (h : Reaches (Step ε cfg) start s) (origin : L1BlockRef) (frames : List Frame) (e : ε)
    {stage : ChannelAssembler} {rest : List Frame} {res : Except (AssemblerError ε) Bytes}
    (hnext : s.stage.nextRawChannel cfg origin frames e = (stage,rest,res)) :
    rest <:+ frames ∧ Returned cfg (s.log ++ callLog origin frames rest) res := by
  have hs : ∀ ch,s.stage.channel = some ch → Staged cfg s.log ch := by
    refine h.invariant (P := fun s => ∀ ch,s.stage.channel = some ch → Staged cfg s.log ch) ?_ ?_
    · nofun
    · rintro x y hx ⟨op,rfl⟩
      exact exec_staged op hx
  obtain ⟨hrs,hres,-⟩ := nextRawChannel_returned hs origin frames e hnext
  exact ⟨hrs,hres⟩

def openOrigin : L1BlockRef := ⟨hashOf 7,8,hashOf 6,100⟩
def closeOrigin : L1BlockRef := ⟨hashOf 8,58,hashOf 7,200⟩

def openedSample : Assembly :=
  exec sampleConfig start (.nextRawChannel openOrigin [⟨.fill 16 2,3,[9],true⟩,
    ⟨.fill 16 1,0,[1,2],false⟩,⟨.fill 16 2,1,[5],false⟩] ())

/-- The channel is completed in the last block before it times out. -/
theorem assembler_emits_well_ordered_sample : Reaches (Step Unit sampleConfig) start openedSample ∧
    openedSample.stage.nextRawChannel sampleConfig closeOrigin
      [⟨.fill 16 1,1,[3],true⟩,⟨.fill 16 1,2,[4],false⟩] () =
        (⟨none⟩,[⟨.fill 16 1,2,[4],false⟩],.ok [1,2,3]) ∧
    WellOrdered sampleConfig (openedSample.log ++
      [.call closeOrigin,.frame closeOrigin ⟨.fill 16 1,1,[3],true⟩]) [1,2,3] := by
  have hrch : Reaches (Step Unit sampleConfig) start openedSample := .single ⟨_,rfl⟩
  have hnx : openedSample.stage.nextRawChannel sampleConfig closeOrigin
      [⟨.fill 16 1,1,[3],true⟩,⟨.fill 16 1,2,[4],false⟩] () =
        (⟨none⟩,[⟨.fill 16 1,2,[4],false⟩],.ok [1,2,3]) := rfl
  exact ⟨hrch,hnx,
    (assembler_emits_well_ordered sampleConfig openedSample hrch closeOrigin _ () hnx).2⟩

end OpStack.Proofs.ChannelAssembly
