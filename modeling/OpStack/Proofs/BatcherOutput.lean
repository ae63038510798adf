import OpStack.Lib.Lists
import OpStack.Proofs.Builder
import OpStack.Proofs.ChannelReassembly
import OpStack.Proofs.Config

namespace OpStack.Proofs.BatcherOutput
open Lib Eth Batcher Builder ChannelReassembly Config ChannelBuilder List Nat
open Derive Channel

def cutFrame (id : ChannelID) (number : Nat) (ready : Bytes) (closed : Bool) (size : UInt64) :
    Frame where
  id := id
  frameNumber := .ofNat number
  data := ready.take (size.toNat - frameV0OverHeadSize)
  isLast := closed && decide (ready.length ≤ size.toNat - frameV0OverHeadSize)

/-- A channel out that cuts a byte stream into frames. `Sent co sent`: the data of the frames so far
is `sent`; once it is closed, that and what is ready are the stream. -/
structure Framing {ω : Type} (out : ChannelOut ω) where
  frame : ω → Nat
  closed : ω → Bool
  ready : ω → Bytes
  stream : ω → Bytes
  Sent : ω → Bytes → Prop
  output : ∀ {size co sent},frameV0OverHeadSize ≤ size.toNat → Sent co sent → ∃ co',
    out.outputFrame size co = (co',outputFrameOf
      (some (cutFrame (out.id co) (frame co) (ready co) (closed co) size))) ∧
    out.id co' = out.id co ∧ frame co' = frame co + 1 ∧
    ready co' = (ready co).drop (size.toNat - frameV0OverHeadSize) ∧ stream co' = stream co ∧
    Sent co' (sent ++ (ready co).take (size.toNat - frameV0OverHeadSize))
  output_closed : ∀ size co,closed (out.outputFrame size co).1 = closed co
  addBlock : ∀ {co sent} block,closed co = false → Sent co sent →
    out.id (out.addBlock co block).1 = out.id co ∧
    frame (out.addBlock co block).1 = frame co ∧ closed (out.addBlock co block).1 = false ∧
    Sent (out.addBlock co block).1 sent
  addBlock_closed : ∀ co block,closed co = true → closed (out.addBlock co block).1 = true
  close_closed : ∀ co,closed (out.close co).1 = true
  close_twice : ∀ co,closed co = true → (out.close co).2 ≠ none
  close : ∀ {co co' sent},out.close co = (co',none) → Sent co sent →
    out.id co' = out.id co ∧ frame co' = frame co ∧ Sent co' sent ∧
    sent ++ ready co' = stream co'

section builder
variable {ω : Type} {out : ChannelOut ω} {law : Framing out} {id : ChannelID}
  {b b' : ChannelBuilder ω} {fs : List Frame}

structure Produced (law : Framing out) (id : ChannelID) (b : ChannelBuilder ω) (fs : List Frame) :
    Prop where
  data : b.frames.map FrameData.data = fs.map Frame.marshalBinary
  numbered : Numbered id 0 fs
  count : law.frame b.co = fs.length
  id_eq : out.id b.co = id
  sent : law.Sent b.co (fs.flatMap Frame.data)

variable {fuel : Nat} {sent : Bytes}

theorem Produced.same (h : SameFrames b b') (hp : Produced law id b fs) : Produced law id b' fs := by
  refine ⟨?_,hp.numbered,?_,?_,?_⟩
  · rw [h.frames]
    exact hp.data
  · rw [h.co]
    exact hp.count
  · rw [h.co]
    exact hp.id_eq
  · rw [h.co]
    exact hp.sent

theorem numbered_concat {f : Frame} (h : Numbered id 0 fs) (hid : f.id = id)
    (hnum : f.frameNumber = .ofNat fs.length) : Numbered id 0 (fs ++ [f]) := by
  intro i g hg
  rcases getElem?_concat_cases hg with hg | ⟨rfl,rfl⟩
  · exact h i g hg
  · rw [zero_add]
    exact ⟨hid,hnum⟩

structure Cuts (law : Framing out) (b b' : ChannelBuilder ω) (f : Frame) : Prop where
  cfg : b'.cfg = b.cfg
  closed : law.closed b'.co = law.closed b.co
  stream : law.stream b'.co = law.stream b.co
  frame : f = cutFrame (out.id b.co) (law.frame b.co) (law.ready b.co) (law.closed b.co)
    b.cfg.maxFrameSize
  ready : law.ready b'.co =
    (law.ready b.co).drop (b.cfg.maxFrameSize.toNat - frameV0OverHeadSize)

theorem outputFrame_produced (hp : Produced law id b fs)
    (hsize : frameV0OverHeadSize ≤ b.cfg.maxFrameSize.toNat) :
    ∃ f,Produced law id (b.outputFrame out).1 (fs ++ [f]) ∧ Cuts law b (b.outputFrame out).1 f ∧
      (b.outputFrame out).2 = if f.isLast then some .eof else none := by
  obtain ⟨co,hout,hid,hfra,hrdy,hstr,hsent⟩ := law.output hsize hp.sent
  have hclosed := law.output_closed b.cfg.maxFrameSize b.co
  rw [hout] at hclosed
  rcases outputFrame_spec out b with ⟨co',heq,-⟩ | ⟨co',data,fn,last,heq,hs,hres⟩
  · rw [hout] at heq
    cases heq
  rw [hout] at heq
  obtain ⟨rfl,rfl,rfl,rfl⟩ := heq
  refine ⟨cutFrame (out.id b.co) (law.frame b.co) (law.ready b.co) (law.closed b.co)
    b.cfg.maxFrameSize,?_,?_,hres⟩
  · refine Produced.same hs ⟨?_,?_,?_,?_,?_⟩
    · simp [hp.data]
    · refine numbered_concat hp.numbered hp.id_eq ?_
      rw [cutFrame,hp.count]
    · rw [hfra,hp.count,length_append,length_singleton]
    · exact hid.trans hp.id_eq
    · rw [flatMap_append,flatMap_singleton]
      exact hsent
  · refine ⟨hs.cfg,?_,?_,rfl,?_⟩
    · rw [hs.co]
      exact hclosed
    · rw [hs.co]
      exact hstr
    · rw [hs.co]
      exact hrdy

/-- As long as the channel out is open, all frames are there and none is the last one. -/
structure Inv (law : Framing out) (id : ChannelID) (b : ChannelBuilder ω) : Prop where
  size : frameV0OverHeadSize < b.cfg.maxFrameSize.toNat
  frames : law.closed b.co = false →
    ∃ fs,Produced law id b fs ∧ ∀ f ∈ fs,f.isLast = false

theorem Inv.same (h : SameFrames b b') (hi : Inv law id b) : Inv law id b' := by
  refine ⟨?_,?_⟩
  · rw [h.cfg]
    exact hi.size
  intro hop
  rw [h.co] at hop
  obtain ⟨fs,hp,hls⟩ := hi.frames hop
  exact ⟨fs,hp.same h,hls⟩

theorem outputFrame_closed (law : Framing out) (b : ChannelBuilder ω) :
    law.closed (b.outputFrame out).1.co = law.closed b.co := by
  have hclosed := law.output_closed b.cfg.maxFrameSize b.co
  rcases outputFrame_spec out b with ⟨co,heq,hout⟩ | ⟨co,data,fn,last,heq,hs,-⟩
  · rw [heq] at hclosed
    rw [hout]
    exact hclosed
  rw [heq] at hclosed
  rw [hs.co]
  exact hclosed

theorem outputFrame_cfg (out : ChannelOut ω) (b : ChannelBuilder ω) :
    (b.outputFrame out).1.cfg = b.cfg := by
  rcases outputFrame_spec out b with ⟨co,-,hout⟩ | ⟨co,data,fn,last,-,hs,-⟩
  · rw [hout]
  · rw [hs.cfg]

theorem outputFrame_inv (hi : Inv law id b) : Inv law id (b.outputFrame out).1 := by
  refine ⟨?_,?_⟩
  · rw [outputFrame_cfg]
    exact hi.size
  intro hop
  rw [outputFrame_closed] at hop
  obtain ⟨fs,hp,hls⟩ := hi.frames hop
  obtain ⟨f,hp',hcu,-⟩ := outputFrame_produced hp (le_of_lt hi.size)
  refine ⟨fs ++ [f],hp',?_⟩
  intro g hg
  rcases mem_append.mp hg with hg | hg
  · exact hls g hg
  · simp [mem_singleton.mp hg,hcu.frame,cutFrame,hop]

theorem outputFrames_inv {ok : Bool} (hi : Inv law id b)
    (h : b.outputFrames out fuel = .ok (b',ok)) : Inv law id b' := by
  have hend : Ends (fun p => Inv law id p.1) (fun _ => True) (b.outputFrames out fuel) := by
    refine outputFrames_keeps (I := Inv law id) (fun d hd => outputFrame_inv hd) trivial ?_ fuel hi
    intro d hd
    refine ⟨hd.size,?_⟩
    intro hop
    simp [law.close_closed] at hop
  exact hend.of_eq h

theorem addBlock_inv (block : SizedBlock) (hi : Inv law id b) :
    Inv law id (b.addBlock out block).1 := by
  obtain ⟨co,hco,hs⟩ := addBlock_frames out block b
  refine Inv.same hs ?_
  rcases hco with rfl | rfl
  · exact hi
  refine ⟨hi.size,?_⟩
  intro hop
  cases hc : law.closed b.co with
  | true => simp [law.addBlock_closed b.co block hc] at hop
  | false =>
    obtain ⟨fs,hp,hls⟩ := hi.frames hc
    obtain ⟨hid,hfra,-,hsent⟩ := law.addBlock block hc hp.sent
    exact ⟨fs,⟨hp.data,hp.numbered,hfra.trans hp.count,hid.trans hp.id_eq,hsent⟩,hls⟩

theorem outputAllFrames_succ {last : Bool}
    (h : (b.outputFrame out).2 = if last then some .eof else none) :
    b.outputAllFrames out (fuel + 1) = if last then .ok ((b.outputFrame out).1,true)
      else (b.outputFrame out).1.outputAllFrames out fuel := by
  rw [outputAllFrames]
  cases ho : b.outputFrame out with
  | mk d err =>
    rw [ho] at h
    cases h
    cases last <;> rfl

variable (hp : Produced law id b fs) (hclosed : law.closed b.co = true)
include hp hclosed

theorem outputAllFrames_complete (hsize : frameV0OverHeadSize ≤ b.cfg.maxFrameSize.toNat)
    (hlast : ∀ f ∈ fs,f.isLast = false)
    (hstream : fs.flatMap Frame.data ++ law.ready b.co = law.stream b.co)
    (h : b.outputAllFrames out fuel = .ok (b',true)) :
    ∃ init f,Produced law id b' (init ++ [f]) ∧ f.isLast = true ∧ (∀ g ∈ init,g.isLast = false) ∧
      (init ++ [f]).flatMap Frame.data = law.stream b'.co := by
  induction fuel generalizing b fs with
  | zero => cases h
  | succ fuel ih =>
    obtain ⟨f,hp',hcu,hres⟩ := outputFrame_produced hp hsize
    have hda : f.data = (law.ready b.co).take (b.cfg.maxFrameSize.toNat - frameV0OverHeadSize) := by
      rw [hcu.frame]
      rfl
    have hsum : (fs ++ [f]).flatMap Frame.data ++ law.ready (b.outputFrame out).1.co =
        law.stream (b.outputFrame out).1.co := by
      rw [hcu.ready,hcu.stream,flatMap_append,flatMap_singleton,append_assoc,
        hda,take_append_drop,hstream]
    rw [outputAllFrames_succ hres] at h
    cases hf : f.isLast with
    | true =>
      rw [hf] at h
      cases h
      have hfi := hf
      rw [hcu.frame,cutFrame,hclosed,Bool.true_and,decide_eq_true_eq] at hfi
      rw [hcu.ready,drop_eq_nil_of_le hfi,append_nil] at hsum
      exact ⟨fs,f,hp',hf,hlast,hsum⟩
    | false =>
      rw [hf] at h
      refine ih hp' (hcu.closed.trans hclosed) (by rw [hcu.cfg]; exact hsize) ?_ hsum h
      intro g hg
      rcases mem_append.mp hg with hg | hg
      · exact hlast g hg
      · rw [mem_singleton.mp hg]
        exact hf

theorem outputAllFrames_one (hsize : frameV0OverHeadSize ≤ b.cfg.maxFrameSize.toNat)
    (hfits : (law.ready b.co).length ≤ b.cfg.maxFrameSize.toNat - frameV0OverHeadSize) :
    b.outputAllFrames out (fuel + 1) = .ok ((b.outputFrame out).1,true) := by
  obtain ⟨f,-,hcu,hres⟩ := outputFrame_produced hp hsize
  have hf : f.isLast = true := by simp [hcu.frame,cutFrame,hclosed,decide_eq_true hfits]
  simp [outputAllFrames_succ hres,hf]

theorem outputAllFrames_returns (hsize : frameV0OverHeadSize < b.cfg.maxFrameSize.toNat)
    (hfuel : (law.ready b.co).length < fuel) : ∃ b',b.outputAllFrames out fuel = .ok (b',true) := by
  induction fuel generalizing b fs with
  | zero => cases hfuel
  | succ fuel ih =>
    by_cases hfi : (law.ready b.co).length ≤ b.cfg.maxFrameSize.toNat - frameV0OverHeadSize
    · exact ⟨_,outputAllFrames_one hp hclosed (le_of_lt hsize) hfi⟩
    obtain ⟨f,hp',hcu,hres⟩ := outputFrame_produced hp (le_of_lt hsize)
    have hf : f.isLast = false := by rw [hcu.frame,cutFrame,decide_eq_false hfi,Bool.and_false]
    have hrdy := congrArg length hcu.ready
    rw [length_drop] at hrdy
    rw [outputAllFrames_succ hres,hf]
    refine ih hp' (hcu.closed.trans hclosed) ?_ ?_
    · rw [hcu.cfg]
      exact hsize
    · omega

end builder

/-- A compressor that emits a byte stream, of which `unread` can still be read. -/
structure Stream {κ : Type} (comp : ChannelCompressor κ) where
  unread : κ → Bytes
  emitted : κ → Bytes
  len : ∀ k,comp.len k = (unread k).length
  read : ∀ {k n},n ≤ (unread k).length → ∃ k',comp.read n k = (k',some ((unread k).take n)) ∧
    unread k' = (unread k).drop n ∧ emitted k' = emitted k
  write : ∀ p k,∃ more,unread (comp.write p k).1 = unread k ++ more ∧
    emitted (comp.write p k).1 = emitted k ++ more
  close : ∀ k,∃ more,unread (comp.close k).1 = unread k ++ more ∧
    emitted (comp.close k).1 = emitted k ++ more
  reset : ∀ k,unread (comp.reset k) = emitted (comp.reset k)

section outs
variable {κ : Type}

theorem createEmptyFrame_cut (id : ChannelID) (frame : Nat) (ready : Bytes) (closed : Bool)
    (size : UInt64) : ∃ f n,createEmptyFrame id frame ready.length closed size = (f,n) ∧
      n ≤ ready.length ∧ { f with data := ready.take n } = cutFrame id frame ready closed size ∧
      ready.drop n = ready.drop (size.toNat - frameV0OverHeadSize) := by
  unfold cutFrame
  by_cases hle : ready.length ≤ size.toNat - frameV0OverHeadSize
  · refine ⟨_,_,if_pos hle,le_refl _,?_,?_⟩
    · rw [take_length,take_of_length_le hle,decide_eq_true hle,Bool.and_true]
    · rw [drop_length,drop_eq_nil_of_le hle]
  · refine ⟨_,_,if_neg hle,le_of_lt (not_le.mp hle),?_,rfl⟩
    rw [decide_eq_false hle,Bool.and_false]

theorem addSingularBatch_sent {comp : Compressor κ} (s : Stream comp.toChannelCompressor)
    (batch : SingularBatch) (co : SingularChannelOut κ) :
    (co.addSingularBatch comp batch).1.id = co.id ∧
    (co.addSingularBatch comp batch).1.frame = co.frame ∧
    (co.addSingularBatch comp batch).1.closed = co.closed ∧
    ∃ more,s.unread (co.addSingularBatch comp batch).1.compress = s.unread co.compress ++ more ∧
      s.emitted (co.addSingularBatch comp batch).1.compress = s.emitted co.compress ++ more := by
  unfold SingularChannelOut.addSingularBatch
  split
  · exact ⟨rfl,rfl,rfl,[],(append_nil _).symm,(append_nil _).symm⟩
  simp only
  split
  · exact ⟨rfl,rfl,rfl,[],(append_nil _).symm,(append_nil _).symm⟩
  · exact ⟨rfl,rfl,rfl,s.write _ _⟩

theorem sent_append {unread emitted unread' emitted' : Bytes} (h : sent ++ unread = emitted)
    (hmore : ∃ more,unread' = unread ++ more ∧ emitted' = emitted ++ more) :
    sent ++ unread' = emitted' := by
  obtain ⟨more,hu,he⟩ := hmore
  rw [hu,he,← append_assoc,h]

def singularFraming {comp : Compressor κ} (s : Stream comp.toChannelCompressor)
    (convert : BlockConversion) : Framing (singularChannelOut comp convert) where
  frame co := co.frame
  closed co := co.closed
  ready co := s.unread co.compress
  stream co := s.emitted co.compress
  Sent co sent := sent ++ s.unread co.compress = s.emitted co.compress
  output := by
    intro size co sent hsize hsent
    obtain ⟨f,n,hf,hn,hcut,hdrop⟩ :=
      createEmptyFrame_cut co.id co.frame (s.unread co.compress) co.closed size
    obtain ⟨k,hread,hunread,hemitted⟩ := s.read hn
    refine ⟨{ co with compress := k, frame := co.frame + 1 },?_,rfl,rfl,?_,hemitted,?_⟩
    · simp [singularChannelOut,SingularChannelOut.outputFrame,SingularChannelOut.readyBytes,
        s.len,if_neg (not_lt.mpr hsize),hf,hread,hcut]
    · simp [hunread,hdrop]
    · simp only [hunread,hdrop,hemitted,append_assoc,take_append_drop]
      exact hsent
  output_closed := by
    intro size co
    simp only [singularChannelOut,SingularChannelOut.outputFrame]
    split
    · rfl
    split
    · rfl
    · rfl
  addBlock := by
    intro co sent block hopen hsent
    simp only [singularChannelOut,hopen]
    rw [if_neg (by simp)]
    split
    · exact ⟨rfl,rfl,hopen,hsent⟩
    rename_i batch l1Info _
    obtain ⟨hid,hframe,hclosed,hmore⟩ := addSingularBatch_sent s batch co
    exact ⟨hid,hframe,hclosed.trans hopen,sent_append hsent hmore⟩
  addBlock_closed := by
    intro co block hclosed
    simp [singularChannelOut,hclosed]
  close_closed := by
    intro co
    simp only [singularChannelOut,SingularChannelOut.close]
    split
    · assumption
    · rfl
  close_twice := by
    intro co hclosed
    simp [singularChannelOut,SingularChannelOut.close,hclosed]
  close := by
    intro co co' sent hclose hsent
    have hc := s.close co.compress
    simp only [singularChannelOut,SingularChannelOut.close] at hclose
    split at hclose
    · cases hclose
    rw [Prod.mk.injEq] at hclose
    obtain ⟨rfl,-⟩ := hclose
    exact ⟨rfl,rfl,sent_append hsent hc,sent_append hsent hc⟩

def Fresh {comp : ChannelCompressor κ} (s : Stream comp) (k : κ) : Prop := s.unread k = s.emitted k

structure Recompresses {comp : ChannelCompressor κ} (s : Stream comp)
    (co co' : SpanChannelOut κ) : Prop where
  id : co'.id = co.id
  frame : co'.frame = co.frame
  closed : co'.closed = co.closed
  compressor : (co'.full = co.full ∧ co'.compressor = co.compressor) ∨ Fresh s co'.compressor

variable {codec : TxCodec} {comp : ChannelCompressor κ} {s : Stream comp}
  {co co' co₁ : SpanChannelOut κ} {batch : SingularBatch} {seqNum : UInt64}
  {err : Option ChannelOutError}

theorem fresh_append {unread emitted unread' emitted' : Bytes} (h : unread = emitted)
    (hmore : ∃ more,unread' = unread ++ more ∧ emitted' = emitted ++ more) :
    unread' = emitted' := by
  obtain ⟨more,hu,he⟩ := hmore
  rw [hu,he,h]

theorem checkFull_fresh (h : Fresh s co.compressor) : Fresh s (co.checkFull comp).compressor := by
  unfold SpanChannelOut.checkFull
  split
  · exact h
  split
  · exact h
  · exact h

theorem compress_fresh (s : Stream comp) (co : SpanChannelOut κ) :
    (co.compress comp).1.id = co.id ∧ (co.compress comp).1.frame = co.frame ∧
      (co.compress comp).1.closed = co.closed ∧ Fresh s (co.compress comp).1.compressor := by
  have hw := fresh_append (s.reset co.compressor) (s.write co.activeRLP (comp.reset co.compressor))
  unfold SpanChannelOut.compress
  simp only
  split
  · rename_i k e heq
    rw [heq] at hw
    exact ⟨rfl,rfl,rfl,hw⟩
  rename_i k heq
  rw [heq] at hw
  have hc := fresh_append hw (s.close k)
  split
  · rename_i k' e heq'
    rw [heq'] at hc
    exact ⟨rfl,rfl,rfl,hc⟩
  rename_i k' heq'
  rw [heq'] at hc
  refine ⟨?_,?_,?_,checkFull_fresh hc⟩
  all_goals
    unfold SpanChannelOut.checkFull
    split
    · rfl
    split
    · rfl
    · rfl

theorem revert_recompresses (s : Stream comp) (e : ChannelOutError) (co : SpanChannelOut κ) :
    Recompresses s co (co.revert comp e).1 := by
  have hc := compress_fresh s co.swapRLP
  unfold SpanChannelOut.revert
  split
  · rename_i co₁ e' heq
    rw [heq] at hc
    exact ⟨hc.1,hc.2.1,hc.2.2.1,.inr hc.2.2.2⟩
  rename_i co₁ heq
  rw [heq] at hc
  exact ⟨hc.1,hc.2.1,hc.2.2.1,.inr hc.2.2.2⟩

theorem Recompresses.fresh (h : Recompresses s co co') (hf : Fresh s co.compressor) :
    Fresh s co'.compressor := by
  rcases h.compressor with ⟨-,hk⟩ | hk
  · rw [hk]
    exact hf
  · exact hk

theorem settleSpanBatch_recompresses (s : Stream comp) (batch : SingularBatch)
    (co : SpanChannelOut κ) : Recompresses s co (co.settleSpanBatch comp batch).1 := by
  unfold SpanChannelOut.settleSpanBatch
  split
  · exact revert_recompresses s _ co
  simp only
  split
  · exact ⟨rfl,rfl,rfl,.inl ⟨rfl,rfl⟩⟩
  have hc := compress_fresh s co
  split
  · rename_i co₁ e heq
    rw [heq] at hc
    exact ⟨hc.1,hc.2.1,hc.2.2.1,.inr hc.2.2.2⟩
  rename_i co₁ heq
  rw [heq] at hc
  obtain ⟨hid,hfra,hclosed,hfr⟩ := hc
  split
  · exact ⟨hid,hfra,hclosed,.inr hfr⟩
  rename_i e _
  split
  · exact ⟨hid,hfra,hclosed,.inr hfr⟩
  split
  · exact ⟨hid,hfra,hclosed,.inr hfr⟩
  · have hr := revert_recompresses s e co₁
    exact ⟨hr.id.trans hid,hr.frame.trans hfra,hr.closed.trans hclosed,.inr (hr.fresh hfr)⟩

structure SameOutput (co co' : SpanChannelOut κ) : Prop where
  id : co'.id = co.id
  frame : co'.frame = co.frame
  closed : co'.closed = co.closed
  full : co'.full = co.full
  compressor : co'.compressor = co.compressor

theorem ensureOpenSpanBatch_output (h : co.ensureOpenSpanBatch = .ok co') : SameOutput co co' := by
  unfold SpanChannelOut.ensureOpenSpanBatch at h
  split at h
  · cases h
    exact ⟨rfl,rfl,rfl,rfl,rfl⟩
  split at h
  · cases h
  · cases h
    exact ⟨rfl,rfl,rfl,rfl,rfl⟩

theorem writeSpanBatch_output (h : co.writeSpanBatch codec batch seqNum = .ok (co',err)) :
    SameOutput co co' := by
  unfold SpanChannelOut.writeSpanBatch at h
  split at h
  · cases h
  · cases h
    exact ⟨rfl,rfl,rfl,rfl,rfl⟩
  split at h
  · cases h
    exact ⟨rfl,rfl,rfl,rfl,rfl⟩
  simp only at h
  split at h
  · cases h
  split at h
  · cases h
    exact ⟨rfl,rfl,rfl,rfl,rfl⟩
  · cases h
    exact ⟨rfl,rfl,rfl,rfl,rfl⟩

theorem SameOutput.recompresses (h : SameOutput co co₁) (hr : Recompresses s co₁ co') :
    Recompresses s co co' := by
  refine ⟨hr.id.trans h.id,hr.frame.trans h.frame,hr.closed.trans h.closed,?_⟩
  rcases hr.compressor with ⟨hf,hk⟩ | hk
  · exact .inl ⟨hf.trans h.full,hk.trans h.compressor⟩
  · exact .inr hk

theorem addSingularBatch_recompresses (s : Stream comp)
    (h : co.addSingularBatch codec comp batch seqNum = .ok (co',err)) :
    Recompresses s co co' ∧ (co.full.isSome = true → co' = co) := by
  unfold SpanChannelOut.addSingularBatch at h
  have hrefl : Recompresses s co co := ⟨rfl,rfl,rfl,.inl ⟨rfl,rfl⟩⟩
  split at h
  · cases h
    exact ⟨hrefl,fun _ => rfl⟩
  split at h
  · cases h
    exact ⟨hrefl,fun _ => rfl⟩
  rename_i hno
  refine ⟨?_,fun hs => by rw [hno] at hs; cases hs⟩
  obtain ⟨co₁,ho,h⟩ := of_bind_ok h
  have hsm := ensureOpenSpanBatch_output ho
  obtain ⟨⟨co₂,err'⟩,hw,h⟩ := of_bind_ok h
  have hsm' := writeSpanBatch_output hw
  cases err' with
  | some e =>
    cases h
    exact hsm.recompresses (hsm'.recompresses ⟨rfl,rfl,rfl,.inl ⟨rfl,rfl⟩⟩)
  | none =>
    have hset := settleSpanBatch_recompresses s batch co₂
    rw [Except.ok.inj h] at hset
    exact hsm.recompresses (hsm'.recompresses hset)

def Outputs (co : SpanChannelOut κ) : Prop := co.closed = true ∨ co.full.isSome = true

instance : Decidable (Outputs co) := inferInstanceAs (Decidable (_ ∨ _))

def spanReady (s : Stream comp) (co : SpanChannelOut κ) : Bytes :=
  if Outputs co then s.unread co.compressor else []

structure SpanSent (s : Stream comp) (co : SpanChannelOut κ) (sent : Bytes) : Prop where
  outputs : Outputs co → sent ++ s.unread co.compressor = s.emitted co.compressor
  nothing : ¬ Outputs co → sent = []

theorem readyBytes_eq (s : Stream comp) (co : SpanChannelOut κ) :
    co.readyBytes comp = (spanReady s co).length := by
  unfold spanReady
  by_cases h : Outputs co
  · rw [if_pos h]
    exact (if_pos h).trans (s.len co.compressor)
  · rw [if_neg h]
    exact if_neg h

theorem not_outputs (hopen : co.closed = false) (hf : ¬ co.full.isSome = true) : ¬ Outputs co := by
  rintro (hcl | hfu)
  · simp [hopen] at hcl
  · exact hf hfu

theorem SpanSent.addBlock (hr : Recompresses s co co')
    (hfull : co.full.isSome = true → co' = co) (hopen : co.closed = false)
    (h : SpanSent s co sent) : SpanSent s co' sent := by
  by_cases hf : co.full.isSome = true
  · rw [hfull hf]
    exact h
  rw [h.nothing (not_outputs hopen hf)]
  refine ⟨?_,fun _ => rfl⟩
  intro hout
  rcases hr.compressor with ⟨hfu,-⟩ | hfr
  · refine absurd hout (not_outputs (hr.closed.trans hopen) ?_)
    rw [hfu]
    exact hf
  · exact hfr

theorem close_sent (h : co.close comp = (co',none)) (hsent : SpanSent s co sent) :
    co'.id = co.id ∧ co'.frame = co.frame ∧ co'.closed = true ∧
      sent ++ s.unread co'.compressor = s.emitted co'.compressor := by
  unfold SpanChannelOut.close at h
  split at h
  · cases h
  rename_i hop
  rw [Bool.not_eq_true] at hop
  simp only at h
  split at h
  · rename_i hf
    cases h
    exact ⟨rfl,rfl,rfl,hsent.outputs (.inr hf)⟩
  rename_i hf
  obtain ⟨hid,hfra,hclosed,hfr⟩ := compress_fresh s { co with closed := true }
  rw [h] at hid hfra hclosed hfr
  rw [hsent.nothing (not_outputs hop hf)]
  exact ⟨hid,hfra,hclosed,hfr⟩

theorem read_ready (s : Stream comp) {n : Nat} (hn : n ≤ (spanReady s co).length) :
    ∃ k,comp.read n co.compressor = (k,some ((spanReady s co).take n)) ∧
      s.emitted k = s.emitted co.compressor ∧
      (Outputs co → s.unread k = (spanReady s co).drop n) := by
  unfold spanReady at hn ⊢
  by_cases h : Outputs co
  · rw [if_pos h] at hn ⊢
    obtain ⟨k,hrd,hunread,hem⟩ := s.read hn
    exact ⟨k,hrd,hem,fun _ => hunread⟩
  rw [if_neg h] at hn ⊢
  have hz := le_zero.mp hn
  subst hz
  obtain ⟨k,hrd,-,hem⟩ := s.read (zero_le (s.unread co.compressor).length)
  exact ⟨k,hrd,hem,fun ho => absurd ho h⟩

def spanFraming (codec : TxCodec) (s : Stream comp) (convert : BlockConversion) :
    Framing (spanChannelOut codec comp convert) where
  frame co := co.frame
  closed co := co.closed
  ready co := spanReady s co
  stream co := s.emitted co.compressor
  Sent co sent := SpanSent s co sent
  output := by
    intro size co sent hsize hsent
    obtain ⟨f,n,hf,hn,hcut,hdrop⟩ :=
      createEmptyFrame_cut co.id co.frame (spanReady s co) co.closed size
    obtain ⟨k,hread,hemitted,hunread⟩ := read_ready s hn
    have hready : spanReady s { co with compressor := k, frame := co.frame + 1 } =
        (spanReady s co).drop n := by
      by_cases ho : Outputs co
      · exact (if_pos ho).trans (hunread ho)
      have hnil : spanReady s co = [] := if_neg ho
      rw [hnil,drop_nil]
      exact if_neg ho
    refine ⟨{ co with compressor := k, frame := co.frame + 1 },?_,rfl,rfl,?_,hemitted,?_⟩
    · simp [spanChannelOut,SpanChannelOut.outputFrame,readyBytes_eq s,
        if_neg (not_lt.mpr hsize),hf,hread,hcut]
    · rw [hready,hdrop]
    refine ⟨?_,?_⟩
    · intro ho
      have hall : spanReady s co = s.unread co.compressor := if_pos ho
      rw [hunread ho,hdrop,hemitted,append_assoc,take_append_drop,hall]
      exact hsent.outputs ho
    intro ho
    have hnil : spanReady s co = [] := if_neg ho
    rw [hnil,take_nil,append_nil]
    exact hsent.nothing ho
  output_closed := by
    intro size co
    simp only [spanChannelOut,SpanChannelOut.outputFrame]
    split
    · rfl
    split
    · rfl
    · rfl
  addBlock := by
    intro co sent block hopen hsent
    simp only [spanChannelOut,hopen]
    rw [if_neg (by simp)]
    split
    · exact ⟨rfl,rfl,hopen,hsent⟩
    split
    · exact ⟨rfl,rfl,hopen,hsent⟩
    rename_i co' err heq
    obtain ⟨hr,hfull⟩ := addSingularBatch_recompresses s heq
    exact ⟨hr.id,hr.frame,hr.closed.trans hopen,hsent.addBlock hr hfull hopen⟩
  addBlock_closed := by
    intro co block hclosed
    simp [spanChannelOut,hclosed]
  close_closed := by
    intro co
    simp only [spanChannelOut,SpanChannelOut.close]
    split
    · assumption
    split
    · rfl
    · exact (compress_fresh s _).2.2.1
  close_twice := by
    intro co hclosed
    simp [spanChannelOut,SpanChannelOut.close,hclosed]
  close := by
    intro co co' sent hclose hsent
    obtain ⟨hid,hframe,hclosed,hsum⟩ := close_sent hclose hsent
    have hall : spanReady s co' = s.unread co'.compressor := if_pos (.inl hclosed)
    refine ⟨hid,hframe,⟨fun _ => hsum,fun ho => absurd (.inl hclosed) ho⟩,?_⟩
    rw [hall]
    exact hsum

end outs

section runs
variable {ω : Type} {out : ChannelOut ω} {law : Framing out} {b b' : ChannelBuilder ω}
  {id : ChannelID} {co : ω} {op : Op} {cfg : ChannelConfig} {n : UInt64}

inductive Op where
  | addBlock (block : SizedBlock)
  | outputFrames (fuel : Nat)
  | checkTimeout (l1BlockNum : UInt64)
  | close

def exec (out : ChannelOut ω) (b : ChannelBuilder ω) : Op → Except Crash (ChannelBuilder ω)
  | .addBlock block => .ok (b.addBlock out block).1
  | .outputFrames fuel => do
    let (b,_) ← b.outputFrames out fuel
    .ok b
  | .checkTimeout l1BlockNum => .ok (b.checkTimeout l1BlockNum)
  | .close => .ok b.close

def Step (out : ChannelOut ω) (b b' : ChannelBuilder ω) : Prop := ∃ op,exec out b op = .ok b'

theorem step_of_exec (h : exec out b op = .ok b') : Step out b b' := ⟨op,h⟩

/-- The data, as carried by L1 transactions, is parsed into frames that all go into the channel in
order; it is ready after the last one only, and yields the stream. -/
def Reassembled (id : ChannelID) (sent : List Bytes) (stream : Bytes) : Prop :=
  ∃ frames : List Frame,sent.map (fun data => parseFrames (derivationVersion0::data)) =
      frames.map (fun f => .ok [f]) ∧
    ∀ (openBlock : L1BlockRef) (ins : List (Frame × L1BlockRef)),ins.map Prod.fst = frames →
      (∀ k < ins.length,∃ ch,
        (Derive.Channel.newChannel id openBlock true).addFrames (ins.take k) = .ok ch ∧
          ch.isReady = false) ∧
      ∃ ch,(Derive.Channel.newChannel id openBlock true).addFrames ins = .ok ch ∧
        ch.isReady = true ∧ ch.reader = some stream

/-- `OutputFrames` of a full channel returns if the channel out can be closed. All frames put out
without an error, at most 65536 and none too large, are reassembled. -/
def OutputReassembles (out : ChannelOut ω) (stream : ω → Bytes) (co : ω) : Prop :=
  ∀ (cfg : ChannelConfig) (n : UInt64) (b : ChannelBuilder ω),
    frameV0OverHeadSize < cfg.maxFrameSize.toNat →
    Reaches (Step out) (.newChannelBuilderWithChannelOut cfg n co) b → b.isFull = true →
    ((out.close b.co).2 = none → ∃ fuel b',b.outputFrames out fuel = .ok (b',true)) ∧
    ∀ fuel b',b.outputFrames out fuel = .ok (b',true) → b'.frames.length ≤ 2 ^ 16 →
      (∀ f ∈ b'.frames,f.data.length ≤ maxFrameLen + frameV0OverHeadSize) →
      Reassembled (out.id co) (b'.frames.map FrameData.data) (stream b'.co)

theorem exec_inv (hi : Inv law id b) (h : exec out b op = .ok b') : Inv law id b' := by
  cases op with
  | addBlock block =>
    cases h
    exact addBlock_inv block hi
  | outputFrames fuel =>
    obtain ⟨p,hb,h⟩ := of_bind_ok h
    cases h
    exact outputFrames_inv hi hb
  | checkTimeout n =>
    cases h
    exact hi.same (checkTimeout_frames n b)
  | close =>
    cases h
    exact hi.same (close_frames b)

theorem new_produced (hframe : law.frame co = 0) (hsent : law.Sent co []) :
    Produced law (out.id co) (.newChannelBuilderWithChannelOut cfg n co) [] := by
  have hs := newChannelBuilder_frames cfg n co
  refine Produced.same hs ⟨rfl,?_,hframe,rfl,hsent⟩
  nofun

theorem new_inv (hsize : frameV0OverHeadSize < cfg.maxFrameSize.toNat) (hframe : law.frame co = 0)
    (hsent : law.Sent co []) : Inv law (out.id co) (.newChannelBuilderWithChannelOut cfg n co) := by
  refine ⟨?_,fun _ => ⟨[],new_produced hframe hsent,nofun⟩⟩
  rw [(newChannelBuilder_frames cfg n co).cfg]
  exact hsize

section
variable (hi : Inv law id b)
include hi

theorem close_produced (hclose : out.close b.co = (co,none)) :
    law.closed co = true ∧ ∃ fs,Produced law id { b with co } fs ∧ (∀ f ∈ fs,f.isLast = false) ∧
      fs.flatMap Frame.data ++ law.ready co = law.stream co := by
  have hop : law.closed b.co = false := by
    cases hc : law.closed b.co with
    | false => rfl
    | true =>
      have htwice := law.close_twice b.co hc
      rw [hclose] at htwice
      exact absurd rfl htwice
  have hclosed := law.close_closed b.co
  rw [hclose] at hclosed
  obtain ⟨fs,hp,hls⟩ := hi.frames hop
  obtain ⟨hid,hfra,hsent,hstr⟩ := law.close hclose hp.sent
  exact ⟨hclosed,fs,⟨hp.data,hp.numbered,hfra.trans hp.count,hid.trans hp.id_eq,hsent⟩,hls,hstr⟩

theorem outputFrames_complete (hfull : b.isFull = true)
    (h : b.outputFrames out fuel = .ok (b',true)) :
    ∃ init f,Produced law id b' (init ++ [f]) ∧ f.isLast = true ∧ (∀ g ∈ init,g.isLast = false) ∧
      (init ++ [f]).flatMap Frame.data = law.stream b'.co := by
  unfold outputFrames closeAndOutputAllFrames at h
  rw [if_pos hfull] at h
  split at h
  · cases h
  rename_i co hcl
  obtain ⟨hclosed,fs,hp,hls,hstr⟩ := close_produced hi hcl
  exact outputAllFrames_complete hp hclosed (le_of_lt hi.size) hls hstr h

theorem outputFrames_returns (hfull : b.isFull = true) (hclose : out.close b.co = (co,none)) :
    ∃ fuel b',b.outputFrames out fuel = .ok (b',true) := by
  obtain ⟨hclosed,fs,hp,-,-⟩ := close_produced hi hclose
  obtain ⟨b',hb'⟩ := outputAllFrames_returns hp hclosed hi.size (lt_succ_self _)
  refine ⟨(law.ready co).length + 1,b',?_⟩
  unfold outputFrames closeAndOutputAllFrames
  rw [if_pos hfull,hclose]
  exact hb'

theorem outputFrames_one (hfull : b.isFull = true)
    (hnone : b.frames = []) (hclose : out.close b.co = (co,none))
    (hfits : (law.stream co).length ≤ b.cfg.maxFrameSize.toNat - frameV0OverHeadSize) :
    ∃ b' f,b.outputFrames out 1 = .ok (b',true) ∧
      b'.frames.map FrameData.data = [Frame.marshalBinary f] ∧ f.data = law.stream co := by
  obtain ⟨hclosed,fs,hp,-,hstr⟩ := close_produced hi hclose
  have hfs : fs = [] := by
    have hda := hp.data
    rw [show ({ b with co } : ChannelBuilder ω).frames = [] from hnone] at hda
    exact map_eq_nil_iff.mp hda.symm
  subst hfs
  rw [← hstr] at hfits ⊢
  obtain ⟨f,hp',hcu,-⟩ := outputFrame_produced hp (le_of_lt hi.size)
  refine ⟨_,f,?_,hp'.data,?_⟩
  · unfold outputFrames closeAndOutputAllFrames
    rw [if_pos hfull,hclose]
    exact outputAllFrames_one hp hclosed (le_of_lt hi.size) hfits
  · rw [hcu.frame]
    exact take_of_length_le hfits

end

theorem parsed_of_produced {fs : List Frame} (hp : Produced law id b fs)
    (hlen : ∀ f ∈ b.frames,f.data.length ≤ maxFrameLen + frameV0OverHeadSize) :
    (b.frames.map FrameData.data).map (fun data => parseFrames (derivationVersion0::data)) =
      fs.map (fun f => .ok [f]) := by
  rw [hp.data,map_map]
  refine map_congr_left ?_
  intro f hf
  refine parseFrames_marshalBinary ?_
  have hmem : f.marshalBinary ∈ b.frames.map FrameData.data := by
    rw [hp.data]
    exact mem_map_of_mem hf
  obtain ⟨fd,hfd,heq⟩ := mem_map.mp hmem
  have hle := hlen fd hfd
  rw [heq,marshalBinary_length] at hle
  omega

theorem framing_reassembles (law : Framing out) (hframe : law.frame co = 0)
    (hsent : law.Sent co []) : OutputReassembles out law.stream co := by
  intro cfg n b hsz hrch hfu
  have hi : Inv law (out.id co) b := by
    refine hrch.invariant (new_inv hsz hframe hsent) ?_
    rintro x y hx ⟨op,hop⟩
    exact exec_inv hx hop
  refine ⟨?_,?_⟩
  · intro hcl
    exact outputFrames_returns hi hfu (Prod.ext rfl hcl)
  intro fuel b' h hct hlen
  obtain ⟨init,f,hp,hls,hinit,hstr⟩ := outputFrames_complete hi hfu h
  refine ⟨init ++ [f],parsed_of_produced hp hlen,?_⟩
  intro openBlock ins hins
  have hbd : (init ++ [f]).length ≤ 2 ^ 16 := by
    have hl := congrArg length hp.data
    rw [length_map,length_map] at hl
    omega
  have hcmp : Complete (out.id co) (ins.map Prod.fst) := by
    rw [hins]
    exact ⟨hp.numbered,hbd,init,f,rfl,hls,hinit⟩
  have hadd := addFrames_complete openBlock hcmp
  rw [hins,hstr] at hadd
  exact hadd

/-- The frames of both kinds of channel outs are reassembled into the stream of the compressor. -/
theorem batcher_output_reassembles {κ : Type} (id : ChannelID) (chainSpec : Rollup.Config)
    (convert : BlockConversion) :
    (∀ (comp : Compressor κ) (s : Stream comp.toChannelCompressor) (k : κ),Fresh s k →
      OutputReassembles (singularChannelOut comp convert) (fun co => s.emitted co.compress)
        (.newSingularChannelOut id k chainSpec)) ∧
    ∀ (codec : TxCodec) (comp : ChannelCompressor κ) (s : Stream comp) (k : κ) (target : UInt64)
      (maxBlocksPerSpanBatch : Int),
      OutputReassembles (spanChannelOut codec comp convert) (fun co => s.emitted co.compressor)
        (.newSpanChannelOut id target k chainSpec maxBlocksPerSpanBatch) := by
  refine ⟨?_,?_⟩
  · intro comp s k hfr
    exact framing_reassembles (singularFraming s convert) rfl hfr
  intro codec comp s k target maxBlocks
  refine framing_reassembles (spanFraming codec s convert) rfl ⟨?_,fun _ => rfl⟩
  intro hout
  exact absurd hout (not_outputs rfl (by simp [SpanChannelOut.newSpanChannelOut]))

end runs

structure Stored where
  unread : Bytes
  emitted : Bytes

def storing (trailer : Bytes) : Compressor Stored where
  write p k := (⟨k.unread ++ p,k.emitted ++ p⟩,none)
  close k := (⟨k.unread ++ trailer,k.emitted ++ trailer⟩,none)
  reset _ := ⟨[],[]⟩
  len k := k.unread.length
  read n k :=
    if n ≤ k.unread.length then (⟨k.unread.drop n,k.emitted⟩,some (k.unread.take n)) else (k,none)
  fullErr _ := none

def storedStream (trailer : Bytes) : Stream (storing trailer).toChannelCompressor where
  unread := Stored.unread
  emitted := Stored.emitted
  len _ := rfl
  read h := ⟨_,if_pos h,rfl,rfl⟩
  write p _ := ⟨p,rfl,rfl⟩
  close _ := ⟨trailer,rfl,rfl⟩
  reset _ := rfl

def frameCfg (n : UInt64) : ChannelConfig where
  seqWindowSize := 3600
  channelTimeout := 50
  maxChannelDuration := 0
  subSafetyMargin := 10
  maxFrameSize := n + 23
  targetNumFrames := 1
  useBlobs := false

def sampleBatch (_ : SizedBlock) : Option (SingularBatch × L1BlockInfo) :=
  some (⟨.fill 32 1,1,.fill 32 2,7,[[5]]⟩,⟨1,.fill 32 2,0⟩)

def storedOut (trailer : Bytes) : ChannelOut (SingularChannelOut Stored) :=
  singularChannelOut (storing trailer) sampleBatch

def storedCo : SingularChannelOut Stored :=
  .newSingularChannelOut (.fill 16 1) ⟨[],[]⟩ sampleConfig

/-- Two blocks and frames of 40 bytes. One frame is put out after the first block, the others when
the channel is closed. -/
theorem batcher_output_reassembles_sample :
    ∃ b b',Reaches (Step (storedOut [7,7,7])) (.newChannelBuilderWithChannelOut (frameCfg 40) 0
        storedCo) b ∧ b.frames.length = 1 ∧
      b.outputFrames (storedOut [7,7,7]) 10 = .ok (b',true) ∧ b'.frames.length = 4 ∧
      Reassembled (.fill 16 1) (b'.frames.map FrameData.data) b'.co.compress.emitted := by
  have hrun : (runOps (exec (storedOut [7,7,7]))
      (.newChannelBuilderWithChannelOut (frameCfg 40) 0 storedCo)
      [.addBlock ⟨hashOf 5,hashOf 4,5,10⟩,.outputFrames 10,.addBlock ⟨hashOf 6,hashOf 5,6,10⟩,
        .close]).toOption.map (fun b => (b.frames.length,b.isFull,
          ((b.outputFrames (storedOut [7,7,7]) 10).toOption.map fun r =>
            (r.2,r.1.frames.map fun f => f.data.length)))) =
        some (1,true,some (true,[63,63,63,56])) := by
    decide +kernel
  obtain ⟨b,hrch,hobs⟩ := runOps_observe (fun _ _ _ _ => step_of_exec) hrun
  rw [Prod.mk.injEq,Prod.mk.injEq] at hobs
  obtain ⟨hone,hfu,hout⟩ := hobs
  obtain ⟨⟨b',ok⟩,hb',hobs⟩ := Option.map_eq_some_iff.mp hout
  rw [Prod.mk.injEq] at hobs
  obtain ⟨rfl,hlens⟩ := hobs
  have hout := eq_ok_of_toOption hb'
  have hct : b'.frames.length = 4 := by
    simp [← length_map (fun f : FrameData => f.data.length),hlens]
  have hsmall : ∀ f ∈ b'.frames,f.data.length ≤ maxFrameLen + frameV0OverHeadSize := by
    intro f hf
    have hmem : f.data.length ∈ [63,63,63,56] := by
      rw [← hlens]
      exact mem_map_of_mem hf
    exact (by decide : ∀ n ∈ [63,63,63,56], n ≤ maxFrameLen + frameV0OverHeadSize) _ hmem
  refine ⟨b,b',hrch,hone,hout,hct,?_⟩
  have hall := (batcher_output_reassembles (.fill 16 1) sampleConfig sampleBatch).1
    (storing [7,7,7]) (storedStream [7,7,7]) ⟨[],[]⟩ rfl
  exact (hall (frameCfg 40) 0 b (by decide) hrch hfu).2 10 b' hout (by rw [hct]; decide)
    hsmall

/-- A frame with more than a megabyte of data is put out, and does not parse. -/
theorem large_frame_not_parsed : ∃ b b' : ChannelBuilder (SingularChannelOut Stored),
    Reaches (Step (storedOut (replicate 1000001 0)))
      (.newChannelBuilderWithChannelOut (frameCfg 2000000) 0 storedCo) b ∧ b.isFull = true ∧
    b.outputFrames (storedOut (replicate 1000001 0)) 1 = .ok (b',true) ∧
    b'.frames.length = 1 ∧
    ¬ Reassembled (.fill 16 1) (b'.frames.map FrameData.data) b'.co.compress.emitted := by
  generalize hbig : replicate 1000001 (0 : UInt8) = trailer
  have hlen : trailer.length = 1000001 := by rw [← hbig,length_replicate]
  let law : Framing (storedOut trailer) := singularFraming (storedStream trailer) sampleBatch
  have hsz : frameV0OverHeadSize < (frameCfg 2000000).maxFrameSize.toNat := by decide
  have hnew : Inv law ((storedOut trailer).id storedCo)
      (.newChannelBuilderWithChannelOut (frameCfg 2000000) 0 storedCo) := new_inv hsz rfl rfl
  have hi := hnew.same (close_frames _)
  obtain ⟨b',f,hout,hfs,hda⟩ := outputFrames_one hi rfl rfl rfl (by
    show trailer.length ≤ _
    rw [hlen]
    decide)
  have hda : f.data = trailer := hda
  refine ⟨_,b',.single ⟨.close,rfl⟩,rfl,hout,?_,?_⟩
  · simp [← length_map FrameData.data,hfs]
  rintro ⟨frames,hparsed,-⟩
  rw [hfs,map_singleton,parseFrames_too_large (by rw [hda,hlen]; decide)
    (by rw [hda,hlen]; decide)] at hparsed
  cases frames with
  | nil => cases hparsed
  | cons g gs => cases (cons.inj hparsed).1

end OpStack.Proofs.BatcherOutput
