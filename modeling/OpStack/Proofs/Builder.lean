import OpStack.Batcher.ChannelBuilder
import OpStack.Lib.Outcome

namespace OpStack.Proofs.Builder
open Lib Eth Batcher ChannelBuilder
open Derive (L1BlockInfo)

variable {ω : Type} {out : ChannelOut ω} {c c' : ChannelBuilder ω}

section blocks

def SameBlocks (c c' : ChannelBuilder ω) : Prop :=
  c'.blocks = c.blocks ∧ c'.latestL2 = c.latestL2

theorem SameBlocks.rfl {c : ChannelBuilder ω} : SameBlocks c c := ⟨Eq.refl _,Eq.refl _⟩

theorem SameBlocks.trans {d : ChannelBuilder ω} (h : SameBlocks c c') (h' : SameBlocks c' d) :
    SameBlocks c d :=
  ⟨h'.1.trans h.1,h'.2.trans h.2⟩

structure LatestOk (c : ChannelBuilder ω) : Prop where
  le : ∀ b ∈ c.blocks,b.number ≤ c.latestL2.number
  mem : c.latestL2.number = 0 ∨ ∃ b ∈ c.blocks,b.number = c.latestL2.number

theorem SameBlocks.latestOk (h : SameBlocks c c') (hl : LatestOk c) : LatestOk c' := by
  refine ⟨?_,?_⟩
  · rw [h.1,h.2]
    exact hl.le
  · rw [h.1,h.2]
    exact hl.mem

theorem updateTimeout_same (n : UInt64) (reason : FullReason) (c : ChannelBuilder ω) :
    SameBlocks c (c.updateTimeout n reason) := by
  unfold updateTimeout
  split
  · exact ⟨rfl,rfl⟩
  · exact .rfl

theorem checkTimeout_same (n : UInt64) (c : ChannelBuilder ω) : SameBlocks c (c.checkTimeout n) := by
  unfold checkTimeout
  split
  · exact ⟨rfl,rfl⟩
  · exact .rfl

theorem close_same (c : ChannelBuilder ω) : SameBlocks c c.close := by
  unfold close
  split
  · exact .rfl
  · exact ⟨rfl,rfl⟩

theorem newChannelBuilder_blocks (cfg : ChannelConfig) (n : UInt64) (co : ω) :
    (newChannelBuilderWithChannelOut cfg n co).blocks = [] ∧
      (newChannelBuilderWithChannelOut cfg n co).latestL2.number = 0 := by
  unfold newChannelBuilderWithChannelOut updateDurationTimeout
  split
  · exact ⟨rfl,rfl⟩
  obtain ⟨hb,hl⟩ := updateTimeout_same (n + cfg.maxChannelDuration) .maxDurationReached
    (mk cfg 0 none none co [] .zero .zero [] 0 0)
  exact ⟨hb,congrArg BlockID.number hl⟩

theorem newChannelBuilder_latestOk (cfg : ChannelConfig) (n : UInt64) (co : ω) :
    LatestOk (newChannelBuilderWithChannelOut cfg n co) := by
  obtain ⟨hb,hl⟩ := newChannelBuilder_blocks cfg n co
  refine ⟨?_,.inl hl⟩
  intro b hmem
  rw [hb] at hmem
  cases hmem

section loops
variable {I : ChannelBuilder ω → Prop} {E : Crash → Prop}
  (hframe : ∀ c,I c → I (c.outputFrame out).1) (hE : E .outOfFuel)

include hframe hE

theorem outputReadyFrames_keeps (fuel : Nat) {c : ChannelBuilder ω} (h : I c) :
    Ends (fun p => I p.1) E (c.outputReadyFrames out fuel) := by
  induction fuel generalizing c with
  | zero => exact hE
  | succ fuel ih =>
    unfold outputReadyFrames
    have hs := hframe c h
    split
    · split
      · rename_i heq
        rw [heq] at hs
        exact hs
      · rename_i heq
        rw [heq] at hs
        exact hs
      rename_i heq
      rw [heq] at hs
      exact ih hs
    · exact .ok h

theorem outputAllFrames_keeps (fuel : Nat) {c : ChannelBuilder ω} (h : I c) :
    Ends (fun p => I p.1) E (c.outputAllFrames out fuel) := by
  induction fuel generalizing c with
  | zero => exact hE
  | succ fuel ih =>
    unfold outputAllFrames
    have hs := hframe c h
    split
    · rename_i heq
      rw [heq] at hs
      exact hs
    · rename_i heq
      rw [heq] at hs
      exact hs
    rename_i heq
    rw [heq] at hs
    exact ih hs

theorem outputFrames_keeps (hclose : ∀ c : ChannelBuilder ω,I c →
    I { c with co := (out.close c.co).1 }) (fuel : Nat) {c : ChannelBuilder ω} (h : I c) :
    Ends (fun p => I p.1) E (c.outputFrames out fuel) := by
  unfold outputFrames
  split
  · have hco := hclose c h
    unfold closeAndOutputAllFrames
    split
    · rename_i heq
      rw [heq] at hco
      exact hco
    rename_i heq
    rw [heq] at hco
    exact outputAllFrames_keeps hframe hE fuel hco
  · exact outputReadyFrames_keeps hframe hE fuel h

end loops

variable {E : Crash → Prop} {block : SizedBlock}

theorem outputFrames_same (hE : E .outOfFuel) (fuel : Nat)
    (c : ChannelBuilder ω) : Ends (fun p => SameBlocks c p.1) E (c.outputFrames out fuel) := by
  refine outputFrames_keeps ?_ hE ?_ fuel .rfl
  · intro d hd
    refine hd.trans ?_
    unfold outputFrame
    split
    · exact ⟨rfl,rfl⟩
    split
    · exact ⟨rfl,rfl⟩
    · exact ⟨rfl,rfl⟩
  · intro d hd
    exact ⟨hd.1,hd.2⟩

theorem rewindFrameCursor_same (hE : E .rewindFrameCursor) (f : FrameData)
    (c : ChannelBuilder ω) : Ends (SameBlocks c) E (c.rewindFrameCursor f) := by
  unfold rewindFrameCursor
  split
  · exact hE
  split
  · exact hE
  split
  · exact .ok ⟨rfl,rfl⟩
  · exact .ok .rfl

theorem takeFrames_same (n : Nat) (c : ChannelBuilder ω) :
    SameBlocks c (Channel.takeFrames n c).1 := by
  induction n generalizing c with
  | zero => exact .rfl
  | succ n ih =>
    have hnx : SameBlocks c c.nextFrame.1 := by
      unfold nextFrame
      split
      · exact .rfl
      · exact ⟨rfl,rfl⟩
    unfold Channel.takeFrames
    split
    · rename_i heq
      rw [heq] at hnx
      exact hnx
    rename_i heq
    rw [heq] at hnx
    exact hnx.trans (ih _)

theorem recordBlock_blocks (block : SizedBlock) (info : L1BlockInfo) (c : ChannelBuilder ω) :
    (c.recordBlock block info).blocks = c.blocks ++ [block] ∧ (c.recordBlock block info).latestL2 =
        if c.latestL2.number < block.number then block.id else c.latestL2 := by
  obtain ⟨hb,hl⟩ := updateTimeout_same
    (info.number + c.cfg.seqWindowSize - c.cfg.subSafetyMargin) .seqWindowClose
    { c with blocks := c.blocks ++ [block] }
  unfold recordBlock updateSwTimeout
  simp only
  generalize updateTimeout _ _ _ = d at hb hl
  have hkp : SameBlocks d (if d.latestL1Origin.number < info.number then
      { d with latestL1Origin := ⟨info.blockHash,info.number⟩ } else d) := by
    split
    · exact ⟨rfl,rfl⟩
    · exact .rfl
  generalize (if d.latestL1Origin.number < info.number then _ else d) = e at hkp
  obtain ⟨hkb,hkl⟩ := hkp
  rw [hb] at hkb
  rw [hl] at hkl
  split
  · rename_i hlt
    rw [hkl] at hlt
    rw [if_pos hlt]
    exact ⟨hkb,rfl⟩
  rename_i hlt
  rw [hkl] at hlt
  rw [if_neg hlt]
  exact ⟨hkb,hkl⟩

theorem recordBlock_latestOk {info : L1BlockInfo} (h : LatestOk c) :
    LatestOk (c.recordBlock block info) := by
  obtain ⟨hb,hl⟩ := recordBlock_blocks block info c
  refine ⟨?_,?_⟩
  · intro b hmem
    rw [hb,List.mem_append,List.mem_singleton] at hmem
    rw [hl]
    split
    · rename_i hlt
      rcases hmem with hmem | rfl
      · exact UInt64.le_trans (h.le b hmem) (UInt64.le_of_lt hlt)
      · exact UInt64.le_refl _
    rename_i hlt
    rcases hmem with hmem | rfl
    · exact h.le b hmem
    · exact UInt64.not_lt.mp hlt
  · rw [hb,hl]
    split
    · exact .inr ⟨block,List.mem_append_right _ (List.mem_singleton_self _),rfl⟩
    rcases h.mem with hz | ⟨b,hmem,heq⟩
    · exact .inl hz
    · exact .inr ⟨b,List.mem_append_left _ hmem,heq⟩

theorem addBlock_spec {r : Except ChannelBuilder.AddBlockError L1BlockInfo}
    (h : c.addBlock out block = (c',r)) :
    (∃ info,r = .ok info ∧ c'.blocks = c.blocks ++ [block] ∧ (LatestOk c → LatestOk c')) ∨
      (∃ e,r = .error e ∧ SameBlocks c c') := by
  unfold addBlock at h
  split at h
  · cases h
    exact .inr ⟨_,rfl,.rfl⟩
  split at h
  · cases h
    exact .inr ⟨_,rfl,⟨rfl,rfl⟩⟩
  · cases h
    exact .inr ⟨_,rfl,⟨rfl,rfl⟩⟩
  rename_i co info _
  have hb := (recordBlock_blocks block info { c with co := co }).1
  have hl : LatestOk c → LatestOk (recordBlock block info { c with co := co }) :=
    fun hok => recordBlock_latestOk ⟨hok.le,hok.mem⟩
  split at h
  · cases h
    exact .inl ⟨info,rfl,hb,fun hok => ⟨(hl hok).le,(hl hok).mem⟩⟩
  · cases h
    exact .inl ⟨info,rfl,hb,hl⟩

end blocks

structure SameFrames (c c' : ChannelBuilder ω) : Prop where
  frames : c'.frames = c.frames
  frameCursor : c'.frameCursor = c.frameCursor
  cfg : c'.cfg = c.cfg
  co : c'.co = c.co

theorem SameFrames.rfl {c : ChannelBuilder ω} : SameFrames c c :=
  ⟨Eq.refl _,Eq.refl _,Eq.refl _,Eq.refl _⟩

theorem SameFrames.trans {d : ChannelBuilder ω} (h : SameFrames c c') (h' : SameFrames c' d) :
    SameFrames c d :=
  ⟨h'.frames.trans h.frames,h'.frameCursor.trans h.frameCursor,h'.cfg.trans h.cfg,h'.co.trans h.co⟩

theorem updateTimeout_frames (n : UInt64) (reason : FullReason) (c : ChannelBuilder ω) :
    SameFrames c (c.updateTimeout n reason) := by
  unfold updateTimeout
  split
  · exact ⟨rfl,rfl,rfl,rfl⟩
  · exact .rfl

theorem checkTimeout_frames (n : UInt64) (c : ChannelBuilder ω) :
    SameFrames c (c.checkTimeout n) := by
  unfold checkTimeout
  split
  · exact ⟨rfl,rfl,rfl,rfl⟩
  · exact .rfl

theorem close_frames (c : ChannelBuilder ω) : SameFrames c c.close := by
  unfold close
  split
  · exact .rfl
  · exact ⟨rfl,rfl,rfl,rfl⟩

theorem newChannelBuilder_frames (cfg : ChannelConfig) (n : UInt64) (co : ω) :
    SameFrames (mk cfg 0 none none co [] .zero .zero [] 0 0)
      (newChannelBuilderWithChannelOut cfg n co) := by
  unfold newChannelBuilderWithChannelOut updateDurationTimeout
  split
  · exact .rfl
  · exact updateTimeout_frames _ _ _

theorem recordBlock_frames (block : SizedBlock) (info : L1BlockInfo) (c : ChannelBuilder ω) :
    SameFrames c (c.recordBlock block info) := by
  unfold recordBlock updateSwTimeout
  simp only
  have hu := updateTimeout_frames (info.number + c.cfg.seqWindowSize - c.cfg.subSafetyMargin)
    .seqWindowClose { c with blocks := c.blocks ++ [block] }
  generalize updateTimeout _ _ _ = d at hu
  have hd : SameFrames c d := ⟨hu.frames,hu.frameCursor,hu.cfg,hu.co⟩
  have ho : SameFrames d (if d.latestL1Origin.number < info.number then
      { d with latestL1Origin := ⟨info.blockHash,info.number⟩ } else d) := by
    split
    · exact ⟨rfl,rfl,rfl,rfl⟩
    · exact .rfl
  generalize (if d.latestL1Origin.number < info.number then _ else d) = e at ho
  refine (hd.trans ho).trans ?_
  split
  · exact ⟨rfl,rfl,rfl,rfl⟩
  · exact .rfl

theorem addBlock_frames (out : ChannelOut ω) (block : SizedBlock) (c : ChannelBuilder ω) :
    ∃ co,(co = c.co ∨ co = (out.addBlock c.co block).1) ∧
      SameFrames { c with co } (c.addBlock out block).1 := by
  unfold addBlock
  split
  · exact ⟨c.co,.inl rfl,.rfl⟩
  split
  · rename_i co heq
    exact ⟨co,.inr (by rw [heq]),.rfl⟩
  · rename_i co e _ heq
    exact ⟨co,.inr (by rw [heq]),⟨rfl,rfl,rfl,rfl⟩⟩
  rename_i co info heq
  refine ⟨co,.inr (by rw [heq]),?_⟩
  have hr := recordBlock_frames block info { c with co }
  split
  · exact ⟨hr.frames,hr.frameCursor,hr.cfg,hr.co⟩
  · exact hr

theorem outputFrame_spec (out : ChannelOut ω) (c : ChannelBuilder ω) :
    (∃ co,out.outputFrame c.cfg.maxFrameSize c.co = (co,.error) ∧
      c.outputFrame out = ({ c with co },some .other)) ∨
    ∃ co data fn last,out.outputFrame c.cfg.maxFrameSize c.co = (co,.frame data fn last) ∧
      SameFrames { c with co, frames := c.frames ++ [⟨data,⟨out.id co,fn⟩⟩] }
        (c.outputFrame out).1 ∧
      (c.outputFrame out).2 = if last then some .eof else none := by
  unfold outputFrame
  split
  · rename_i co heq
    exact .inl ⟨co,heq,rfl⟩
  rename_i co data fn last heq
  refine .inr ⟨co,data,fn,last,heq,?_,rfl⟩
  by_cases hfn : fn = 65535
  · simp only [if_pos hfn]
    exact ⟨rfl,rfl,rfl,rfl⟩
  · simp only [if_neg hfn]
    exact ⟨rfl,rfl,rfl,rfl⟩

end OpStack.Proofs.Builder
