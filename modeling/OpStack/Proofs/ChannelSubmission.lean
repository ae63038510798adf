import OpStack.Lib.Lists
import OpStack.Proofs.BatcherOutput
import OpStack.Proofs.ChannelManager

namespace OpStack.Proofs.ChannelSubmission
open Lib Eth Batcher ChannelManager Builder ChannelBuilder Channel AList Nat

variable {ω : Type} {out : ChannelOut ω}

/-- Frames as the documentation of channel outs has them: numbered from zero on without gaps, with a
last byte that marks the last one. -/
structure Numbered (out : ChannelOut ω) where
  frame : ω → Nat
  addBlock : ∀ co block,frame (out.addBlock co block).1 = frame co
  close : ∀ co,frame (out.close co).1 = frame co
  failed : ∀ {size co co'},out.outputFrame size co = (co',.error) → frame co' = frame co
  output : ∀ {size co co' data fn last},out.outputFrame size co = (co',.frame data fn last) →
    frame co' = frame co + 1 ∧ fn = .ofNat (frame co) ∧ data.getLast? = some (if last then 1 else 0)

def IsLast (f : FrameData) : Prop := f.data.getLast? = some 1

variable {law : Numbered out} {b b' : ChannelBuilder ω} {fs : List FrameData} {fuel : Nat}

/-- The frames in the queue are those of the channel out, at the index of their number. -/
structure FramesOk (law : Numbered out) (b : ChannelBuilder ω) : Prop where
  count : b.frames.length = law.frame b.co
  number : ∀ {k f},b.frames[k]? = some f → f.id.frameNumber = UInt16.ofNat k

def Grows (b b' : ChannelBuilder ω) : Prop :=
  b'.frameCursor = b.frameCursor ∧ b.frames <+: b'.frames

theorem prefix_of_eq {fs' : List FrameData} (h : fs' = fs) : fs <+: fs' :=
  ⟨[],by rw [List.append_nil,h]⟩

theorem Grows.rfl : Grows b b := ⟨Eq.refl _,List.prefix_refl _⟩

theorem Grows.trans {d : ChannelBuilder ω} (h : Grows b b') (h' : Grows b' d) : Grows b d :=
  ⟨h'.1.trans h.1,h.2.trans h'.2⟩

theorem FramesOk.same (h : SameFrames b b') (hb : FramesOk law b) : FramesOk law b' := by
  refine ⟨?_,?_⟩
  · rw [h.frames,h.co]
    exact hb.count
  · rw [h.frames]
    exact hb.number

theorem grows_of_same (h : SameFrames b b') : Grows b b' :=
  ⟨h.frameCursor,prefix_of_eq h.frames⟩

theorem addBlock_ok (block : SizedBlock) (hb : FramesOk law b) :
    FramesOk law (b.addBlock out block).1 ∧ Grows b (b.addBlock out block).1 := by
  obtain ⟨co,hco,hs⟩ := addBlock_frames out block b
  have hfra : law.frame co = law.frame b.co := by
    rcases hco with rfl | rfl
    · rfl
    · exact law.addBlock b.co block
  have hb' : FramesOk law { b with co } := ⟨hb.count.trans hfra.symm,hb.number⟩
  exact ⟨hb'.same hs,hs.frameCursor,prefix_of_eq hs.frames⟩

theorem outputFrame_ok (hb : FramesOk law b) :
    FramesOk law (b.outputFrame out).1 ∧ Grows b (b.outputFrame out).1 := by
  rcases outputFrame_spec out b with ⟨co,heq,hout⟩ | ⟨co,data,fn,last,heq,hs,-⟩
  · rw [hout]
    refine ⟨⟨?_,hb.number⟩,Grows.rfl⟩
    rw [hb.count,law.failed heq]
  obtain ⟨hnx,hfn,-⟩ := law.output heq
  have hadd : FramesOk law { b with co, frames := b.frames ++ [⟨data,⟨out.id co,fn⟩⟩] } := by
    refine ⟨?_,?_⟩
    · simp [hnx,hb.count]
    intro k f hf
    rcases getElem?_concat_cases hf with hf | ⟨rfl,rfl⟩
    · exact hb.number hf
    · rw [hfn,hb.count]
  refine ⟨hadd.same hs,hs.frameCursor,?_⟩
  rw [hs.frames]
  exact List.prefix_append _ _

theorem outputFrames_frames {ok : Bool} (hb : FramesOk law b)
    (h : b.outputFrames out fuel = .ok (b',ok)) : FramesOk law b' ∧ Grows b b' := by
  have hend : Ends (fun p => FramesOk law p.1 ∧ Grows b p.1) (fun _ => True)
      (b.outputFrames out fuel) := by
    refine outputFrames_keeps (I := fun d => FramesOk law d ∧ Grows b d) ?_ trivial ?_ fuel
      ⟨hb,Grows.rfl⟩
    · rintro d ⟨hd,hg⟩
      obtain ⟨hd',hg'⟩ := outputFrame_ok hd
      exact ⟨hd',hg.trans hg'⟩
    rintro d ⟨hd,hg⟩
    refine ⟨⟨?_,hd.number⟩,hg⟩
    rw [law.close]
    exact hd.count
  exact hend.of_eq h

theorem outputAllFrames_last (law : Numbered out)
    (h : b.outputAllFrames out fuel = .ok (b',true)) : ∃ f ∈ b'.frames,IsLast f := by
  induction fuel generalizing b with
  | zero => cases h
  | succ fuel ih =>
    unfold outputAllFrames at h
    have hspec := outputFrame_spec out b
    split at h
    · rename_i d heq
      cases h
      rw [heq] at hspec
      rcases hspec with ⟨co,-,hout⟩ | ⟨co,data,fn,last,hf,hs,hls⟩
      · cases hout
      have hl : last = true := by
        cases last with
        | true => rfl
        | false => cases hls
      refine ⟨⟨data,⟨out.id co,fn⟩⟩,?_,?_⟩
      · rw [hs.frames]
        exact List.mem_append_right _ (List.mem_singleton_self _)
      · simp [IsLast,(law.output hf).2.2,hl]
    · cases h
    · exact ih h

theorem outputFrames_last (law : Numbered out) (hfull : b.isFull = true)
    (h : b.outputFrames out fuel = .ok (b',true)) : ∃ f ∈ b'.frames,IsLast f := by
  unfold ChannelBuilder.outputFrames ChannelBuilder.closeAndOutputAllFrames at h
  rw [if_pos hfull] at h
  split at h
  · cases h
  · exact outputAllFrames_last law h

theorem takeFrames_spec {n : Nat} (h : takeFrames n b = (b',fs)) :
    fs = (b.frames.drop b.frameCursor).take n ∧
      b' = { b with frameCursor := b.frameCursor + fs.length } := by
  induction n generalizing b b' fs with
  | zero =>
    cases h
    exact ⟨rfl,rfl⟩
  | succ n ih =>
    unfold takeFrames ChannelBuilder.nextFrame at h
    cases hf : b.frames[b.frameCursor]? with
    | none =>
      simp only [hf] at h
      cases h
      refine ⟨?_,rfl⟩
      rw [List.drop_eq_nil_of_le (List.getElem?_eq_none_iff.mp hf),List.take_nil]
    | some f =>
      simp only [hf] at h
      cases ht : takeFrames n { b with frameCursor := b.frameCursor + 1 } with
      | mk d rest =>
        rw [ht] at h
        cases h
        obtain ⟨hrs,hd⟩ := ih ht
        obtain ⟨hlen,hget⟩ := List.getElem?_eq_some_iff.mp hf
        refine ⟨?_,?_⟩
        · rw [List.drop_eq_getElem_cons hlen,hget,List.take_succ_cons,hrs]
        · rw [hd,List.length_cons,add_assoc,add_comm 1]

variable {c c' : Channel ω}

def Issued (c : Channel ω) (id : TxID) : Prop :=
  id ∈ c.pendingTransactions ∨ id ∈ c.confirmedTransactions

def Covered (c : Channel ω) : Prop :=
  ∀ k f,k < c.builder.frameCursor → c.builder.frames[k]? = some f → ∃ id,Issued c id ∧ f.id ∈ id

def Confirmed (c : Channel ω) (f : FrameData) : Prop :=
  ∃ id ∈ c.confirmedTransactions,f.id ∈ id

def Covers (id : TxID) (k : Nat) (f : FrameData) : Prop :=
  f.id ∈ id ∧ ∀ g,id.head? = some g → k < 2 ^ 16 → g.frameNumber.toNat ≤ k

structure Inv (law : Numbered out) (c : Channel ω) : Prop where
  frames : FramesOk law c.builder
  cursor_le : c.builder.frameCursor ≤ c.builder.frames.length
  ids : ∀ {id data},c.pendingTransactions.lookup id = some data → data.id = id
  covered : ∀ {k f},k < c.builder.frameCursor → c.builder.frames[k]? = some f →
    ∃ id,Issued c id ∧ Covers id k f

theorem Inv.grows (hi : Inv law c) (hok : FramesOk law b')
    (hg : Grows c.builder b') : Inv law { c with builder := b' } := by
  obtain ⟨tail,htl⟩ := hg.2
  have hle := hi.cursor_le
  refine ⟨hok,?_,hi.ids,?_⟩
  · simp only [hg.1,← htl,List.length_append]
    omega
  intro k f hk hf
  rw [hg.1] at hk
  simp only [← htl] at hf
  rw [List.getElem?_append_left (by omega)] at hf
  exact hi.covered hk hf

theorem Inv.same (hi : Inv law c) (h : SameFrames c.builder b') :
    Inv law { c with builder := b' } :=
  hi.grows (hi.frames.same h) (grows_of_same h)

theorem nextTxData_inv (hi : Inv law c) : Inv law c.nextTxData.1 := by
  unfold Channel.nextTxData
  cases ht : Channel.takeFrames c.cfg.maxFramesPerTx c.builder with
  | mk b fs =>
    obtain ⟨hfs,rfl⟩ := takeFrames_spec ht
    refine ⟨⟨hi.frames.count,hi.frames.number⟩,?_,?_,?_⟩
    · have hle := hi.cursor_le
      simp only [hfs,List.length_take,List.length_drop]
      omega
    · intro id data hd
      by_cases hid : id = (⟨fs,c.cfg.useBlobs⟩ : TxData).id
      · subst hid
        rw [lookup_insert] at hd
        cases hd
        rfl
      · rw [lookup_insert_ne hid] at hd
        exact hi.ids hd
    intro k f hk hf
    simp only at hk hf
    rcases lt_or_ge k c.builder.frameCursor with hlt | hge
    · obtain ⟨id,hid,hcov⟩ := hi.covered hlt hf
      refine ⟨id,?_,hcov⟩
      exact hid.imp_left fun hid => (mem_insert _).mpr (.inr hid)
    -- a frame of the new transaction, which starts at the cursor
    refine ⟨fs.map FrameData.id,.inl ((mem_insert _).mpr (.inl rfl)),?_,?_⟩
    · have hmem : f ∈ fs := by
        rw [hfs]
        refine List.mem_iff_getElem?.mpr ⟨k - c.builder.frameCursor,?_⟩
        rw [List.getElem?_take_of_lt,List.getElem?_drop,Nat.add_sub_cancel' hge]
        · exact hf
        have hlen := congrArg List.length hfs
        rw [List.length_take] at hlen
        omega
      exact List.mem_map_of_mem hmem
    intro g hg hk16
    obtain ⟨first,hfst,rfl⟩ : ∃ first,fs.head? = some first ∧ first.id = g := by
      rw [List.head?_map] at hg
      exact Option.map_eq_some_iff.mp hg
    have hget : c.builder.frames[c.builder.frameCursor]? = some first := by
      rw [hfs,List.head?_eq_getElem?,List.getElem?_take] at hfst
      split at hfst
      · rw [List.getElem?_drop] at hfst
        exact hfst
      · cases hfst
    rw [hi.frames.number hget,UInt16.toNat_ofNat']
    omega

/-- The cursor goes back to the first frame of the failed transaction, or stays before it. -/
theorem rewindFrameCursor_spec {f : FrameData} {b : ChannelBuilder ω}
    (h : b.rewindFrameCursor f = .ok b') :
    b' = { b with frameCursor := b'.frameCursor } ∧ b'.frameCursor ≤ b.frameCursor ∧
      b'.frameCursor ≤ f.id.frameNumber.toNat := by
  unfold rewindFrameCursor at h
  split at h
  · cases h
  split at h
  · cases h
  split at h
  · rename_i hlt
    cases h
    exact ⟨rfl,le_of_lt hlt,le_refl _⟩
  rename_i hlt
  cases h
  exact ⟨rfl,le_refl _,not_lt.mp hlt⟩

theorem txFailed_inv {id : TxID} (hi : Inv law c) (h : c.txFailed id = .ok c') : Inv law c' := by
  unfold Channel.txFailed at h
  split at h
  · cases h
    exact hi
  rename_i data hda
  split at h
  · cases h
  rename_i first rest hfst
  obtain ⟨b,hr,h⟩ := of_bind_ok h
  cases h
  obtain ⟨hb,hle,hnum⟩ := rewindFrameCursor_spec hr
  generalize b.frameCursor = cursor at hb hle hnum
  subst hb
  have hid : id.head? = some first.id := by simp [← hi.ids hda,TxData.id,hfst]
  have hcur := hi.cursor_le
  refine ⟨⟨hi.frames.count,hi.frames.number⟩,le_trans hle hcur,?_,?_⟩
  · intro id' data' hd
    by_cases hne : id' = id
    · rw [hne,lookup_erase] at hd
      cases hd
    · rw [lookup_erase_ne hne] at hd
      exact hi.ids hd
  intro k f hk hf
  simp only at hk hf
  obtain ⟨id',hiss,hmem,hhd⟩ := hi.covered (lt_of_lt_of_le hk hle) hf
  refine ⟨id',?_,hmem,hhd⟩
  -- the failed transaction starts behind the frame, so it is not the one that covers it
  have hne : id' ≠ id := by
    rintro rfl
    have hlt := first.id.frameNumber.toNat_lt
    have := hhd first.id hid (by omega)
    omega
  exact hiss.imp_left fun hp => mem_erase.mpr ⟨hne,hp⟩

theorem txConfirmed_inv (id : TxID) (incl : BlockID) (hi : Inv law c) :
    Inv law (c.txConfirmed id incl).1 := by
  unfold Channel.txConfirmed
  split
  · exact hi
  have hs := hi.same (updateTimeout_frames
    (incl.number + c.builder.cfg.channelTimeout - c.builder.cfg.subSafetyMargin)
    .channelTimeoutClose c.builder)
  refine ⟨hs.frames,hs.cursor_le,?_,?_⟩
  · intro id' data hd
    by_cases hne : id' = id
    · rw [hne,lookup_erase] at hd
      cases hd
    · rw [lookup_erase_ne hne] at hd
      exact hi.ids hd
  intro k f hk hf
  obtain ⟨id',hiss,hcov⟩ := hs.covered hk hf
  refine ⟨id',?_,hcov⟩
  rcases hiss with hp | hc
  · by_cases hne : id' = id
    · exact .inr ((mem_insert _).mpr (.inl hne))
    · exact .inl (mem_erase.mpr ⟨hne,hp⟩)
  · exact .inr ((mem_insert _).mpr (.inr hc))

variable {op : Op}

inductive Op where
  | addBlock (block : SizedBlock)
  | outputFrames (fuel : Nat)
  | checkTimeout (l1BlockNum : UInt64)
  | close
  | nextTxData
  | txFailed (id : TxID)
  | txConfirmed (id : TxID) (inclusionBlock : BlockID)

def exec (out : ChannelOut ω) (c : Channel ω) : Op → Except Crash (Channel ω)
  | .addBlock block => .ok { c with builder := (c.builder.addBlock out block).1 }
  | .outputFrames fuel => do
    let (builder,_) ← c.builder.outputFrames out fuel
    .ok { c with builder }
  | .checkTimeout l1BlockNum => .ok { c with builder := c.builder.checkTimeout l1BlockNum }
  | .close => .ok { c with builder := c.builder.close }
  | .nextTxData => .ok c.nextTxData.1
  | .txFailed id => c.txFailed id
  | .txConfirmed id inclusionBlock => .ok (c.txConfirmed id inclusionBlock).1

def Step (out : ChannelOut ω) (c c' : Channel ω) : Prop := ∃ op,exec out c op = .ok c'

theorem step_of_exec (h : exec out c op = .ok c') : Step out c c' := ⟨op,h⟩

/-- `OutputFrames` has been called on the full channel and has returned without an error. -/
def LastCreated (out : ChannelOut ω) (c₀ c : Channel ω) : Prop :=
  ∃ c₁ builder fuel,Reaches (Step out) c₀ c₁ ∧ c₁.builder.isFull = true ∧
    c₁.builder.outputFrames out fuel = .ok (builder,true) ∧
    Reaches (Step out) { c₁ with builder } c

theorem txFailed_frames {id : TxID} (h : c.txFailed id = .ok c') :
    c'.builder.frames = c.builder.frames := by
  unfold Channel.txFailed at h
  split at h
  · cases h
    rfl
  split at h
  · cases h
  obtain ⟨b,hr,h⟩ := of_bind_ok h
  cases h
  rw [(rewindFrameCursor_spec hr).1]

theorem txConfirmed_frames (id : TxID) (incl : BlockID) (c : Channel ω) :
    (c.txConfirmed id incl).1.builder.frames = c.builder.frames := by
  unfold Channel.txConfirmed
  split
  · rfl
  · exact (updateTimeout_frames _ _ _).frames

theorem nextTxData_frames (c : Channel ω) : c.nextTxData.1.builder.frames = c.builder.frames := by
  unfold Channel.nextTxData
  cases ht : Channel.takeFrames c.cfg.maxFramesPerTx c.builder with
  | mk b fs => rw [(takeFrames_spec ht).2]

theorem exec_inv (hi : Inv law c) (h : exec out c op = .ok c') :
    Inv law c' ∧ c.builder.frames <+: c'.builder.frames := by
  cases op with
  | addBlock block =>
    cases h
    obtain ⟨hok,hg⟩ := addBlock_ok block hi.frames
    exact ⟨hi.grows hok hg,hg.2⟩
  | outputFrames fuel =>
    obtain ⟨p,hb,h⟩ := of_bind_ok h
    cases h
    obtain ⟨hok,hg⟩ := outputFrames_frames hi.frames hb
    exact ⟨hi.grows hok hg,hg.2⟩
  | checkTimeout n =>
    cases h
    have hs := checkTimeout_frames n c.builder
    exact ⟨hi.same hs,(grows_of_same hs).2⟩
  | close =>
    cases h
    have hs := close_frames c.builder
    exact ⟨hi.same hs,(grows_of_same hs).2⟩
  | nextTxData =>
    cases h
    exact ⟨nextTxData_inv hi,prefix_of_eq (nextTxData_frames c)⟩
  | txFailed id => exact ⟨txFailed_inv hi h,prefix_of_eq (txFailed_frames h)⟩
  | txConfirmed id incl =>
    cases h
    exact ⟨txConfirmed_inv id incl hi,prefix_of_eq (txConfirmed_frames id incl c)⟩

theorem new_inv {cfg : ChannelConfig} {n : UInt64} {co : ω} (h : law.frame co = 0) :
    Inv law (newChannel cfg n co) := by
  have hs := newChannelBuilder_frames cfg n co
  have hemp : FramesOk law (mk cfg 0 none none co [] BlockID.zero BlockID.zero [] 0 0) := by
    refine ⟨h.symm,?_⟩
    nofun
  have hcur : (newChannel cfg n co).builder.frameCursor = 0 := hs.frameCursor
  refine ⟨hemp.same hs,?_,?_,?_⟩
  · rw [hcur]
    exact zero_le _
  · nofun
  intro k f hk
  simp [hcur] at hk

/-- With nothing pending, the frames below the cursor are all frames and the transactions that
cover them are confirmed. -/
theorem Inv.confirmed (hi : Inv law c) (h : c.isFullySubmitted = true) :
    ∀ f ∈ c.builder.frames,Confirmed c f := by
  unfold isFullySubmitted pendingFrames at h
  rw [Bool.and_eq_true,decide_eq_true_eq] at h
  have hpen : c.pendingTransactions.keys = [] := List.eq_nil_of_length_eq_zero (by omega)
  intro f hf
  obtain ⟨k,hk⟩ := List.mem_iff_getElem?.mp hf
  obtain ⟨hlen,-⟩ := List.getElem?_eq_some_iff.mp hk
  obtain ⟨id,hiss,hmem,-⟩ := hi.covered (by omega) hk
  rcases hiss with hp | hc
  · rw [mem_keys,hpen] at hp
    cases hp
  · exact ⟨id,hc,hmem⟩

theorem last_kept (hi : Inv law c) (h : Reaches (Step out) c c')
    (hlast : ∃ f ∈ c.builder.frames,IsLast f) : ∃ f ∈ c'.builder.frames,IsLast f := by
  refine (h.invariant (P := fun d => Inv law d ∧ ∃ f ∈ d.builder.frames,IsLast f) ⟨hi,hlast⟩ ?_).2
  rintro x y ⟨hx,f,hf,hl⟩ ⟨op,hop⟩
  obtain ⟨hy,hpre⟩ := exec_inv hx hop
  exact ⟨hy,f,hpre.subset hf,hl⟩

/-- In every run the frames below the cursor are in pending or confirmed transactions. A channel
reported as fully submitted has all its frames in confirmed ones, and the last frame once it was
created. -/
theorem fully_submitted_on_chain (law : Numbered out) {cfg : ChannelConfig} {n : UInt64} {co : ω}
    (hco : law.frame co = 0) (h : Reaches (Step out) (Channel.newChannel cfg n co) c) :
    Covered c ∧ (c.isFullySubmitted = true → ∀ f ∈ c.builder.frames,Confirmed c f) ∧
      (c.isFullySubmitted = true → LastCreated out (Channel.newChannel cfg n co) c →
        ∃ f ∈ c.builder.frames,IsLast f ∧ Confirmed c f) := by
  have hrun : ∀ {d},Reaches (Step out) (newChannel cfg n co) d → Inv law d := by
    intro d hd
    refine hd.invariant (new_inv hco) ?_
    rintro x y hx ⟨op,hop⟩
    exact (exec_inv hx hop).1
  have hi := hrun h
  refine ⟨?_,hi.confirmed,?_⟩
  · intro k f hk hf
    obtain ⟨id,hiss,hmem,-⟩ := hi.covered hk hf
    exact ⟨id,hiss,hmem⟩
  rintro hsub ⟨c₁,b,fuel,hrch,hfu,hfs,hrs⟩
  have hi₁ := hrun hrch
  obtain ⟨hok,hg⟩ := outputFrames_frames hi₁.frames hfs
  obtain ⟨f,hf,hl⟩ := last_kept (hi₁.grows hok hg) hrs (outputFrames_last law hfu hfs)
  exact ⟨f,hf,hl,hi.confirmed hsub f hf⟩

section outs
open BatcherOutput Derive
variable {κ : Type}

theorem outputFrameOf_frame {f : Option Frame} {data : Bytes} {fn : UInt16} {last : Bool}
    (h : outputFrameOf f = .frame data fn last) :
    ∃ g,f = some g ∧ fn = g.frameNumber ∧ data.getLast? = some (if last then 1 else 0) := by
  cases f with
  | none => cases h
  | some g =>
    cases h
    exact ⟨g,rfl,rfl,by simp [Frame.marshalBinary]⟩

theorem createEmptyFrame_number (id : ChannelID) (frame ready : Nat) (closed : Bool)
    (size : UInt64) : (createEmptyFrame id frame ready closed size).1.frameNumber = .ofNat frame := by
  simp only [createEmptyFrame]
  split
  · rfl
  · rfl

def singularNumbered {comp : Compressor κ} (s : Stream comp.toChannelCompressor)
    (convert : BlockConversion) : Numbered (singularChannelOut comp convert) where
  frame co := co.frame
  addBlock co block := by
    simp only [singularChannelOut]
    split
    · rfl
    split
    · rfl
    · exact (addSingularBatch_sent s _ co).2.1
  close co := by
    simp only [singularChannelOut,SingularChannelOut.close]
    split
    · rfl
    · rfl
  failed h := by
    simp only [singularChannelOut,SingularChannelOut.outputFrame] at h
    split at h
    · cases h
      rfl
    split at h
    · cases h
      rfl
    · cases h
  output h := by
    simp only [singularChannelOut,SingularChannelOut.outputFrame] at h
    split at h
    · cases h
    split at h
    · cases h
    · obtain ⟨rfl,hf⟩ := Prod.mk.inj h
      obtain ⟨g,hg,hfn,hlast⟩ := outputFrameOf_frame hf
      cases hg
      exact ⟨rfl,hfn.trans (createEmptyFrame_number ..),hlast⟩

def spanNumbered (codec : TxCodec) {comp : ChannelCompressor κ} (s : Stream comp)
    (convert : BlockConversion) : Numbered (spanChannelOut codec comp convert) where
  frame co := co.frame
  addBlock co block := by
    simp only [spanChannelOut]
    split
    · rfl
    split
    · rfl
    split
    · rfl
    · rename_i heq
      exact (addSingularBatch_recompresses s heq).1.frame
  close co := by
    simp only [spanChannelOut,SpanChannelOut.close]
    split
    · rfl
    split
    · rfl
    · exact (compress_fresh s _).2.1
  failed h := by
    simp only [spanChannelOut,SpanChannelOut.outputFrame] at h
    split at h
    · cases h
      rfl
    split at h
    · cases h
      rfl
    · cases h
  output h := by
    simp only [spanChannelOut,SpanChannelOut.outputFrame] at h
    split at h
    · cases h
    split at h
    · cases h
    · obtain ⟨rfl,hf⟩ := Prod.mk.inj h
      obtain ⟨g,hg,hfn,hlast⟩ := outputFrameOf_frame hf
      cases hg
      exact ⟨rfl,hfn.trans (createEmptyFrame_number ..),hlast⟩

/-- A block in two frames. The first attempt at the second transaction fails. -/
theorem fully_submitted_on_chain_sample : ∃ c,
    Reaches (Step (storedOut [7,7,7])) (.newChannel (frameCfg 40) 0 storedCo) c ∧
    c.builder.frames.length = 2 ∧ ∃ f ∈ c.builder.frames,IsLast f ∧ Confirmed c f := by
  have hrun : (runOps (exec (storedOut [7,7,7])) (newChannel (frameCfg 40) 0 storedCo)
      [.addBlock (sampleBlock 1 100),.close]).toOption.map
        (fun c => (c.builder.isFull,(c.builder.outputFrames (storedOut [7,7,7]) 10).toOption.map
          fun p => (p.2,(runOps (exec (storedOut [7,7,7])) { c with builder := p.1 } [.nextTxData,
            .nextTxData,.txFailed [⟨.fill 16 1,1⟩],.txConfirmed [⟨.fill 16 1,0⟩] ⟨.fill 32 1,100⟩,
            .nextTxData,.txConfirmed [⟨.fill 16 1,1⟩] ⟨.fill 32 2,101⟩]).toOption.map
              (fun c => (c.isFullySubmitted,c.builder.frames.length))))) =
        some (true,some (true,some (true,2))) := by
    decide +kernel
  obtain ⟨c₁,hrch,hobs⟩ := runOps_observe (fun _ _ _ _ => step_of_exec) hrun
  rw [Prod.mk.injEq] at hobs
  obtain ⟨hfu,hobs⟩ := hobs
  obtain ⟨⟨b,ok⟩,hfs,hobs⟩ := Option.map_eq_some_iff.mp hobs
  rw [Prod.mk.injEq] at hobs
  obtain ⟨rfl,hobs⟩ := hobs
  have hfs := eq_ok_of_toOption hfs
  obtain ⟨c,hrs,hobs⟩ := runOps_observe (fun _ _ _ _ => step_of_exec) hobs
  obtain ⟨hsub,hlen⟩ := Prod.mk.inj hobs
  have hst : Step (storedOut [7,7,7]) c₁ { c₁ with builder := b } := by
    refine ⟨.outputFrames 10,?_⟩
    simp [exec,hfs]
  have hall := (hrch.tail hst).trans hrs
  have hlaw := fully_submitted_on_chain (singularNumbered (storedStream [7,7,7]) sampleBatch) rfl hall
  exact ⟨c,hall,hlen,hlaw.2.2 hsub ⟨c₁,b,10,hrch,hfu,hfs,hrs⟩⟩

end outs

/-- A block fills the channel, and no frame has been created yet. -/
theorem fully_submitted_without_last : ∃ c,
    Reaches (Step scriptedOut) (.newChannel sampleCfg 0 ⟨1,1,1,0,0⟩) c ∧
    c.isFullySubmitted = true ∧ ¬ ∃ f ∈ c.builder.frames,IsLast f ∧ Confirmed c f := by
  have hrun : (runOps (exec scriptedOut) (newChannel sampleCfg 0 ⟨1,1,1,0,0⟩)
      [.addBlock (sampleBlock 1 100)]).toOption.map
        (fun c => (c.isFullySubmitted,c.builder.frames)) = some (true,[]) := by
    decide +kernel
  obtain ⟨c,hrch,hobs⟩ := runOps_observe (fun _ _ _ _ => step_of_exec) hrun
  rw [Prod.mk.injEq] at hobs
  refine ⟨c,hrch,hobs.1,?_⟩
  rintro ⟨f,hf,-⟩
  simp [hobs.2] at hf

end OpStack.Proofs.ChannelSubmission
