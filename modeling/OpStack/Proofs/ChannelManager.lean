import OpStack.Batcher.ChannelManager
import OpStack.Proofs.Builder

namespace OpStack.Proofs.ChannelManager
open Lib Eth Batcher Builder Batcher.ChannelManager List Function

variable {ω : Type} {out : ChannelOut ω} {c c' : ChannelBuilder ω}

theorem addBlocks_spec {pending : List SizedBlock} {added : Nat} {ok : Bool}
    (h : addBlocks out pending c = (c',added,ok)) :
    added ≤ pending.length ∧ c'.blocks = c.blocks ++ pending.take added ∧
      (LatestOk c → LatestOk c') := by
  induction pending generalizing c c' added ok with
  | nil =>
    cases h
    simp
  | cons block rest ih =>
    unfold addBlocks at h
    cases hadd : c.addBlock out block with
    | mk d r =>
      rw [hadd] at h
      rcases addBlock_spec hadd with ⟨info,rfl,hb,hl⟩ | ⟨e,rfl,hs⟩
      · simp only at h
        split at h
        · cases h
          simp only [length_cons]
          exact ⟨by omega,hb,hl⟩
        cases hrs : addBlocks out rest d with
        | mk d' p =>
          rw [hrs] at h
          cases h
          obtain ⟨hle,hb',hl'⟩ := ih hrs
          refine ⟨Nat.succ_le_succ hle,?_,fun hok => hl' (hl hok)⟩
          rw [hb',hb,take_succ_cons,append_assoc,singleton_append]
      · cases e with
        | full =>
          cases h
          exact ⟨Nat.zero_le _,by rw [hs.1]; simp,hs.latestOk⟩
        | other =>
          cases h
          exact ⟨Nat.zero_le _,by rw [hs.1]; simp,hs.latestOk⟩

section manager
variable {outs : Outs ω} {s s' : ChannelManager ω} {r : Nat} {c : Channel ω} {E : Crash → Prop}
  {res : Option Nat} {n : Nat} {α : Type}

def blocksOf (s : ChannelManager ω) (r : Nat) : List SizedBlock := (s.heap r).builder.blocks

def queuedBlocks (s : ChannelManager ω) : List SizedBlock := s.channelQueue.flatMap (blocksOf s)

/-- No block, cursor or queue has changed. A transaction may have been added for a queued
channel. -/
structure Quiet (s s' : ChannelManager ω) : Prop where
  blocks : s'.blocks = s.blocks
  blockCursor : s'.blockCursor = s.blockCursor
  tip : s'.tip = s.tip
  created : s'.created = s.created
  currentChannel : s'.currentChannel = s.currentChannel
  channelQueue : s'.channelQueue = s.channelQueue
  pendingDABytes : s'.pendingDABytes = s.pendingDABytes
  same : ∀ r,SameBlocks (s.heap r).builder (s'.heap r).builder
  txChannels : ∀ {id r},s'.txChannels id = some r → s.txChannels id = some r ∨ r ∈ s.channelQueue

structure SameSubmitted (s s' : ChannelManager ω) : Prop where
  defaultCfg : s'.defaultCfg = s.defaultCfg
  submitted : ∀ r ≠ s.created,(s'.heap r).noneSubmitted = (s.heap r).noneSubmitted

structure Opens (s s' : ChannelManager ω) : Prop where
  blocks : s'.blocks = s.blocks
  blockCursor : s'.blockCursor = s.blockCursor
  tip : s'.tip = s.tip
  created : s'.created = s.created + 1
  currentChannel : s'.currentChannel = some s.created
  channelQueue : s'.channelQueue = s.channelQueue ++ [s.created]
  pendingDABytes : s'.pendingDABytes = s.pendingDABytes
  txChannels : s'.txChannels = s.txChannels
  defaultCfg : s'.defaultCfg = s.defaultCfg
  empty : blocksOf s' s.created = []
  latest : LatestOk (s'.heap s.created).builder
  other : ∀ r ≠ s.created,s'.heap r = s.heap r

structure Adds (s s' : ChannelManager ω) (r n : Nat) : Prop where
  current : s.currentChannel = some r
  blocks : s'.blocks = s.blocks
  blockCursor : s'.blockCursor = s.blockCursor + n
  le : n ≤ (s.blocks.drop s.blockCursor).length
  tip : s'.tip = s.tip
  created : s'.created = s.created
  currentChannel : s'.currentChannel = s.currentChannel
  channelQueue : s'.channelQueue = s.channelQueue
  pendingDABytes :
    s'.pendingDABytes = s.pendingDABytes - daBytes ((s.blocks.drop s.blockCursor).take n)
  txChannels : s'.txChannels = s.txChannels
  defaultCfg : s'.defaultCfg = s.defaultCfg
  added : blocksOf s' r = blocksOf s r ++ (s.blocks.drop s.blockCursor).take n
  latest : LatestOk (s.heap r).builder → LatestOk (s'.heap r).builder
  submitted : (s'.heap r).noneSubmitted = (s.heap r).noneSubmitted
  other : ∀ r' ≠ r,s'.heap r' = s.heap r'

theorem Quiet.rfl {s : ChannelManager ω} : Quiet s s :=
  ⟨Eq.refl _,Eq.refl _,Eq.refl _,Eq.refl _,Eq.refl _,Eq.refl _,Eq.refl _,fun _ => .rfl,.inl⟩

theorem Quiet.trans {t : ChannelManager ω} (h : Quiet s s') (h' : Quiet s' t) : Quiet s t where
  blocks := h'.blocks.trans h.blocks
  blockCursor := h'.blockCursor.trans h.blockCursor
  tip := h'.tip.trans h.tip
  created := h'.created.trans h.created
  currentChannel := h'.currentChannel.trans h.currentChannel
  channelQueue := h'.channelQueue.trans h.channelQueue
  pendingDABytes := h'.pendingDABytes.trans h.pendingDABytes
  same r := (h.same r).trans (h'.same r)
  txChannels {id r} hr := by
    rcases h'.txChannels hr with hr | hr
    · exact h.txChannels hr
    · rw [h.channelQueue] at hr
      exact .inr hr

theorem Quiet.blocksOf_eq (h : Quiet s s') : blocksOf s' = blocksOf s :=
  funext fun r => (h.same r).1

theorem Quiet.queuedBlocks_eq (h : Quiet s s') : queuedBlocks s' = queuedBlocks s := by
  rw [queuedBlocks,queuedBlocks,h.channelQueue,h.blocksOf_eq]

theorem heap_setChannel (s : ChannelManager ω) (r : Nat) (c : Channel ω) (r' : Nat) :
    (s.setChannel r c).heap r' = if r' = r then c else s.heap r' := by
  simp [setChannel,update_apply]

theorem setChannel_quiet (h : SameBlocks (s.heap r).builder c.builder) :
    Quiet s (s.setChannel r c) := by
  refine ⟨rfl,rfl,rfl,rfl,rfl,rfl,rfl,?_,.inl⟩
  intro r'
  rw [heap_setChannel]
  split
  · rename_i heq
    rw [heq]
    exact h
  · exact .rfl

theorem setChannel_submitted (h : c.noneSubmitted = (s.heap r).noneSubmitted) :
    SameSubmitted s (s.setChannel r c) := by
  refine ⟨rfl,?_⟩
  intro r' _
  rw [heap_setChannel]
  split
  · rename_i heq
    rw [heq]
    exact h
  · rfl

theorem setTxChannel_none_quiet (id : TxID) (s : ChannelManager ω) :
    Quiet s (s.setTxChannel id none) := by
  refine ⟨rfl,rfl,rfl,rfl,rfl,rfl,rfl,fun _ => .rfl,?_⟩
  intro id' r hr
  simp only [setTxChannel,update_apply] at hr
  split at hr
  · cases hr
  · exact .inl hr

theorem txFailed_quiet (hn : E .noFrames) (hr : E .rewindFrameCursor)
    (id : TxID) (s : ChannelManager ω) : Ends (Quiet s) E (s.txFailed id) := by
  unfold txFailed
  split
  · exact Ends.ok .rfl
  rename_i r _
  have hc : Ends (fun c => SameBlocks (s.heap r).builder c.builder) E ((s.heap r).txFailed id) := by
    unfold Channel.txFailed
    split
    · exact .ok .rfl
    split
    · exact hn
    · exact (rewindFrameCursor_same hr _ _).bind fun b hb => .ok hb
  refine hc.bind fun c hsm => .ok ?_
  exact (setTxChannel_none_quiet id s).trans (setChannel_quiet hsm)

theorem confirmed_quiet (id : TxID) (incl : BlockID) (s : ChannelManager ω) (r : Nat) :
    Quiet s ((s.setTxChannel id none).setChannel r ((s.heap r).txConfirmed id incl).1) := by
  refine (setTxChannel_none_quiet id s).trans (setChannel_quiet ?_)
  unfold Channel.txConfirmed
  split
  · exact .rfl
  · exact updateTimeout_same _ _ _

theorem nextTxData_quiet (hr : r ∈ s.channelQueue) : Quiet s (s.nextTxData r).1 := by
  unfold nextTxData
  split
  · have hsm : SameBlocks (s.heap r).builder (s.heap r).nextTxData.1.builder := takeFrames_same _ _
    have hq : Quiet s ((s.setChannel r (s.heap r).nextTxData.1).setTxChannel
        (s.heap r).nextTxData.2.id (some r)) := by
      refine (setChannel_quiet hsm).trans ⟨rfl,rfl,rfl,rfl,rfl,rfl,rfl,fun _ => .rfl,?_⟩
      intro id' r' h'
      simp only [setTxChannel,update_apply] at h'
      split at h'
      · cases h'
        exact .inr hr
      · exact .inl h'
    simp only
    split
    · exact ⟨hq.blocks,hq.blockCursor,hq.tip,hq.created,hq.currentChannel,hq.channelQueue,
        hq.pendingDABytes,hq.same,hq.txChannels⟩
    · exact hq
  · exact .rfl

theorem openChannel_spec (h : openChannel outs s = (s',res)) :
    (s' = s ∧ res = none) ∨ (Opens s s' ∧ res = some s.created) := by
  unfold openChannel at h
  split at h
  · cases h
    exact .inl ⟨rfl,rfl⟩
  cases h
  refine .inr ⟨⟨rfl,rfl,rfl,rfl,rfl,rfl,rfl,rfl,rfl,?_,?_,?_⟩,rfl⟩
  · simp only [blocksOf,setChannel,update_self]
    exact (newChannelBuilder_blocks _ _ _).1
  · simp only [setChannel,update_self]
    exact newChannelBuilder_latestOk _ _ _
  · intro r hr
    exact update_of_ne hr _ _

theorem ensureChannelWithSpace_spec (h : ensureChannelWithSpace outs s = (s',res)) :
    (s' = s ∧ ∀ r,res = some r → s.currentChannel = some r) ∨
      (Opens s s' ∧ res = some s.created) := by
  have hop : openChannel outs s = (s',res) →
      (s' = s ∧ ∀ r,res = some r → s.currentChannel = some r) ∨
        (Opens s s' ∧ res = some s.created) := by
    intro h
    rcases openChannel_spec h with ⟨hs,hn⟩ | ho
    · exact .inl ⟨hs,fun r hr => by rw [hn] at hr; cases hr⟩
    · exact .inr ho
  unfold ensureChannelWithSpace at h
  split at h
  · exact hop h
  rename_i r hr
  split at h
  · exact hop h
  cases h
  refine .inl ⟨rfl,?_⟩
  intro r' h'
  cases h'
  exact hr

theorem processBlocks_adds {ok : Bool} (hr : s.currentChannel = some r)
    (h : processBlocks outs.ops r s = (s',ok)) : ∃ n,Adds s s' r n := by
  unfold processBlocks at h
  cases hadd : addBlocks outs.ops (s.blocks.drop s.blockCursor) (s.heap r).builder with
  | mk builder p =>
    obtain ⟨n,k⟩ := p
    simp only [hadd] at h
    cases h
    obtain ⟨hle,hb,hl⟩ := addBlocks_spec hadd
    refine ⟨n,⟨hr,rfl,rfl,hle,rfl,rfl,rfl,rfl,rfl,rfl,rfl,?_,?_,?_,?_⟩⟩
    · simp only [blocksOf,setChannel,update_self]
      exact hb
    · simp only [setChannel,update_self]
      exact hl
    · simp only [setChannel,update_self]
      rfl
    · intro r' hr'
      exact update_of_ne hr' _ _

theorem registerL1Block_quiet (l1Head : BlockID) (s : ChannelManager ω) (r : Nat) :
    Quiet s (s.registerL1Block r l1Head) ∧ SameSubmitted s (s.registerL1Block r l1Head) :=
  ⟨setChannel_quiet (checkTimeout_same _ _),setChannel_submitted rfl⟩

theorem outputFrames_quiet (hE : E .outOfFuel) (fuel : Nat)
    (s : ChannelManager ω) (r : Nat) : Ends (fun p => Quiet s p.1 ∧ SameSubmitted s p.1) E
      (outputFrames outs.ops fuel r s) := by
  refine (outputFrames_same hE fuel _).bind ?_
  rintro ⟨b,ok⟩ hb
  simp only
  split
  · exact .ok ⟨setChannel_quiet hb,setChannel_submitted rfl⟩
  · exact .ok ⟨setChannel_quiet hb,setChannel_submitted rfl⟩

theorem forceClose_quiet (hE : E .outOfFuel) (fuel : Nat) (pi : PubInfo) (s : ChannelManager ω) :
    Ends (fun p => Quiet s p.1 ∧ SameSubmitted s p.1) E (forceClose outs.ops fuel pi s) := by
  have hsm : Quiet s s ∧ SameSubmitted s s := ⟨.rfl,⟨rfl,fun _ _ => rfl⟩⟩
  unfold forceClose
  split
  · exact .ok hsm
  split
  · refine (outputFrames_same hE fuel _).bind ?_
    rintro ⟨b,ok⟩ hb
    exact .ok ⟨setChannel_quiet ((close_same _).trans hb),setChannel_submitted rfl⟩
  · exact .ok hsm

/-- The references are in order: the queue has them as they were created, and the current channel
is its last. -/
structure Refs (s : ChannelManager ω) : Prop where
  ascending : s.channelQueue.Pairwise (· < ·)
  fresh : ∀ r ∈ s.channelQueue,r < s.created
  current : ∀ {r},s.currentChannel = some r → s.channelQueue.getLast? = some r

structure Ready (s s' : ChannelManager ω) (r : Nat) : Prop where
  blocks : s'.blocks = s.blocks
  mem : r ∈ s'.channelQueue
  defaultCfg : s'.defaultCfg = s.defaultCfg
  submitted : r ∈ s.channelQueue → (s'.heap r).noneSubmitted = (s.heap r).noneSubmitted
  first : ∀ f,(blocksOf s' r).head? = some f →
    (r ∈ s.channelQueue ∧ (blocksOf s r).head? = some f) ∨ f ∈ s'.blocks.take s'.blockCursor
  place : Quiet s s' ∨ s'.channelQueue.getLast? = some r

theorem Refs.same (hr : Refs s) (hqueue : s'.channelQueue = s.channelQueue)
    (hcreated : s'.created = s.created) (hcurrent : s'.currentChannel = s.currentChannel) :
    Refs s' := by
  refine ⟨?_,?_,?_⟩
  · rw [hqueue]
    exact hr.ascending
  · rw [hqueue,hcreated]
    exact hr.fresh
  rw [hcurrent,hqueue]
  exact hr.current

theorem Refs.quiet (hr : Refs s) (h : Quiet s s') : Refs s' :=
  hr.same h.channelQueue h.created h.currentChannel

theorem Refs.opens (hr : Refs s) (h : Opens s s') : Refs s' := by
  refine ⟨?_,?_,?_⟩
  · rw [h.channelQueue,pairwise_append]
    refine ⟨hr.ascending,pairwise_singleton _ _,?_⟩
    intro a ha b hb
    rw [mem_singleton.mp hb]
    exact hr.fresh a ha
  · intro r hmem
    rw [h.channelQueue,mem_append,mem_singleton] at hmem
    rw [h.created]
    rcases hmem with hmem | rfl
    · exact Nat.lt_succ_of_lt (hr.fresh r hmem)
    · exact Nat.lt_succ_self _
  · intro r hc
    rw [h.currentChannel] at hc
    simp [h.channelQueue,hc]

theorem Refs.adds (hr : Refs s) (h : Adds s s' r n) : Refs s' :=
  hr.same h.channelQueue h.created h.currentChannel

theorem mem_take_of_mem_drop_take {l : List α} {k : Nat} {x : α}
    (h : x ∈ (l.drop k).take n) : x ∈ l.take (k + n) := by
  rw [take_add]
  exact mem_append_right _ h

theorem ready_of_adds {s0 s1 s2 : ChannelManager ω} (hr : Refs s)
    (hq : Quiet s s0) (hs : SameSubmitted s s0)
    (h1 : (s1 = s0 ∧ s0.currentChannel = some r) ∨ (Opens s0 s1 ∧ r = s0.created))
    (ha : Adds s1 s2 r n) (hq' : Quiet s2 s') (hs' : SameSubmitted s2 s') : Ready s s' r := by
  have hls : s1.channelQueue.getLast? = some r := by
    rcases h1 with ⟨rfl,hc⟩ | ⟨ho,rfl⟩
    · exact (hr.quiet hq).current hc
    · simp [ho.channelQueue]
  have hqu := hq'.channelQueue.trans ha.channelQueue
  have hbs := hq'.blocks.trans ha.blocks
  have hbr : blocksOf s' r = blocksOf s1 r ++ (s1.blocks.drop s1.blockCursor).take n := by
    rw [hq'.blocksOf_eq,ha.added]
  have hold : r ∈ s.channelQueue → s1 = s0 := by
    intro hmem
    rcases h1 with ⟨he,-⟩ | ⟨ho,rfl⟩
    · exact he
    have hlt := hr.fresh _ hmem
    rw [hq.created] at hlt
    exact absurd hlt (Nat.lt_irrefl _)
  refine ⟨?_,?_,?_,?_,?_,?_⟩
  · rw [hbs]
    rcases h1 with ⟨rfl,-⟩ | ⟨ho,-⟩
    · exact hq.blocks
    · exact ho.blocks.trans hq.blocks
  · rw [hqu]
    exact mem_of_getLast? hls
  · rw [hs'.defaultCfg,ha.defaultCfg,← hs.defaultCfg]
    rcases h1 with ⟨rfl,-⟩ | ⟨ho,-⟩
    · rfl
    · exact ho.defaultCfg
  · intro hmem
    have hne := Nat.ne_of_lt (hr.fresh r hmem)
    have he := hold hmem
    subst he
    have hne2 : r ≠ s2.created := by
      rw [ha.created,hq.created]
      exact hne
    rw [hs'.submitted r hne2,← hs.submitted r hne,ha.submitted]
  · intro f hf
    rw [hbr] at hf
    cases hb : blocksOf s1 r with
    | nil =>
      right
      rw [hb] at hf
      rw [hbs,hq'.blockCursor,ha.blockCursor]
      exact mem_take_of_mem_drop_take (mem_of_head? hf)
    | cons g rest =>
      left
      rw [hb,cons_append] at hf
      rcases h1 with ⟨rfl,-⟩ | ⟨ho,rfl⟩
      · rw [hq.channelQueue] at hls
        rw [hq.blocksOf_eq] at hb
        rw [hb]
        exact ⟨mem_of_getLast? hls,hf⟩
      · simp [ho.empty] at hb
  · rw [hqu]
    exact .inr hls

section ready
variable {I : ChannelManager ω → Prop} (hE : E .outOfFuel) (hrefs : ∀ {s},I s → Refs s)
  (hquiet : ∀ {s s'},Quiet s s' → I s → I s') (hopens : ∀ {s s'},Opens s s' → I s → I s')
  (hadds : ∀ {s s' r n},Adds s s' r n → I s → I s') (fuel : Nat) (l1Head : BlockID)

include hE hrefs hquiet hopens hadds

theorem fillChannel_spec {s0 : ChannelManager ω} (pi : PubInfo)
    (hi : I s) (hq : Quiet s s0) (hs : SameSubmitted s s0) :
    Ends (fun p => I p.1 ∧ ∀ r,p.2 = .ok r → Ready s p.1 r) E
      (fillChannel outs fuel l1Head pi s0) := by
  have hi0 := hquiet hq hi
  unfold fillChannel
  cases he : ensureChannelWithSpace outs s0 with
  | mk s1 res =>
    have hspec := ensureChannelWithSpace_spec he
    have hi1 : I s1 := by
      rcases hspec with ⟨rfl,-⟩ | ⟨ho,-⟩
      · exact hi0
      · exact hopens ho hi0
    cases res with
    | none => exact .ok ⟨hi1,nofun⟩
    | some r =>
      have h1 : (s1 = s0 ∧ s0.currentChannel = some r) ∨ (Opens s0 s1 ∧ r = s0.created) := by
        rcases hspec with ⟨hs1,hc⟩ | ⟨ho,hc⟩
        · exact .inl ⟨hs1,hc r rfl⟩
        · exact .inr ⟨ho,Option.some.inj hc⟩
      have hcur : s1.currentChannel = some r := by
        rcases h1 with ⟨rfl,hc⟩ | ⟨ho,rfl⟩
        · exact hc
        · exact ho.currentChannel
      cases hp : processBlocks outs.ops r s1 with
      | mk s2 ok =>
        obtain ⟨n,ha⟩ := processBlocks_adds hcur hp
        have hi2 := hadds ha hi1
        simp only [hp]
        cases ok with
        | false => exact .ok ⟨hi2,nofun⟩
        | true =>
          have hreg : Quiet s2 (if pi.ignoreMaxChannelDuration then s2
                else s2.registerL1Block r l1Head) ∧
              SameSubmitted s2 (if pi.ignoreMaxChannelDuration then s2
                else s2.registerL1Block r l1Head) := by
            split
            · exact ⟨.rfl,⟨rfl,fun _ _ => rfl⟩⟩
            · exact registerL1Block_quiet l1Head s2 r
          refine (outputFrames_quiet hE fuel _ r).bind ?_
          rintro ⟨s4,ok⟩ ⟨hq4,hs4⟩
          have hq' := hreg.1.trans hq4
          have hs' : SameSubmitted s2 s4 := by
            refine ⟨hs4.defaultCfg.trans hreg.2.defaultCfg,?_⟩
            intro r' hr'
            rw [hs4.submitted r' (by rw [hreg.1.created]; exact hr'),hreg.2.submitted r' hr']
          have hi4 := hquiet hq' hi2
          split
          · exact .ok ⟨hi4,nofun⟩
          split
          · refine .ok ⟨hi4,?_⟩
            intro r' hr'
            cases hr'
            exact ready_of_adds (hrefs hi) hq hs h1 ha hq' hs'
          · exact .ok ⟨hi4,nofun⟩

theorem getReadyChannel_spec (pi : PubInfo) (hi : I s) :
    Ends (fun p => I p.1 ∧ ∀ r,p.2 = .ok r → Ready s p.1 r) E
      (getReadyChannel outs fuel l1Head pi s) := by
  refine (forceClose_quiet hE fuel pi s).bind ?_
  rintro ⟨s0,ok⟩ ⟨hq,hs⟩
  have hi0 := hquiet hq hi
  simp only
  split
  · exact .ok ⟨hi0,nofun⟩
  split
  · rename_i r hfd
    refine .ok ⟨hi0,?_⟩
    intro r' hr'
    cases hr'
    have hmem := mem_of_find?_eq_some hfd
    refine ⟨hq.blocks,hmem,hs.defaultCfg,?_,?_,.inl hq⟩
    · intro hmem'
      exact hs.submitted r (Nat.ne_of_lt ((hrefs hi).fresh r hmem'))
    intro f hf
    rw [hq.blocksOf_eq] at hf
    rw [hq.channelQueue] at hmem
    exact .inl ⟨hmem,hf⟩
  · split
    · exact .ok ⟨hi0,nofun⟩
    · exact fillChannel_spec hE hrefs hquiet hopens hadds fuel l1Head pi hi hq hs

/-- What every piece of work preserves, `TxData` preserves, if it survives the invalidation of the
channel that is ready. -/
theorem txData_spec (newCfg : ChannelConfig) (pi : PubInfo)
    (hi : I s) (hinv : ∀ s1 r,I s1 → Ready s s1 r → (s1.heap r).noneSubmitted = true →
      newCfg.useBlobs ≠ s.defaultCfg.useBlobs → Ends I E (handleChannelInvalidated r s1)) :
    Ends (fun p => I p.1) E (txData outs fuel l1Head newCfg pi s) := by
  have hnx : ∀ {s0 s1 : ChannelManager ω} {r : Nat},I s1 → Ready s0 s1 r →
      I (s1.nextTxData r).1 := fun h1 hr => hquiet (nextTxData_quiet hr.mem) h1
  refine (getReadyChannel_spec hE hrefs hquiet hopens hadds fuel l1Head pi hi).bind ?_
  rintro ⟨s1,res⟩ ⟨hi1,hrdy⟩
  cases res with
  | error e => exact .ok hi1
  | ok r =>
    have hr := hrdy r rfl
    simp only
    split
    · exact .ok (hnx hi1 hr)
    rename_i hsub
    split
    · exact .ok (hnx hi1 hr)
    rename_i hcfg
    rw [hr.defaultCfg] at hcfg
    refine (hinv s1 r hi1 hr (by simpa using hsub) hcfg).bind ?_
    intro s2 hi2
    have hq : Quiet s2 { s2 with defaultCfg := newCfg } :=
      ⟨rfl,rfl,rfl,rfl,rfl,rfl,rfl,fun _ => .rfl,.inl⟩
    refine (getReadyChannel_spec hE hrefs hquiet hopens hadds fuel l1Head pi
      (hquiet hq hi2)).bind ?_
    rintro ⟨s3,res⟩ ⟨hi3,hrdy3⟩
    cases res with
    | error e => exact .ok hi3
    | ok r => exact .ok (hnx hi3 (hrdy3 r rfl))

end ready

theorem rewindToBlock_spec {block : BlockID} (h : rewindToBlock block s = .ok s') :
    ∃ oldest b idx,s.blocks.head? = some oldest ∧ idx = (block.number - oldest.number).toNat ∧
      s.blocks[idx]? = some b ∧ b.hash = block.hash ∧ idx < s.blockCursor ∧
      s.blockCursor ≤ s.blocks.length ∧
      s' = { s with
        blockCursor := idx
        pendingDABytes :=
          s.pendingDABytes + daBytes ((s.blocks.take s.blockCursor).drop idx) } := by
  unfold rewindToBlock at h
  cases hb : s.blocks with
  | nil => simp [hb] at h
  | cons oldest rest =>
    simp only [hb] at h
    split at h
    · cases h
    rename_i b hidx
    split at h
    · rename_i hcd
      split at h
      · cases h
      rename_i hle
      cases h
      exact ⟨oldest,b,_,rfl,rfl,hidx,hcd.1,hcd.2,Nat.not_lt.mp hle,rfl⟩
    · cases h

theorem Refs.dropChannels (hr : Refs s) (r : Nat) : Refs (s.dropChannels r) := by
  refine ⟨hr.ascending.sublist (take_sublist _ _),?_,?_⟩
  · intro r' h'
    exact hr.fresh r' (mem_of_mem_take h')
  · nofun

theorem Refs.pruneSafeBlocks (hr : Refs s) (h : s.pruneSafeBlocks n = .ok s') : Refs s' := by
  unfold Batcher.ChannelManager.pruneSafeBlocks at h
  split at h
  · cases h
  · cases h
    exact ⟨hr.ascending,hr.fresh,hr.current⟩

theorem Refs.pruneChannels (hr : Refs s) (h : s.pruneChannels n = .ok s') : Refs s' := by
  unfold Batcher.ChannelManager.pruneChannels at h
  split at h
  · cases h
  cases h
  refine ⟨hr.ascending.sublist (drop_sublist _ _),?_,?_⟩
  · intro r' h'
    exact hr.fresh r' (mem_of_mem_drop h')
  intro r' h'
  simp only [Option.filter_eq_some_iff,decide_eq_true_eq] at h'
  obtain ⟨hc,hn⟩ := h'
  have hls := hr.current hc
  have hmem : r' ∈ s.channelQueue.take n ++ s.channelQueue.drop n := by
    rw [take_append_drop]
    exact mem_of_getLast? hls
  rcases mem_append.mp hmem with hm | hm
  · exact absurd hm hn
  rw [← take_append_drop n s.channelQueue,getLast?_append_of_ne_nil _ (ne_nil_of_mem hm)] at hls
  exact hls

inductive Op where
  | addL2Block (block : SizedBlock)
  | txData (fuel : Nat) (l1Head : BlockID) (newCfg : ChannelConfig) (pi : PubInfo)
  | txFailed (id : TxID)
  | txConfirmed (id : TxID) (inclusionBlock : BlockID)
  | syncAndPrune (status : SyncStatus) (prevCurrentL1 : L1BlockRef)
  | pruneSafeBlocks (num : Nat)
  | pruneChannels (num : Nat)
  | clear (l1Origin : BlockID)

def exec (outs : Outs ω) (s : ChannelManager ω) : Op → Except Crash (ChannelManager ω)
  | .addL2Block block => .ok (s.addL2Block block).1
  | .txData fuel l1Head newCfg pi => do
    let (s,_) ← s.txData outs fuel l1Head newCfg pi
    .ok s
  | .txFailed id => s.txFailed id
  | .txConfirmed id inclusionBlock => s.txConfirmed id inclusionBlock
  | .syncAndPrune status prevCurrentL1 => s.syncAndPrune status prevCurrentL1
  | .pruneSafeBlocks num => s.pruneSafeBlocks num
  | .pruneChannels num => s.pruneChannels num
  | .clear l1Origin => .ok (s.clear l1Origin)

def Step (outs : Outs ω) (ok : ChannelManager ω → Op → Prop) (s s' : ChannelManager ω) : Prop :=
  ∃ op,ok s op ∧ exec outs s op = .ok s'

/-- The operation may invalidate the channel: its transactions are too far apart on chain, or the DA
type changes before anything of it was submitted. -/
def Invalidates (s : ChannelManager ω) (r : Nat) : Op → Prop
  | .txConfirmed id inclusionBlock =>
    s.txChannels id = some r ∧ ((s.heap r).txConfirmed id inclusionBlock).2 = true
  | .txData _ _ newCfg _ =>
    newCfg.useBlobs ≠ s.defaultCfg.useBlobs ∧ r ∈ s.channelQueue ∧ (s.heap r).noneSubmitted = true
  | _ => False

def invalidated (s : ChannelManager ω) : Op → List Nat
  | .txConfirmed id inclusionBlock =>
    (s.txChannels id).toList.filter fun r => ((s.heap r).txConfirmed id inclusionBlock).2
  | .txData _ _ newCfg _ =>
    if newCfg.useBlobs = s.defaultCfg.useBlobs then []
    else s.channelQueue.filter fun r => (s.heap r).noneSubmitted
  | _ => []

theorem mem_invalidated {r : Nat} {op : Op} : r ∈ invalidated s op ↔ Invalidates s r op := by
  cases op with
  | txData fuel l1Head newCfg pi =>
    simp only [invalidated,Invalidates]
    split <;> simp [*]
  | _ => simp [invalidated,Invalidates]

theorem run_observe (ok : ChannelManager ω → Op → Prop) {ops : List Op}
    {f : ChannelManager ω → α} {a : α} (hok : ∀ s,∀ op ∈ ops,ok s op)
    (h : (runOps (exec outs) s ops).toOption.map f = some a) :
    ∃ s',Reaches (Step outs ok) s s' ∧ f s' = a :=
  runOps_observe (fun x _ op hop hexec => ⟨op,hok x op hop,hexec⟩) h

/-- A run that checks a condition on the state before each operation. -/
theorem run_guarded (ok : ChannelManager ω → Op → Prop) (check : ChannelManager ω → Op → Prop)
    [∀ s op,Decidable (check s op)] {ops : List Op} {f : ChannelManager ω → α} {a : α}
    (hok : ∀ s,∀ op ∈ ops,check s op → ok s op)
    (h : (runOps (fun s op => if check s op then exec outs s op else .error .rewindToBlock)
      s ops).toOption.map f = some a) : ∃ s',Reaches (Step outs ok) s s' ∧ f s' = a := by
  apply runOps_observe _ h
  intro x y op hop hexec
  split at hexec
  · rename_i hc
    exact ⟨op,hok x op hop hc,hexec⟩
  · cases hexec

end manager

structure ScriptedOut where
  id : Nat
  capacity : Nat
  frames : Nat
  taken : Nat
  out : Nat
  deriving Inhabited

def scriptedOut : ChannelOut ScriptedOut where
  id o := .fill 16 (.ofNat o.id)
  addBlock o _ :=
    if o.taken < o.capacity then ({ o with taken := o.taken + 1 },.ok ⟨1,.fill 32 1,0⟩)
    else (o,.error .other)
  fullErr o := if o.taken = o.capacity then some .compressorFull else none
  readyBytes _ := 0
  close o := (o,none)
  outputFrame _ o :=
    ({ o with out := o.out + 1 },.frame [if o.frames ≤ o.out + 1 then 1 else 0]
      (.ofNat o.out) (o.frames ≤ o.out + 1))
  discardCompressor o := o

def scriptedOuts (capacity frames : Nat → Nat) : Outs ScriptedOut where
  ops := scriptedOut
  outFactory n _ := some ⟨n + 1,capacity n,frames n,0,0⟩

def sampleCfg : ChannelConfig where
  seqWindowSize := 3600
  channelTimeout := 50
  maxChannelDuration := 0
  subSafetyMargin := 10
  maxFrameSize := 120000
  targetNumFrames := 1
  useBlobs := false

def sampleBlock (n : Nat) (daBytes : UInt64) : SizedBlock :=
  ⟨.fill 32 (.ofNat n),.fill 32 (.ofNat (n - 1)),.ofNat n,daBytes⟩

def publish : Op := .txData 100 .zero sampleCfg ⟨false,true⟩

def flush : Op := .txData 100 .zero sampleCfg ⟨true,true⟩

def switchToBlobs : Op :=
  .txData 100 .zero { sampleCfg with useBlobs := true } ⟨false,true⟩

end OpStack.Proofs.ChannelManager
