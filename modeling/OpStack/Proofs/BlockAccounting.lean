import Mathlib.Data.List.TakeWhile
import OpStack.Lib.Lists
import OpStack.Proofs.ChannelManager

namespace OpStack.Proofs.BlockAccounting
open Lib Eth Batcher Batcher.ChannelManager ChannelManager Builder List List.Pairwise UInt64 Nat

abbrev num (b : SizedBlock) : Nat := b.number.toNat

structure L2Source where
  block : SizedBlock → Prop
  hash_inj : ∀ {a b},block a → block b → a.hash = b.hash → a = b
  child : ∀ {a b},block a → block b → b.parentHash = a.hash → num b = num a + 1
  nonzero : ∀ {a},block a → a.hash ≠ .fill 32 0

variable {ω : Type} {outs : Outs ω} {w : L2Source} {s s' : ChannelManager ω} {r : Nat}

def Passed (s : ChannelManager ω) (b : SizedBlock) : Prop := ∀ x ∈ s.blocks,num b < num x

def Live (s : ChannelManager ω) (b : SizedBlock) : Prop :=
  b ∈ queuedBlocks s ∨ ∃ id r,s.txChannels id = some r ∧ b ∈ blocksOf s r

def Tip (w : L2Source) (s : ChannelManager ω) : Prop :=
  (s.tip = .fill 32 0 ∧ s.blocks = [] ∧ ∀ b,¬ Live s b) ∨
  ∃ t,w.block t ∧ s.tip = t.hash ∧ (∀ x,s.blocks.getLast? = some x → x = t) ∧
    ∀ b,Live s b → num b ≤ num t

def Held (s : ChannelManager ω) (r : Nat) : Prop :=
  r ∈ s.channelQueue ∨ ∀ b ∈ blocksOf s r,Passed s b

/-- The three queues together: blocks are consecutive, the blocks in queued channels ascend, and
those that were not pruned lie below the cursor. -/
structure Inv (w : L2Source) (s : ChannelManager ω) : Prop where
  refs : Refs s
  known : ∀ b ∈ s.blocks,w.block b
  heap_known : ∀ r,∀ b ∈ blocksOf s r,w.block b
  latest : ∀ r,LatestOk (s.heap r).builder
  consecutive : Consecutive num s.blocks
  cursor_le : s.blockCursor ≤ s.blocks.length
  tip : Tip w s
  tx : ∀ {id r},s.txChannels id = some r → r < s.created ∧ Held s r
  ascending : (queuedBlocks s).Pairwise fun a b => num a < num b
  placed : ∀ b ∈ queuedBlocks s,Passed s b ∨ b ∈ s.blocks.take s.blockCursor

variable {b : SizedBlock} {status : SyncStatus} {n : Nat}

theorem mem_queuedBlocks (hr : r ∈ s.channelQueue) (hb : b ∈ blocksOf s r) : b ∈ queuedBlocks s :=
  mem_flatMap.mpr ⟨r,hr,hb⟩

section work

theorem Held.quiet (h : Quiet s s') (hr : Held s r) : Held s' r := by
  rcases hr with hr | hr
  · rw [← h.channelQueue] at hr
    exact .inl hr
  right
  intro b hb x hx
  rw [h.blocksOf_eq] at hb
  rw [h.blocks] at hx
  exact hr b hb x hx

/-- Where the queues hold the same blocks as before, what is left to show is about channels. -/
theorem Inv.sameQueues (hi : Inv w s) (hblocks : s'.blocks = s.blocks)
    (hcursor : s'.blockCursor = s.blockCursor) (htip : s'.tip = s.tip)
    (hqueued : queuedBlocks s' = queuedBlocks s) (hlive : ∀ b,Live s' b → Live s b)
    (hrefs : Refs s') (hheap : ∀ r,∀ b ∈ blocksOf s' r,w.block b)
    (hlatest : ∀ r,LatestOk (s'.heap r).builder)
    (htx : ∀ {id r},s'.txChannels id = some r → r < s'.created ∧ Held s' r) : Inv w s' := by
  refine ⟨hrefs,?_,hheap,hlatest,?_,?_,?_,htx,?_,?_⟩
  · rw [hblocks]
    exact hi.known
  · rw [hblocks]
    exact hi.consecutive
  · rw [hblocks,hcursor]
    exact hi.cursor_le
  · rcases hi.tip with ⟨ht,hb,hn⟩ | ⟨t,hk,ht,hl,hle⟩
    · exact .inl ⟨htip.trans ht,hblocks.trans hb,fun b hb => hn b (hlive b hb)⟩
    refine .inr ⟨t,hk,htip.trans ht,?_,fun b hb => hle b (hlive b hb)⟩
    rw [hblocks]
    exact hl
  · rw [hqueued]
    exact hi.ascending
  · intro b hb
    rw [hqueued] at hb
    rw [Passed,hblocks,hcursor]
    exact hi.placed b hb

theorem Inv.quiet (h : Quiet s s') (hi : Inv w s) : Inv w s' := by
  have hlive : ∀ b,Live s' b → Live s b := by
    rintro b (hb | ⟨id,r,hid,hb⟩)
    · rw [h.queuedBlocks_eq] at hb
      exact .inl hb
    rw [h.blocksOf_eq] at hb
    rcases h.txChannels hid with hid | hr
    · exact .inr ⟨id,r,hid,hb⟩
    · exact .inl (mem_queuedBlocks hr hb)
  refine hi.sameQueues h.blocks h.blockCursor h.tip h.queuedBlocks_eq hlive (hi.refs.quiet h) ?_
    (fun r => (h.same r).latestOk (hi.latest r)) ?_
  · rw [h.blocksOf_eq]
    exact hi.heap_known
  intro id r hid
  rw [h.created]
  rcases h.txChannels hid with hid | hr
  · exact ⟨(hi.tx hid).1,(hi.tx hid).2.quiet h⟩
  · exact ⟨hi.refs.fresh r hr,.inl (by rw [h.channelQueue]; exact hr)⟩

theorem blocksOf_opens (h : Opens s s') (hr : r ≠ s.created) : blocksOf s' r = blocksOf s r := by
  rw [blocksOf,h.other r hr,blocksOf]

theorem queuedBlocks_opens (hr : Refs s) (h : Opens s s') : queuedBlocks s' = queuedBlocks s := by
  have hold : s.channelQueue.flatMap (blocksOf s') = s.channelQueue.flatMap (blocksOf s) := by
    refine flatMap_congr fun r hmem => ?_
    exact blocksOf_opens h (Nat.ne_of_lt (hr.fresh r hmem))
  rw [queuedBlocks,h.channelQueue,flatMap_append,hold,flatMap_singleton,h.empty,
    append_nil,queuedBlocks]

theorem Inv.opens (h : Opens s s') (hi : Inv w s) : Inv w s' := by
  have hqd := queuedBlocks_opens hi.refs h
  have htx : ∀ {id r},s'.txChannels id = some r → s.txChannels id = some r ∧ r ≠ s.created := by
    intro id r hid
    rw [h.txChannels] at hid
    exact ⟨hid,Nat.ne_of_lt (hi.tx hid).1⟩
  have hlive : ∀ b,Live s' b → Live s b := by
    rintro b (hb | ⟨id,r,hid,hb⟩)
    · rw [hqd] at hb
      exact .inl hb
    obtain ⟨hid,hne⟩ := htx hid
    rw [blocksOf_opens h hne] at hb
    exact .inr ⟨id,r,hid,hb⟩
  refine hi.sameQueues h.blocks h.blockCursor h.tip hqd hlive (hi.refs.opens h) ?_ ?_ ?_
  · intro r b hb
    by_cases hne : r = s.created
    · simp [hne,h.empty] at hb
    · rw [blocksOf_opens h hne] at hb
      exact hi.heap_known r b hb
  · intro r
    by_cases hne : r = s.created
    · rw [hne]
      exact h.latest
    · rw [h.other r hne]
      exact hi.latest r
  intro id r hid
  obtain ⟨hid,hne⟩ := htx hid
  obtain ⟨hlt,hheld⟩ := hi.tx hid
  refine ⟨by rw [h.created]; exact lt_succ_of_lt hlt,?_⟩
  rcases hheld with hr | hr
  · left
    rw [h.channelQueue]
    exact mem_append_left _ hr
  right
  intro b hb
  rw [blocksOf_opens h hne] at hb
  rw [Passed,h.blocks]
  exact hr b hb

theorem queuedBlocks_adds (hr : Refs s) (h : Adds s s' r n) :
    queuedBlocks s' = queuedBlocks s ++ (s.blocks.drop s.blockCursor).take n := by
  obtain ⟨init,hq⟩ := getLast?_eq_some_iff.mp (hr.current h.current)
  have hinit : init.flatMap (blocksOf s') = init.flatMap (blocksOf s) := by
    refine flatMap_congr fun r' hmem => ?_
    have hasc := hr.ascending
    rw [hq,pairwise_append] at hasc
    have hlt := hasc.2.2 r' hmem r (mem_singleton_self r)
    rw [blocksOf,h.other r' (Nat.ne_of_lt hlt),blocksOf]
  rw [queuedBlocks,queuedBlocks,h.channelQueue,hq,flatMap_append,flatMap_append,hinit,
    flatMap_singleton,flatMap_singleton,h.added,append_assoc]

theorem mem_blocks_of_added {k : Nat} (hb : b ∈ (s.blocks.drop k).take n) : b ∈ s.blocks :=
  mem_of_mem_drop (mem_of_mem_take hb)

theorem Inv.adds (h : Adds s s' r n) (hi : Inv w s) : Inv w s' := by
  have hqd := queuedBlocks_adds hi.refs h
  have hls := mem_of_getLast? (hi.refs.current h.current)
  have hot : ∀ {r'},r' ≠ r → blocksOf s' r' = blocksOf s r' := by
    intro r' hne
    rw [blocksOf,h.other r' hne,blocksOf]
  have hlive : ∀ b,Live s' b → Live s b ∨ b ∈ (s.blocks.drop s.blockCursor).take n := by
    rintro b (hb | ⟨id,r',hid,hb⟩)
    · rw [hqd,mem_append] at hb
      exact hb.imp_left .inl
    rw [h.txChannels] at hid
    by_cases hne : r' = r
    · rw [hne,h.added,mem_append] at hb
      exact hb.imp_left fun hb => .inl (mem_queuedBlocks hls hb)
    · rw [hot hne] at hb
      exact .inl (.inr ⟨id,r',hid,hb⟩)
  refine ⟨hi.refs.adds h,?_,?_,?_,?_,?_,?_,?_,?_,?_⟩
  · rw [h.blocks]
    exact hi.known
  · intro r' b hb
    by_cases hne : r' = r
    · rw [hne,h.added,mem_append] at hb
      rcases hb with hb | hb
      · exact hi.heap_known r b hb
      · exact hi.known b (mem_blocks_of_added hb)
    · rw [hot hne] at hb
      exact hi.heap_known r' b hb
  · intro r'
    by_cases hne : r' = r
    · rw [hne]
      exact h.latest (hi.latest r)
    · rw [h.other r' hne]
      exact hi.latest r'
  · rw [h.blocks]
    exact hi.consecutive
  · have hle := h.le
    have hc := hi.cursor_le
    rw [length_drop] at hle
    rw [h.blocks,h.blockCursor]
    omega
  · rcases hi.tip with ⟨ht,hb,hn⟩ | ⟨t,hk,ht,hl,hle⟩
    · refine .inl ⟨h.tip.trans ht,h.blocks.trans hb,?_⟩
      intro b hlb
      rcases hlive b hlb with hlb | hlb
      · exact hn b hlb
      have hmem := mem_blocks_of_added hlb
      simp [hb] at hmem
    refine .inr ⟨t,hk,h.tip.trans ht,by rw [h.blocks]; exact hl,?_⟩
    intro b hlb
    rcases hlive b hlb with hlb | hlb
    · exact hle b hlb
    have hmem := mem_blocks_of_added hlb
    obtain ⟨x,hx⟩ := Option.isSome_iff_exists.mp (getLast?_isSome.mpr (ne_nil_of_mem hmem))
    have hxt := hl x hx
    rw [hxt] at hx
    exact hi.consecutive.le_getLast hx hmem
  · intro id r' hid
    rw [h.txChannels] at hid
    obtain ⟨hlt,hheld⟩ := hi.tx hid
    refine ⟨by rw [h.created]; exact hlt,?_⟩
    rw [Held,h.channelQueue]
    by_cases hne : r' = r
    · left
      rw [hne]
      exact hls
    rcases hheld with hr | hr
    · exact .inl hr
    right
    intro b hb
    rw [hot hne] at hb
    rw [Passed,h.blocks]
    exact hr b hb
  · rw [hqd,pairwise_append]
    refine ⟨hi.ascending,hi.consecutive.pairwise.sublist
      ((take_sublist _ _).trans (drop_sublist _ _)),?_⟩
    intro a ha b hb
    have hb' := mem_of_mem_take hb
    rcases hi.placed a ha with hp | hp
    · exact hp b (mem_of_mem_drop hb')
    · exact lt_of_mem_take_drop hi.consecutive.pairwise hp hb'
  · intro b hb
    rw [hqd,mem_append] at hb
    rw [Passed,h.blocks,h.blockCursor]
    rcases hb with hb | hb
    · rw [take_add]
      exact (hi.placed b hb).imp_right (mem_append_left _)
    · exact .inr (mem_take_of_mem_drop_take hb)

end work

section operations

theorem addL2Block_inv (hi : Inv w s) (hb : w.block b) : Inv w (s.addL2Block b).1 := by
  unfold addL2Block
  split
  · exact hi
  rename_i hcond
  -- the block follows the tip, which is above all blocks in channels
  have hnx : (∀ y,s.blocks.getLast? = some y → num b = num y + 1) ∧
      ∀ x,Live s x → num x < num b := by
    rcases hi.tip with ⟨-,hbl,hn⟩ | ⟨t,hk,ht,hl,hle⟩
    · refine ⟨?_,fun x hx => absurd hx (hn x)⟩
      intro y hy
      simp [hbl] at hy
    have hcd : b.parentHash = t.hash := by
      by_cases heq : s.tip = b.parentHash
      · rw [← heq,ht]
      · exact absurd ⟨by rw [ht]; exact w.nonzero hk,heq⟩ hcond
    have hnum := w.child hk hb hcd
    refine ⟨?_,?_⟩
    · intro y hy
      rw [hl y hy]
      exact hnum
    intro x hx
    have := hle x hx
    omega
  have hpassed : ∀ x,Live s x → Passed s x → ∀ y ∈ s.blocks ++ [b],num x < num y := by
    intro x hx hp y hy
    rcases mem_append.mp hy with hy | hy
    · exact hp y hy
    · rw [mem_singleton.mp hy]
      exact hnx.2 x hx
  refine ⟨⟨hi.refs.ascending,hi.refs.fresh,hi.refs.current⟩,?_,hi.heap_known,hi.latest,
    hi.consecutive.concat hnx.1,?_,?_,?_,hi.ascending,?_⟩
  · intro x hx
    rcases mem_append.mp hx with hx | hx
    · exact hi.known x hx
    · rw [mem_singleton.mp hx]
      exact hb
  · have := hi.cursor_le
    simp only [length_append]
    omega
  · refine .inr ⟨b,hb,rfl,?_,fun x hx => le_of_lt (hnx.2 x hx)⟩
    intro x hx
    rw [getLast?_append] at hx
    exact (Option.some.inj hx).symm
  · intro id r hid
    obtain ⟨hlt,hheld⟩ := hi.tx hid
    refine ⟨hlt,?_⟩
    exact hheld.imp_right fun hr x hx => hpassed x (.inr ⟨id,r,hid,hx⟩) (hr x hx)
  intro x hx
  rcases hi.placed x hx with hp | hp
  · exact .inl (hpassed x (.inl hx) hp)
  right
  simp only [take_append_of_le_length hi.cursor_le]
  exact hp

theorem clear_inv (hi : Inv w s) (l1Origin : BlockID) : Inv w (s.clear l1Origin) := by
  refine ⟨⟨nil,nofun,nofun⟩,nofun,hi.heap_known,hi.latest,isChain_nil,le_refl 0,
    .inl ⟨rfl,rfl,?_⟩,nofun,nil,nofun⟩
  rintro b (hb | ⟨id,r,hid,-⟩)
  · cases hb
  · cases hid

theorem new_inv [Inhabited ω] (cfg : ChannelConfig) :
    Inv w (newChannelManager cfg : ChannelManager ω) := by
  refine ⟨⟨nil,nofun,nofun⟩,nofun,nofun,fun _ => newChannelBuilder_latestOk default 0 default,
    isChain_nil,le_refl 0,.inl ⟨rfl,rfl,?_⟩,nofun,nil,nofun⟩
  rintro b (hb | ⟨id,r,hid,-⟩)
  · cases hb
  · cases hid

def keptIdx (s : ChannelManager ω) (r : Nat) : Nat := (s.channelQueue.findIdx? (· = r)).getD 0

theorem queuedBlocks_dropChannels (s : ChannelManager ω) (r : Nat) :
    queuedBlocks s = queuedBlocks (s.dropChannels r) ++
      (s.channelQueue.drop (keptIdx s r)).flatMap (blocksOf s) := by
  have hq : queuedBlocks (s.dropChannels r) =
      (s.channelQueue.take (keptIdx s r)).flatMap (blocksOf s) := rfl
  rw [hq,← flatMap_append,take_append_drop,queuedBlocks]

theorem drop_keptIdx (hr : r ∈ s.channelQueue) :
    s.channelQueue.drop (keptIdx s r) = r::s.channelQueue.drop (keptIdx s r + 1) := by
  unfold keptIdx
  cases hf : s.channelQueue.findIdx? (· = r) with
  | none =>
    rw [findIdx?_eq_none_iff] at hf
    have := hf r hr
    simp at this
  | some i =>
    obtain ⟨hlt,heq,-⟩ := findIdx?_eq_some_iff_getElem.mp hf
    rw [Option.getD_some,drop_eq_getElem_cons hlt]
    simp only [decide_eq_true_eq] at heq
    rw [heq]

/-- Dropping channels keeps the invariant, for any cursor below which the blocks of the channels
that stay lie. -/
theorem dropChannels_inv (hi : Inv w s) (hc : s'.blockCursor ≤ s.blocks.length)
    (hs' : s' = { s with blockCursor := s'.blockCursor, pendingDABytes := s'.pendingDABytes })
    (hp : ∀ b ∈ queuedBlocks (s.dropChannels r),Passed s b ∨ b ∈ s.blocks.take s'.blockCursor) :
    Inv w (s'.dropChannels r) := by
  generalize s'.blockCursor = cursor at hc hs' hp
  generalize s'.pendingDABytes = bytes at hs'
  subst hs'
  have hsp := queuedBlocks_dropChannels s r
  have htx : ∀ {id r'},((s.txChannels id).filter
        (· ∉ s.channelQueue.drop (keptIdx s r))) = some r' →
      s.txChannels id = some r' ∧ r' ∉ s.channelQueue.drop (keptIdx s r) := by
    intro id r' h'
    simpa only [Option.filter_eq_some_iff,decide_eq_true_eq] using h'
  have hlive : ∀ b,Live ({ s with blockCursor := cursor, pendingDABytes := bytes }.dropChannels r)
      b → Live s b := by
    rintro b (hb | ⟨id,r',hid,hb⟩)
    · left
      rw [hsp]
      exact mem_append_left _ hb
    · exact .inr ⟨id,r',(htx hid).1,hb⟩
  have hrefs : Refs { s with blockCursor := cursor, pendingDABytes := bytes } :=
    ⟨hi.refs.ascending,hi.refs.fresh,hi.refs.current⟩
  refine ⟨hrefs.dropChannels r,hi.known,hi.heap_known,hi.latest,hi.consecutive,hc,?_,?_,?_,hp⟩
  · rcases hi.tip with ⟨ht,hb,hn⟩ | ⟨t,hk,ht,hl,hle⟩
    · exact .inl ⟨ht,hb,fun b hb => hn b (hlive b hb)⟩
    · exact .inr ⟨t,hk,ht,hl,fun b hb => hle b (hlive b hb)⟩
  · intro id r' hid
    obtain ⟨hid,hnd⟩ := htx hid
    obtain ⟨hlt,hheld⟩ := hi.tx hid
    refine ⟨hlt,?_⟩
    rcases hheld with hm | hm
    · left
      rw [← take_append_drop (keptIdx s r) s.channelQueue] at hm
      rcases mem_append.mp hm with hm | hm
      · exact hm
      · exact absurd hm hnd
    · exact .inr hm
  · have hasc := hi.ascending
    rw [hsp] at hasc
    exact (pairwise_append.mp hasc).1

variable {f : SizedBlock} {actions : SyncActions} {prev : L1BlockRef}

theorem lt_first (hi : Inv w s) (hr : r ∈ s.channelQueue)
    (hf : (blocksOf s r).head? = some f) (hb : b ∈ queuedBlocks (s.dropChannels r)) :
    num b < num f := by
  have hasc := hi.ascending
  rw [queuedBlocks_dropChannels s r,drop_keptIdx hr,pairwise_append] at hasc
  exact hasc.2.2 b hb f (mem_append_left _ (mem_of_head? hf))

/-- A rewind to the first block of a channel that is held: the channel is queued, and the block was
below the cursor. -/
theorem rewind_queued {rest : List SizedBlock} (hi : Inv w s) (hr : Held s r)
    (hb : (s.heap r).builder.blocks = f::rest) (h : s.rewindToBlock f.id = .ok s') :
    r ∈ s.channelQueue ∧ ∃ idx,s.blocks[idx]? = some f ∧ idx < s.blockCursor ∧
      s' = { s with blockCursor := idx, pendingDABytes := s'.pendingDABytes } := by
  obtain ⟨oldest,b,idx,-,-,hidx,hhs,hlt,-,hs'⟩ := rewindToBlock_spec h
  have hf : f ∈ blocksOf s r := by
    rw [blocksOf,hb]
    exact mem_cons_self
  have hbmem := mem_of_getElem? hidx
  have hbf := w.hash_inj (hi.known b hbmem) (hi.heap_known r f hf) hhs
  rw [hbf] at hidx hbmem
  refine ⟨?_,idx,hidx,hlt,by rw [hs']⟩
  -- a channel without a place in the queue has no block left to rewind to
  rcases hr with hr | hr
  · exact hr
  · exact absurd (hr f hf f hbmem) (lt_irrefl _)

theorem handleChannelInvalidated_inv (hi : Inv w s) (hr : Held s r)
    (h : s.handleChannelInvalidated r = .ok s') : Inv w s' := by
  unfold handleChannelInvalidated at h
  cases hb : (s.heap r).builder.blocks with
  | nil =>
    simp only [hb] at h
    cases h
    refine dropChannels_inv hi hi.cursor_le rfl ?_
    intro b hbm
    refine hi.placed b ?_
    rw [queuedBlocks_dropChannels s r]
    exact mem_append_left _ hbm
  | cons f rest =>
    simp only [hb] at h
    obtain ⟨s1,hrw,h⟩ := of_bind_ok h
    cases h
    obtain ⟨hmem,idx,hidx,hlt,hs1⟩ := rewind_queued hi hr hb hrw
    have hf : (blocksOf s r).head? = some f := by rw [blocksOf,hb]; rfl
    have hcur : s1.blockCursor = idx := by rw [hs1]
    have hle := hi.cursor_le
    refine dropChannels_inv hi (by rw [hcur]; omega) (by rw [hcur]; exact hs1) ?_
    intro x hx
    have hxq : x ∈ queuedBlocks s := by
      rw [queuedBlocks_dropChannels s r]
      exact mem_append_left _ hx
    rcases hi.placed x hxq with hp | hp
    · exact .inl hp
    right
    rw [hcur]
    exact mem_take_of_lt hi.consecutive.pairwise hidx (mem_of_mem_take hp) (lt_first hi hmem hf hx)

structure PruneTo (s : ChannelManager ω) (safe n k : Nat) : Prop where
  blocks : ∀ x ∈ s.blocks.drop n,safe < num x
  last : ∀ x,s.blocks[n - 1]? = some x → 0 < n → num x = safe
  channels : ∀ r ∈ s.channelQueue.take k,(s.heap r).builder.latestL2.number.toNat ≤ safe
  all : s.blocks ≠ [] →
    (∀ r ∈ s.channelQueue,(s.heap r).builder.latestL2.number.toNat ≤ safe) →
    s.channelQueue.drop k = []

/-- The state is dropped, or the blocks up to the safe head and the channels that are safe go. -/
theorem computeOnBlocks_cases {oldest newest : SizedBlock} {blocks : List SizedBlock}
    {channels : List ChannelStatus} (hov : status.localSafeL2.number.toNat + 1 < 2 ^ 64) :
    computeOnBlocks status oldest newest blocks channels =
      { clearState := some status.localSafeL2.l1Origin
        blocksToLoad := unsafeBlocksAbove status.localSafeL2.number status } ∨
    ∃ n,num oldest + n = status.localSafeL2.number.toNat + 1 ∧ n ≤ blocks.length ∧
      (0 < n → (blocks[n - 1]?).map SizedBlock.hash = some status.localSafeL2.hash) ∧
      computeOnBlocks status oldest newest blocks channels =
        { blocksToPrune := n
          channelsToPrune := (channels.takeWhile fun ch =>
            ch.latestL2.number ≤ status.localSafeL2.number).length
          blocksToLoad := unsafeBlocksAbove newest.number status } := by
  unfold computeOnBlocks
  simp only
  split
  · exact .inl rfl
  rename_i hge
  split
  · exact .inl rfl
  rename_i hlen
  split
  · exact .inl rfl
  rename_i hhs
  split
  · exact .inl rfl
  have hnx : (status.localSafeL2.number + 1).toNat = status.localSafeL2.number.toNat + 1 :=
    mod_eq_of_lt hov
  have hle := UInt64.not_lt.mp hge
  refine .inr ⟨_,?_,not_lt.mp hlen,fun hpos => not_not.mp fun hne => hhs ⟨hpos,hne⟩,rfl⟩
  rw [UInt64.toNat_sub_of_le _ _ hle,hnx]
  rw [le_iff_toNat_le,hnx] at hle
  exact Nat.add_sub_cancel' hle

theorem mem_take_takeWhile {α β : Type} {p : β → Bool} {f : α → β} {l : List α} {x : α}
    (h : x ∈ l.take ((l.map f).takeWhile p).length) : p (f x) = true := by
  have hmem : f x ∈ (l.map f).take ((l.map f).takeWhile p).length := by
    rw [← map_take]
    exact mem_map_of_mem h
  rw [← prefix_iff_eq_take.mp ( takeWhile_prefix p)] at hmem
  exact mem_takeWhile_imp hmem

theorem computeSyncActions_prune (hi : Inv w s) (hov : status.localSafeL2.number.toNat + 1 < 2 ^ 64)
    (h : computeSyncActions status prev s.blocks
      (s.channelQueue.map fun r => (s.heap r).status) = some actions)
    (hc : actions.clearState = none) :
    PruneTo s status.localSafeL2.number.toNat actions.blocksToPrune actions.channelsToPrune := by
  unfold computeSyncActions at h
  split at h
  · cases h
  split at h
  · cases h
  split at h
  · rename_i hb
    cases h
    refine ⟨?_,?_,?_,fun hne => absurd hb hne⟩
    · intro x hx
      simp [hb] at hx
    · intro x hx
      simp [hb] at hx
    · nofun
  rename_i oldest rest hb
  cases h
  rcases computeOnBlocks_cases hov with ha | ⟨n,hn,-,-,ha⟩
  · rw [ha] at hc
    cases hc
  simp only [ha]
  refine ⟨?_,?_,?_,?_⟩
  · intro x hx
    have hle := hi.consecutive.le_of_mem_drop (by rw [hb]; rfl) hx
    omega
  · intro x hx hpos
    have hnum := hi.consecutive.getElem? (by rw [hb]; rfl) hx
    omega
  · intro r hr
    have hle := mem_take_takeWhile hr
    simp only [decide_eq_true_eq] at hle
    exact hle
  intro _ hall
  rw [takeWhile_eq_self_iff.mpr ?_,length_map,drop_length]
  intro ch hch
  obtain ⟨r,hr,rfl⟩ := mem_map.mp hch
  simp only [decide_eq_true_eq]
  exact hall r hr

theorem prune_inv {safe k : Nat} {s1 : ChannelManager ω} (hi : Inv w s)
    (hprune : PruneTo s safe n k) (h1 : s.pruneSafeBlocks n = .ok s1)
    (h2 : s1.pruneChannels k = .ok s') : Inv w s' := by
  have hrefs := (hi.refs.pruneSafeBlocks h1).pruneChannels h2
  unfold pruneSafeBlocks at h1
  split at h1
  · cases h1
  rename_i hlen
  cases h1
  unfold pruneChannels at h2
  split at h2
  · cases h2
  cases h2
  have hsub : ∀ {x},x ∈ s.blocks.drop n → x ∈ s.blocks := mem_of_mem_drop
  have hqd : (s.channelQueue.drop k).flatMap (blocksOf s) <:+ queuedBlocks s := by
    refine ⟨(s.channelQueue.take k).flatMap (blocksOf s),?_⟩
    rw [← flatMap_append,take_append_drop,queuedBlocks]
  refine ⟨hrefs,fun b hb => hi.known b (hsub hb),hi.heap_known,hi.latest,
    List.IsChain.drop hi.consecutive n,?_,?_,?_,hi.ascending.sublist hqd.sublist,?_⟩
  · have := hi.cursor_le
    simp only [length_drop]
    omega
  · rcases hi.tip with ⟨ht,hb,hn⟩ | ⟨t,hk,ht,hl,hle⟩
    · refine .inl ⟨ht,by simp only [hb,drop_nil],?_⟩
      rintro b (hbm | hbm)
      · exact hn b (.inl (hqd.subset hbm))
      · exact hn b (.inr hbm)
    refine .inr ⟨t,hk,ht,?_,?_⟩
    · intro x hx
      simp only [getLast?_drop] at hx
      split at hx
      · cases hx
      · exact hl x hx
    · rintro b (hbm | hbm)
      · exact hle b (.inl (hqd.subset hbm))
      · exact hle b (.inr hbm)
  · intro id r hid
    obtain ⟨hlt,hheld⟩ := hi.tx hid
    refine ⟨hlt,?_⟩
    rcases hheld with hm | hm
    · rw [← take_append_drop k s.channelQueue] at hm
      rcases mem_append.mp hm with hm | hm
      · -- a pruned channel, with all blocks at or below the safe head
        right
        intro b hb x hx
        have hlat := (hi.latest r).le b hb
        rw [le_iff_toNat_le] at hlat
        have hsf := hprune.channels r hm
        have hx' := hprune.blocks x hx
        simp only [num] at hx' ⊢
        omega
      · exact .inl hm
    · exact .inr fun b hb x hx => hm b hb x (hsub hx)
  · intro b hb
    rcases hi.placed b (hqd.subset hb) with hp | hp
    · exact .inl fun x hx => hp x (hsub hx)
    by_cases hbn : b ∈ s.blocks.take n
    · exact .inl fun x hx => lt_of_mem_take_drop hi.consecutive.pairwise hbn hx
    right
    rw [← take_append_drop n s.blocks] at hp
    by_cases hle : n ≤ s.blockCursor
    · rw [take_append,length_take,min_eq_left (not_lt.mp hlen),mem_append] at hp
      rcases hp with hp | hp
      · exact absurd (mem_of_mem_take hp) hbn
      · exact hp
    · rw [take_append_of_le_length (by rw [length_take]; omega)] at hp
      exact absurd (mem_of_mem_take hp) hbn

theorem syncAndPrune_inv (hi : Inv w s) (hov : status.localSafeL2.number.toNat + 1 < 2 ^ 64)
    (h : s.syncAndPrune status prev = .ok s') : Inv w s' := by
  unfold syncAndPrune at h
  split at h
  · cases h
    exact hi
  rename_i actions ha
  split at h
  · cases h
    exact clear_inv hi _
  rename_i hclr
  obtain ⟨s1,hp,h⟩ := of_bind_ok h
  exact prune_inv hi (computeSyncActions_prune hi hov ha hclr) hp h

end operations

theorem fill_inj {m : Nat} (hm : m < 256) (hn : n < 256)
    (h : FixedBytes.fill 32 (UInt8.ofNat m) = FixedBytes.fill 32 (UInt8.ofNat n)) : m = n := by
  have hb := congrArg (fun f => (f.bytes.headD 0).toNat) h
  simp only [FixedBytes.fill,replicate_succ,headD_cons,UInt8.toNat_ofNat'] at hb
  omega

def sampleL2 : L2Source where
  block b := ∃ n,0 < n ∧ n < 100 ∧ b = sampleBlock n 100
  hash_inj := by
    rintro _ _ ⟨m,-,hm,rfl⟩ ⟨n,-,hn,rfl⟩ h
    have hmn : m = n := fill_inj (by omega) (by omega) h
    rw [hmn]
  child := by
    rintro _ _ ⟨m,-,hm,rfl⟩ ⟨n,hpos,hn,rfl⟩ h
    have hmn : n - 1 = m := fill_inj (by omega) (by omega) h
    simp only [num,sampleBlock,toNat_ofNat']
    omega
  nonzero := by
    rintro _ ⟨n,hpos,hn,rfl⟩ h
    have hz : n = 0 := fill_inj (by omega) (by omega) h
    omega

def sampleStatus (safe : Nat) : SyncStatus where
  headL1 := ⟨.fill 32 1,1,.fill 32 0,1⟩
  currentL1 := .zero
  localSafeL2 := ⟨.fill 32 (.ofNat safe),ofNat safe,.fill 32 0,0,.zero,0⟩
  unsafeL2 := ⟨.fill 32 99,99,.fill 32 0,0,.zero,0⟩

def sampleTx (channel frame : Nat) : TxID :=
  [⟨.fill 16 (.ofNat channel),.ofNat frame⟩]

end OpStack.Proofs.BlockAccounting
