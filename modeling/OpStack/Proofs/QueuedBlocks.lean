import OpStack.Proofs.ChannelInvalidation

namespace OpStack.Proofs.QueuedBlocks
open Lib Eth Batcher Batcher.ChannelManager ChannelManager BlockAccounting ChannelInvalidation
open List

variable {ω : Type} {outs : Outs ω} {w : L2Source} {s s' : ChannelManager ω} {r : Nat}

/-- The queued channels hold blocks that were pruned, then exactly the blocks below the cursor; with
the rest of the queue they are one run up to the tip. -/
def Covers (s : ChannelManager ω) : Prop :=
  ∃ pruned,queuedBlocks s = pruned ++ s.blocks.take s.blockCursor ∧
    Consecutive num (pruned ++ s.blocks) ∧
    ∀ x,(pruned ++ s.blocks).getLast? = some x → s.tip = x.hash

/-- An invalidated channel without blocks takes no blocks of other channels with it. -/
def KeepsBlocks (s : ChannelManager ω) (op : Op) : Prop :=
  ∀ r,Invalidates s r op → blocksOf s r = [] →
    ∀ r' ∈ s.channelQueue.drop (keptIdx s r),blocksOf s r' = []

instance (s : ChannelManager ω) (op : Op) : Decidable (KeepsBlocks s op) :=
  decidable_of_iff (∀ r ∈ invalidated s op,blocksOf s r = [] →
    ∀ r' ∈ s.channelQueue.drop (keptIdx s r),blocksOf s r' = [])
    (by simp only [mem_invalidated,KeepsBlocks])

/-- The blocks of the queued channels are a run that leads up to the cursor. -/
structure NoBlockLost (s : ChannelManager ω) : Prop where
  covered : ∀ b ∈ s.blocks.take s.blockCursor,∃! r,r ∈ s.channelQueue ∧ b ∈ blocksOf s r
  upToCursor : s.blocks.take s.blockCursor <:+ queuedBlocks s
  contiguous : Consecutive num (queuedBlocks s ++ s.blocks.drop s.blockCursor)

section work

variable {pruned : List SizedBlock} {n safe : Nat}

theorem Covers.quiet (h : Quiet s s') (hc : Covers s) : Covers s' := by
  obtain ⟨pruned,hq,hcs,ht⟩ := hc
  refine ⟨pruned,?_,?_,?_⟩
  · rw [h.queuedBlocks_eq,h.blocks,h.blockCursor]
    exact hq
  · rw [h.blocks]
    exact hcs
  · rw [h.blocks,h.tip]
    exact ht

theorem Covers.opens (hr : Refs s) (h : Opens s s') (hc : Covers s) : Covers s' := by
  obtain ⟨pruned,hq,hcs,ht⟩ := hc
  refine ⟨pruned,?_,?_,?_⟩
  · rw [queuedBlocks_opens hr h,h.blocks,h.blockCursor]
    exact hq
  · rw [h.blocks]
    exact hcs
  · rw [h.blocks,h.tip]
    exact ht

theorem Covers.adds (hr : Refs s) (h : Adds s s' r n) (hc : Covers s) : Covers s' := by
  obtain ⟨pruned,hq,hcs,ht⟩ := hc
  refine ⟨pruned,?_,?_,?_⟩
  · rw [queuedBlocks_adds hr h,h.blocks,h.blockCursor,hq,append_assoc,take_add]
  · rw [h.blocks]
    exact hcs
  · rw [h.blocks,h.tip]
    exact ht

theorem known_run {x : SizedBlock} (hi : Inv w s)
    (hq : queuedBlocks s = pruned ++ s.blocks.take s.blockCursor)
    (hx : x ∈ pruned ++ s.blocks) : w.block x := by
  rcases mem_append.mp hx with hx | hx
  · have hmem : x ∈ queuedBlocks s := by
      rw [hq]
      exact mem_append_left _ hx
    obtain ⟨r,-,hb⟩ := mem_flatMap.mp hmem
    exact hi.heap_known r x hb
  · exact hi.known x hx

theorem addL2Block_covers {b : SizedBlock} (hi : Inv w s) (hb : w.block b) (hc : Covers s) :
    Covers (s.addL2Block b).1 := by
  unfold addL2Block
  split
  · exact hc
  rename_i hcd
  obtain ⟨pruned,hq,hcs,ht⟩ := hc
  refine ⟨pruned,?_,?_,?_⟩
  · simp only [take_append_of_le_length hi.cursor_le]
    exact hq
  · simp only [← append_assoc]
    refine hcs.concat ?_
    intro y hy
    have hk := known_run hi hq (mem_of_getLast? hy)
    have hpar : b.parentHash = y.hash := by
      by_contra hne
      refine hcd ⟨?_,?_⟩
      · rw [ht y hy]
        exact w.nonzero hk
      · rw [ht y hy]
        exact fun heq => hne heq.symm
    exact w.child hk hb hpar
  · intro x hx
    simp only [← append_assoc,getLast?_concat,Option.some.injEq] at hx
    rw [hx]

theorem covers_of_empty (hb : s.blocks = []) (hq : s.channelQueue = []) : Covers s := by
  refine ⟨[],?_,?_,?_⟩
  · simp [queuedBlocks,hq,hb]
  · rw [hb]
    exact isChain_nil
  intro x hx
  simp [hb] at hx

end work

section invalidation

/-- Invalidating a channel gives up its blocks and those of the later channels, and the cursor goes
back to the first of them. -/
theorem handleChannelInvalidated_covers (hi : Inv w s) (hc : Covers s) (hr : Held s r)
    (hk : blocksOf s r = [] → ∀ r' ∈ s.channelQueue.drop (keptIdx s r),blocksOf s r' = [])
    (h : s.handleChannelInvalidated r = .ok s') : Covers s' := by
  obtain ⟨pruned,hq,hcs,ht⟩ := hc
  have hsp := queuedBlocks_dropChannels s r
  unfold handleChannelInvalidated at h
  cases hb : (s.heap r).builder.blocks with
  | nil =>
    simp only [hb] at h
    cases h
    have hno := flatMap_eq_nil_iff.mpr (hk hb)
    rw [hno,append_nil] at hsp
    exact ⟨pruned,by rw [← hsp]; exact hq,hcs,ht⟩
  | cons f rest =>
    simp only [hb] at h
    obtain ⟨s1,hrw,h⟩ := of_bind_ok h
    cases h
    obtain ⟨hmem,idx,hidx,hlt,hs1⟩ := rewind_queued hi hr hb hrw
    have hdr : ∃ tail,(s.channelQueue.drop (keptIdx s r)).flatMap (blocksOf s) = f::tail := by
      rw [drop_keptIdx hmem,flatMap_cons,blocksOf,hb]
      exact ⟨_,rfl⟩
    obtain ⟨tail,htl⟩ := hdr
    obtain ⟨tail',htl'⟩ := take_eq_append_cons hidx hlt
    -- the block occurs once, so what is before it in both ways to split the queue is the same
    have hasc := hi.ascending
    rw [hsp,htl] at hq hasc
    rw [htl',← append_assoc] at hq
    have hkp := append_cons_inj hasc hq
    refine ⟨pruned,?_,?_,?_⟩
    · rw [hs1]
      exact hkp
    · rw [hs1]
      exact hcs
    · rw [hs1]
      exact ht

end invalidation

section pruning

/-- Blocks below the cursor that are in pruned channels are pruned too: past the first `n` blocks the
split into pruned and queued channels does not matter. -/
theorem pruned_prefix {gone queued : List SizedBlock}
    (hq : gone ++ queued = pruned ++ s.blocks.take s.blockCursor) (hn : n ≤ s.blockCursor)
    (hgone : ∀ b ∈ gone,num b ≤ safe) (hrest : ∀ x ∈ s.blocks.drop n,safe < num x) :
    ∃ kept,pruned ++ s.blocks.take n = gone ++ kept ∧
      queued = kept ++ (s.blocks.drop n).take (s.blockCursor - n) := by
  have htake : s.blocks.take s.blockCursor =
      s.blocks.take n ++ (s.blocks.drop n).take (s.blockCursor - n) := by
    rw [← take_add,Nat.add_sub_cancel' hn]
  rw [htake,← append_assoc] at hq
  rcases append_eq_append_iff.mp hq with ⟨kept,hk,hrun⟩ | ⟨extra,hextra,hrun⟩
  · exact ⟨kept,hk,hrun⟩
  cases extra with
  | nil =>
    refine ⟨[],?_,?_⟩
    · rw [hextra,append_nil,append_nil]
    · simp [hrun]
  | cons x tail =>
    have hle := hgone x (by rw [hextra]; simp)
    have hmem : x ∈ s.blocks.drop n := by
      refine mem_of_mem_take (i := s.blockCursor - n) ?_
      rw [hrun]
      exact mem_cons_self
    have hlt := hrest x hmem
    omega

theorem all_pruned {k : Nat} (hi : Inv w s)
    (hprune : PruneTo s safe n k) (hlen : n ≤ s.blocks.length) (hn : s.blockCursor < n)
    (hq : queuedBlocks s = pruned ++ s.blocks.take s.blockCursor)
    (hcons : Consecutive num (pruned ++ s.blocks)) : s.channelQueue.drop k = [] := by
  have hls : n - 1 < s.blocks.length := by omega
  have hsf := hprune.last _ (getElem?_eq_getElem hls) (by omega)
  refine hprune.all (fun hnil => by simp [hnil] at hls) ?_
  intro r hr
  rcases (hi.latest r).mem with hz | ⟨b,hb,heq⟩
  · rw [hz]
    exact Nat.zero_le safe
  rw [← heq]
  have hmem : b ∈ pruned ++ s.blocks.take s.blockCursor := by
    rw [← hq]
    exact mem_queuedBlocks hr hb
  have hasc := hcons.pairwise
  rw [← take_append_drop s.blockCursor s.blocks,← append_assoc] at hasc
  have hlt := (pairwise_append.mp hasc).2.2 b hmem _
    (mem_drop_getElem hls (Nat.le_sub_one_of_lt hn))
  simp only [num] at hlt hsf
  omega

theorem prune_covers {k : Nat} {s1 : ChannelManager ω} (hi : Inv w s) (hc : Covers s)
    (hprune : PruneTo s safe n k) (h1 : s.pruneSafeBlocks n = .ok s1)
    (h2 : s1.pruneChannels k = .ok s') : Covers s' := by
  obtain ⟨pruned,hq,hcs,ht⟩ := hc
  unfold pruneSafeBlocks at h1
  split at h1
  · cases h1
  rename_i hlen
  cases h1
  unfold pruneChannels at h2
  split at h2
  · cases h2
  cases h2
  have hsp : (s.channelQueue.take k).flatMap (blocksOf s) ++
      (s.channelQueue.drop k).flatMap (blocksOf s) =
      pruned ++ s.blocks.take s.blockCursor := by
    rw [← flatMap_append,take_append_drop]
    exact hq
  rcases Nat.lt_or_ge s.blockCursor n with hn | hn
  · have hno := all_pruned hi hprune (Nat.not_lt.mp hlen) hn hq hcs
    refine ⟨[],?_,?_,?_⟩
    · simp [queuedBlocks,hno,Nat.sub_eq_zero_of_le (Nat.le_of_lt hn)]
    · exact List.IsChain.drop (List.IsChain.right_of_append hcs) n
    intro x hx
    simp only [nil_append,getLast?_drop] at hx
    split at hx
    · cases hx
    · exact ht x (by rw [getLast?_append,hx]; rfl)
  have hgone : ∀ b ∈ (s.channelQueue.take k).flatMap (blocksOf s),num b ≤ safe := by
    intro b hb
    obtain ⟨r,hr,hbr⟩ := mem_flatMap.mp hb
    have hle := (hi.latest r).le b hbr
    exact Nat.le_trans hle (hprune.channels r hr)
  obtain ⟨kept,hkp,hqd⟩ := pruned_prefix hsp hn hgone hprune.blocks
  have hrun : pruned ++ s.blocks =
      (s.channelQueue.take k).flatMap (blocksOf s) ++ (kept ++ s.blocks.drop n) := by
    rw [← append_assoc,← hkp,append_assoc,take_append_drop]
  rw [hrun] at hcs ht
  refine ⟨kept,hqd,List.IsChain.right_of_append hcs,?_⟩
  intro x hx
  exact ht x (by rw [getLast?_append,hx]; rfl)

theorem syncAndPrune_covers {status : SyncStatus} {prev : L1BlockRef} (hi : Inv w s)
    (hc : Covers s) (hov : status.localSafeL2.number.toNat + 1 < 2 ^ 64)
    (h : s.syncAndPrune status prev = .ok s') : Covers s' := by
  unfold syncAndPrune at h
  split at h
  · cases h
    exact hc
  rename_i actions ha
  split at h
  · cases h
    exact covers_of_empty rfl rfl
  rename_i hclr
  obtain ⟨s1,hp,h⟩ := of_bind_ok h
  exact prune_covers hi hc (computeSyncActions_prune hi hov ha hclr) hp h

end pruning

def Good (w : L2Source) (s : ChannelManager ω) : Prop := Inv w s ∧ Covers s

theorem handleChannelInvalidated_good (hg : Good w s) (hr : Held s r)
    (hk : blocksOf s r = [] → ∀ r' ∈ s.channelQueue.drop (keptIdx s r),blocksOf s r' = []) :
    Ends (Good w) (fun _ => True) (s.handleChannelInvalidated r) := by
  cases h : s.handleChannelInvalidated r with
  | ok s' =>
    exact ⟨handleChannelInvalidated_inv hg.1 hr h,handleChannelInvalidated_covers hg.1 hg.2 hr hk h⟩
  | error e => trivial

theorem Good.quiet (h : Quiet s s') (hg : Good w s) : Good w s' :=
  ⟨hg.1.quiet h,hg.2.quiet h⟩

theorem drop_last (hr : Refs s) (hl : s.channelQueue.getLast? = some r) :
    s.channelQueue.drop (keptIdx s r) = [r] := by
  have hmem := mem_of_getLast? hl
  have hdr := drop_keptIdx hmem
  have hsub := (hr.ascending.sublist (drop_sublist (keptIdx s r) s.channelQueue))
  have hls : (s.channelQueue.drop (keptIdx s r)).getLast? = some r := by
    rw [getLast?_drop,if_neg ?_]
    · exact hl
    intro hle
    simp [drop_eq_nil_of_le hle] at hdr
  rw [hdr] at hsub hls ⊢
  rw [pairwise_cons] at hsub
  cases htl : s.channelQueue.drop (keptIdx s r + 1) with
  | nil => rfl
  | cons r' rest =>
    rw [htl] at hls
    rw [htl] at hsub
    exact absurd (hsub.1 r (mem_of_getLast? hls)) (Nat.lt_irrefl r)

theorem txConfirmed_good {id : TxID} {incl : BlockID} (hg : Good w s)
    (hk : KeepsBlocks s (.txConfirmed id incl)) :
    Ends (Good w) (fun _ => True) (s.txConfirmed id incl) := by
  unfold Batcher.ChannelManager.txConfirmed
  split
  · exact .ok hg
  rename_i r hr
  have hq := confirmed_quiet id incl s r
  simp only
  split
  · rename_i htd
    refine handleChannelInvalidated_good (hg.quiet hq) ((hg.1.tx hr).2.quiet hq) ?_
    rw [hq.blocksOf_eq,keptIdx]
    exact hk r ⟨hr,htd⟩
  · exact .ok (hg.quiet hq)

theorem txData_good {fuel : Nat} {l1Head : BlockID} {newCfg : ChannelConfig} {pi : PubInfo}
    (hg : Good w s) (hk : KeepsBlocks s (.txData fuel l1Head newCfg pi)) :
    Ends (Good w) (fun _ => True) (exec outs s (.txData fuel l1Head newCfg pi)) := by
  have hop : ∀ {s s' : ChannelManager ω},Opens s s' → Good w s → Good w s' :=
    fun h hg => ⟨hg.1.opens h,hg.2.opens hg.1.refs h⟩
  have hadds : ∀ {s s' : ChannelManager ω} {r n : Nat},Adds s s' r n → Good w s → Good w s' :=
    fun h hg => ⟨hg.1.adds h,hg.2.adds hg.1.refs h⟩
  refine (txData_spec trivial (fun hg => hg.1.refs) Good.quiet hop hadds fuel l1Head newCfg pi
    hg ?_).bind fun p hp => .ok hp
  intro s1 r hg1 hrdy hsub hcfg
  refine handleChannelInvalidated_good hg1 (.inl hrdy.mem) ?_
  intro hemp
  rcases hrdy.place with hq | hls
  · have hmem : r ∈ s.channelQueue := by
      rw [← hq.channelQueue]
      exact hrdy.mem
    rw [hq.blocksOf_eq] at hemp
    rw [hq.blocksOf_eq,keptIdx,hq.channelQueue]
    exact hk r ⟨hcfg,hmem,by rw [← hrdy.submitted hmem]; exact hsub⟩ hemp
  · rw [drop_last hg1.1.refs hls]
    intro r' hr'
    rw [mem_singleton.mp hr']
    exact hemp

theorem exec_good {op : Op} (hg : Good w s) (hd : Driven w op) (hk : KeepsBlocks s op) :
    Ends (Good w) (fun _ => True) (exec outs s op) := by
  cases op with
  | addL2Block block => exact .ok ⟨addL2Block_inv hg.1 hd,addL2Block_covers hg.1 hd hg.2⟩
  | txData fuel l1Head newCfg pi => exact txData_good hg hk
  | txFailed id => exact (txFailed_quiet trivial trivial id s).mono fun s' hq => hg.quiet hq
  | txConfirmed id incl => exact txConfirmed_good hg hk
  | syncAndPrune status prev =>
    cases h : s.syncAndPrune status prev with
    | ok s' =>
      simp only [exec,h]
      exact ⟨syncAndPrune_inv hg.1 hd h,syncAndPrune_covers hg.1 hg.2 hd h⟩
    | error e =>
      simp only [exec,h]
      trivial
  | pruneSafeBlocks n => exact hd.elim
  | pruneChannels n => exact hd.elim
  | clear l1Origin => exact .ok ⟨clear_inv hg.1 l1Origin,covers_of_empty rfl rfl⟩

theorem channel_unique {r' : Nat} {b : SizedBlock} (hi : Inv w s) (hr : r ∈ s.channelQueue)
    (hr' : r' ∈ s.channelQueue) (hb : b ∈ blocksOf s r) (hb' : b ∈ blocksOf s r') : r = r' := by
  have hasc := (pairwise_flatMap.mp hi.ascending).2
  by_contra hne
  obtain ⟨i,hi,rfl⟩ := mem_iff_getElem.mp hr
  obtain ⟨j,hj,rfl⟩ := mem_iff_getElem.mp hr'
  rw [pairwise_iff_getElem] at hasc
  rcases Nat.lt_trichotomy i j with hij | hij | hij
  · exact Nat.lt_irrefl _ (hasc i j hi hj hij b hb b hb')
  · subst hij
    exact hne rfl
  · exact Nat.lt_irrefl _ (hasc j i hj hi hij b hb' b hb)

theorem Good.noBlockLost (hg : Good w s) : NoBlockLost s := by
  obtain ⟨pruned,hq,hcs,-⟩ := hg.2
  refine ⟨?_,⟨pruned,hq.symm⟩,?_⟩
  · intro b hb
    have hmem : b ∈ queuedBlocks s := by
      rw [hq]
      exact mem_append_right _ hb
    obtain ⟨r,hr,hbr⟩ := mem_flatMap.mp hmem
    exact ⟨r,⟨hr,hbr⟩,fun r' h' => channel_unique hg.1 h'.1 hr h'.2 hbr⟩
  · rw [hq,append_assoc,take_append_drop]
    exact hcs

/-- In every run in which an invalidated channel without blocks takes no other blocks with it, the
queued channels hold all blocks below the cursor. -/
theorem no_block_lost [Inhabited ω] {cfg : ChannelConfig}
    (h : Reaches (Step outs fun s op => Driven w op ∧ KeepsBlocks s op)
      (newChannelManager cfg) s) : NoBlockLost s := by
  have hg : Good w s := by
    refine h.invariant ⟨new_inv cfg,covers_of_empty rfl rfl⟩ ?_
    rintro x y hx ⟨op,⟨hd,hk⟩,hex⟩
    exact (exec_good hx hd hk).of_eq hex
  exact hg.noBlockLost

/-- Each of two blocks is in a channel of its own when the first channel times out; both are built
again. -/
def rebuilds : List Op :=
  [.addL2Block (sampleBlock 1 100),.addL2Block (sampleBlock 2 100),publish,publish,publish,
    .txConfirmed (sampleTx 1 0) ⟨.fill 32 1,100⟩,.txConfirmed (sampleTx 1 1) ⟨.fill 32 1,150⟩,
    publish,publish,publish]

theorem rebuilds_driven : ∀ op ∈ rebuilds,Driven sampleL2 op := by
  simp [rebuilds,Driven,publish,sampleBlock_mem]

theorem no_block_lost_sample : ∃ s,Reaches (Step (scriptedOuts (fun _ => 1) fun _ => 2) fun s op =>
      Driven sampleL2 op ∧ KeepsBlocks s op) (newChannelManager sampleCfg) s ∧
    s.blockCursor = 2 ∧ s.channelQueue = [2,3] ∧ NoBlockLost s := by
  have hrun : (runOps (fun s op => if KeepsBlocks s op then
        exec (scriptedOuts (fun _ => 1) fun _ => 2) s op else .error .rewindToBlock)
      (newChannelManager sampleCfg) rebuilds).toOption.map
        (fun s => (s.blockCursor,s.channelQueue)) = some (2,[2,3]) := by
    decide +kernel
  obtain ⟨s,hrch,hobs⟩ := run_guarded (fun s op => Driven sampleL2 op ∧ KeepsBlocks s op)
    KeepsBlocks (fun _ op hop hk => ⟨rebuilds_driven op hop,hk⟩) hrun
  rw [Prod.mk.injEq] at hobs
  exact ⟨s,hrch,hobs.1,hobs.2,no_block_lost hrch⟩

/-- Block 1 cannot be added, and its channel is closed without blocks. Block 1 becomes safe by other
means, and blocks 2 and 3 are in the next channel when the first one times out. -/
theorem block_lost : ∃ s,
    Reaches (Step (scriptedOuts (fun n => 2 * n) fun _ => 2) fun _ op => Driven sampleL2 op)
      (newChannelManager sampleCfg) s ∧
    s.blocks.length = 2 ∧ s.blockCursor = 2 ∧ s.channelQueue = [] ∧ ¬ NoBlockLost s := by
  have hrun : (runOps (exec (scriptedOuts (fun n => 2 * n) fun _ => 2)) (newChannelManager sampleCfg)
      [.addL2Block (sampleBlock 1 100),publish,flush,publish,
        .txConfirmed (sampleTx 1 0) ⟨.fill 32 1,100⟩,
        .syncAndPrune (sampleStatus 1) .zero,
        .addL2Block (sampleBlock 2 100),.addL2Block (sampleBlock 3 100),publish,
        .txConfirmed (sampleTx 1 1) ⟨.fill 32 1,150⟩]).toOption.map
        (fun s => (s.blocks.length,s.blockCursor,s.channelQueue)) = some (2,2,[]) := by
    decide +kernel
  obtain ⟨s,hrch,hobs⟩ := run_observe (fun _ op => Driven sampleL2 op)
    (by simp [Driven,publish,flush,sampleBlock_mem,sampleStatus]) hrun
  simp only [Prod.mk.injEq] at hobs
  obtain ⟨hlen,hcur,hqu⟩ := hobs
  refine ⟨s,hrch,hlen,hcur,hqu,?_⟩
  intro hno
  have hsub := hno.upToCursor.length_le
  simp [queuedBlocks,hqu,hlen,hcur] at hsub

theorem exec_inv {op : Op} (hi : Inv w s) (hd : Driven w op) :
    Ends (Inv w) (fun _ => True) (exec outs s op) := by
  cases op with
  | addL2Block block => exact .ok (addL2Block_inv hi hd)
  | txData fuel l1Head newCfg pi =>
    refine (txData_spec trivial Inv.refs Inv.quiet Inv.opens Inv.adds fuel l1Head newCfg pi hi
      ?_).bind fun p hp => .ok hp
    intro s1 r hi1 hrdy _ _
    exact .of_forall fun s' => handleChannelInvalidated_inv hi1 (.inl hrdy.mem)
  | txFailed id => exact (txFailed_quiet trivial trivial id s).mono fun s' hq => hi.quiet hq
  | txConfirmed id incl =>
    rw [exec,Batcher.ChannelManager.txConfirmed]
    split
    · exact .ok hi
    rename_i r hr
    have hq := confirmed_quiet id incl s r
    simp only
    split
    · exact .of_forall fun s' => handleChannelInvalidated_inv (hi.quiet hq) ((hi.tx hr).2.quiet hq)
    · exact .ok (hi.quiet hq)
  | syncAndPrune status prev => exact .of_forall fun s' => syncAndPrune_inv hi hd
  | pruneSafeBlocks n => exact hd.elim
  | pruneChannels n => exact hd.elim
  | clear l1Origin => exact .ok (clear_inv hi l1Origin)

/-- In every run, also where blocks are lost, no block is queued twice or out of order, and the
blocks past the cursor are in no channel. -/
theorem queued_once [Inhabited ω] {cfg : ChannelConfig}
    (h : Reaches (Step outs fun _ op => Driven w op) (newChannelManager cfg) s) :
    Consecutive num s.blocks ∧ s.blockCursor ≤ s.blocks.length ∧
      ((queuedBlocks s).Pairwise fun a b => num a < num b) ∧
      ∀ b ∈ queuedBlocks s,Passed s b ∨ b ∈ s.blocks.take s.blockCursor := by
  have hi : Inv w s := by
    refine h.invariant (new_inv cfg) ?_
    rintro x y hx ⟨op,hd,hex⟩
    exact (exec_inv hx hd).of_eq hex
  exact ⟨hi.consecutive,hi.cursor_le,hi.ascending,hi.placed⟩

theorem queued_once_sample : ∃ s : ChannelManager ScriptedOut,
    s.channelQueue = [2,3] ∧ queuedBlocks s = [sampleBlock 1 100,sampleBlock 2 100] ∧
      s.blockCursor = 2 ∧ s.blockCursor ≤ s.blocks.length ∧
      ((queuedBlocks s).Pairwise fun a b => num a < num b) ∧
      ∀ b ∈ queuedBlocks s,Passed s b ∨ b ∈ s.blocks.take s.blockCursor := by
  have hrun : (runOps (exec (scriptedOuts (fun _ => 1) fun _ => 2)) (newChannelManager sampleCfg)
      rebuilds).toOption.map (fun s => (s.channelQueue,queuedBlocks s,s.blockCursor)) =
        some ([2,3],[sampleBlock 1 100,sampleBlock 2 100],2) := by
    decide +kernel
  obtain ⟨s,hrch,hobs⟩ := run_observe (fun _ op => Driven sampleL2 op)
    (fun _ op hop => rebuilds_driven op hop) hrun
  simp only [Prod.mk.injEq] at hobs
  exact ⟨s,hobs.1,hobs.2.1,hobs.2.2,(queued_once hrch).2⟩

end OpStack.Proofs.QueuedBlocks
