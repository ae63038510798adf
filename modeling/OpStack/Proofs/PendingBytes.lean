import OpStack.Proofs.ChannelManager

namespace OpStack.Proofs.PendingBytes
open Lib Eth Batcher Batcher.ChannelManager ChannelManager List

variable {ω : Type} {outs : Outs ω} {s s' : ChannelManager ω}

theorem daBytes_append (a b : List SizedBlock) : daBytes (a ++ b) = daBytes a + daBytes b := by
  simp [daBytes]

theorem daBytes_drop {l : List SizedBlock} {k n : Nat} (h : k ≤ n) :
    daBytes (l.drop k) = daBytes ((l.take n).drop k) + daBytes (l.drop n) := by
  rw [← daBytes_append]
  conv_lhs => rw [← take_append_drop n l]
  by_cases hn : n ≤ l.length
  · rw [drop_append_of_le_length (by rw [length_take]; omega)]
  · rw [drop_eq_nil_of_le (Nat.le_of_not_le hn)]
    simp

/-- The metric is the estimate for the blocks that are in no channel yet. -/
structure Accounted (s : ChannelManager ω) : Prop where
  refs : Refs s
  cursor_le : s.blockCursor ≤ s.blocks.length
  bytes : s.pendingDABytes = daBytes (s.blocks.drop s.blockCursor)

theorem Accounted.quiet (h : Quiet s s') (hi : Accounted s) : Accounted s' := by
  refine ⟨hi.refs.quiet h,?_,?_⟩
  · rw [h.blockCursor,h.blocks]
    exact hi.cursor_le
  · rw [h.pendingDABytes,h.blocks,h.blockCursor]
    exact hi.bytes

theorem Accounted.opens (h : Opens s s') (hi : Accounted s) : Accounted s' := by
  refine ⟨hi.refs.opens h,?_,?_⟩
  · rw [h.blockCursor,h.blocks]
    exact hi.cursor_le
  · rw [h.pendingDABytes,h.blocks,h.blockCursor]
    exact hi.bytes

theorem Accounted.adds {r n : Nat} (h : Adds s s' r n) (hi : Accounted s) : Accounted s' := by
  have hle := h.le
  rw [length_drop] at hle
  refine ⟨hi.refs.adds h,?_,?_⟩
  · rw [h.blockCursor,h.blocks]
    have := hi.cursor_le
    omega
  have hsp : s.blocks.drop s.blockCursor =
      (s.blocks.drop s.blockCursor).take n ++ s.blocks.drop (s.blockCursor + n) := by
    rw [← drop_drop,take_append_drop]
  have hby := hi.bytes
  rw [hsp,daBytes_append] at hby
  rw [h.pendingDABytes,h.blocks,h.blockCursor]
  grind

section
variable (hi : Accounted s)
include hi

theorem Accounted.dropChannels (r : Nat) : Accounted (s.dropChannels r) :=
  ⟨hi.refs.dropChannels r,hi.cursor_le,hi.bytes⟩

theorem Accounted.rewindToBlock {block : BlockID}
    (h : s.rewindToBlock block = .ok s') : Accounted s' := by
  obtain ⟨oldest,b,idx,-,-,-,-,hlt,hle,rfl⟩ := rewindToBlock_spec h
  refine ⟨⟨hi.refs.ascending,hi.refs.fresh,hi.refs.current⟩,?_,?_⟩
  · simp only
    omega
  have hsp := daBytes_drop (l := s.blocks) (Nat.le_of_lt hlt)
  have hby := hi.bytes
  grind

theorem handleChannelInvalidated_accounted (r : Nat) :
    Ends Accounted (fun _ => True) (s.handleChannelInvalidated r) := by
  unfold handleChannelInvalidated
  cases hb : (s.heap r).builder.blocks with
  | nil => exact .ok (hi.dropChannels r)
  | cons b rest =>
    simp only
    cases hr : s.rewindToBlock b.id with
    | error e => exact .error trivial
    | ok s1 => exact .ok ((hi.rewindToBlock hr).dropChannels r)

theorem txConfirmed_accounted (id : TxID) (incl : BlockID) :
    Ends Accounted (fun _ => True) (s.txConfirmed id incl) := by
  unfold Batcher.ChannelManager.txConfirmed
  split
  · exact .ok hi
  rename_i r _
  have hi1 := hi.quiet (confirmed_quiet id incl s r)
  simp only
  split
  · exact handleChannelInvalidated_accounted hi1 r
  · exact .ok hi1

theorem addL2Block_accounted (block : SizedBlock) : Accounted (s.addL2Block block).1 := by
  unfold addL2Block
  split
  · exact hi
  refine ⟨⟨hi.refs.ascending,hi.refs.fresh,hi.refs.current⟩,?_,?_⟩
  · have := hi.cursor_le
    simp only [length_append]
    omega
  · simp [drop_append_of_le_length hi.cursor_le,daBytes_append,hi.bytes]

end

theorem clear_accounted (s : ChannelManager ω) (l1Origin : BlockID) :
    Accounted (s.clear l1Origin) := by
  refine ⟨⟨List.Pairwise.nil,?_,?_⟩,Nat.le_refl 0,rfl⟩
  · nofun
  · nofun

/-- Among the discarded blocks, as many from the front as were in no channel are estimated at the
same total as those. -/
def PruneExact (s : ChannelManager ω) (num : Nat) : Prop :=
  daBytes ((s.blocks.take num).take (num - s.blockCursor)) =
    daBytes ((s.blocks.take num).drop s.blockCursor)

theorem pruneSafeBlocks_accounted {num : Nat} (hi : Accounted s) (he : PruneExact s num)
    (h : s.pruneSafeBlocks num = .ok s') : Accounted s' := by
  have hrefs := hi.refs.pruneSafeBlocks h
  unfold pruneSafeBlocks at h
  split at h
  · cases h
  cases h
  refine ⟨hrefs,?_,?_⟩
  · have := hi.cursor_le
    simp only [length_drop]
    omega
  unfold PruneExact at he
  simp only [drop_drop,he,hi.bytes]
  by_cases hn : num ≤ s.blockCursor
  · have hnil : (s.blocks.take num).drop s.blockCursor = [] :=
      drop_eq_nil_of_le (by rw [length_take]; omega)
    rw [hnil,Nat.add_sub_cancel' hn]
    simp [daBytes]
  · have hle := Nat.le_of_not_le hn
    rw [daBytes_drop hle,Nat.sub_eq_zero_of_le hle]
    grind

theorem pruneChannels_accounted {num : Nat} (hi : Accounted s)
    (h : s.pruneChannels num = .ok s') : Accounted s' := by
  have hr := hi.refs.pruneChannels h
  unfold pruneChannels at h
  split at h
  · cases h
  · cases h
    exact ⟨hr,hi.cursor_le,hi.bytes⟩

def Prunes (s : ChannelManager ω) (num : Nat) : Op → Prop
  | .pruneSafeBlocks n => n = num
  | .syncAndPrune status prevCurrentL1 =>
    ∃ actions,computeSyncActions status prevCurrentL1 s.blocks
        (s.channelQueue.map fun r => (s.heap r).status) = some actions ∧
      actions.clearState = none ∧ actions.blocksToPrune = num
  | _ => False

def PrunesExactly (s : ChannelManager ω) (op : Op) : Prop := ∀ num,Prunes s num op → PruneExact s num

theorem syncAndPrune_accounted {status : SyncStatus} {prev : L1BlockRef} (hi : Accounted s)
    (he : PrunesExactly s (.syncAndPrune status prev)) (h : s.syncAndPrune status prev = .ok s') :
    Accounted s' := by
  unfold syncAndPrune at h
  split at h
  · cases h
    exact hi
  rename_i actions ha
  split at h
  · cases h
    exact clear_accounted s _
  rename_i hclr
  obtain ⟨s1,hp,h⟩ := of_bind_ok h
  have hi1 := pruneSafeBlocks_accounted hi (he _ ⟨actions,ha,hclr,rfl⟩) hp
  exact pruneChannels_accounted hi1 h

theorem exec_accounted {op : Op} (hi : Accounted s) (he : PrunesExactly s op)
    (h : exec outs s op = .ok s') : Accounted s' := by
  cases op with
  | addL2Block block =>
    cases h
    exact addL2Block_accounted hi block
  | txData fuel l1Head newCfg pi =>
    have hspec : Ends Accounted (fun _ => True) (exec outs s (.txData fuel l1Head newCfg pi)) := by
      refine (txData_spec trivial Accounted.refs Accounted.quiet Accounted.opens Accounted.adds
        fuel l1Head newCfg pi hi ?_).bind fun p hp => .ok hp
      intro s1 r hi1 _ _ _
      exact handleChannelInvalidated_accounted hi1 r
    exact hspec.of_eq h
  | txFailed id =>
    have hspec : Ends (Quiet s) (fun _ => True) (s.txFailed id) := txFailed_quiet trivial trivial id s
    exact hi.quiet (hspec.of_eq h)
  | txConfirmed id incl => exact (txConfirmed_accounted hi id incl).of_eq h
  | syncAndPrune status prev => exact syncAndPrune_accounted hi he h
  | pruneSafeBlocks num => exact pruneSafeBlocks_accounted hi (he num rfl) h
  | pruneChannels num => exact pruneChannels_accounted hi h
  | clear l1Origin =>
    cases h
    exact clear_accounted s l1Origin

theorem new_accounted [Inhabited ω] (cfg : ChannelConfig) :
    Accounted (newChannelManager cfg : ChannelManager ω) := by
  refine ⟨⟨List.Pairwise.nil,?_,?_⟩,Nat.le_refl 0,rfl⟩
  · nofun
  · nofun

/-- In every run whose prunes are exact, the metric is the estimate for the pending blocks. -/
theorem pending_da_bytes_exact [Inhabited ω] {cfg : ChannelConfig}
    (h : Reaches (Step outs PrunesExactly) (newChannelManager cfg) s) :
    s.pendingDABytes = daBytes (s.blocks.drop s.blockCursor) := by
  refine (h.invariant (P := Accounted) (new_accounted cfg) ?_).bytes
  rintro x y hx ⟨op,he,hex⟩
  exact exec_accounted hx he hex

instance (s : ChannelManager ω) (num : Nat) : Decidable (PruneExact s num) :=
  inferInstanceAs (Decidable (_ = _))

instance (s : ChannelManager ω) (op : Op) : Decidable (PrunesExactly s op) :=
  match op with
  | .pruneSafeBlocks num => decidable_of_iff (PruneExact s num) (by simp [PrunesExactly,Prunes])
  | .syncAndPrune status prev =>
    decidable_of_iff (∀ actions ∈ computeSyncActions status prev s.blocks
      (s.channelQueue.map fun r => (s.heap r).status),
        actions.clearState = none → PruneExact s actions.blocksToPrune) (by
      simp only [PrunesExactly,Prunes,Option.mem_def]
      exact ⟨fun h num ⟨actions,ha,hc,hn⟩ => hn ▸ h actions ha hc,
        fun h actions ha hc => h _ ⟨actions,ha,hc,rfl⟩⟩)
  | .addL2Block _ | .txData .. | .txFailed _ | .txConfirmed .. | .pruneChannels _ | .clear _ =>
    isTrue nofun

/-- Of two pruned blocks with equal estimates the first was in a channel; then the last pending block
is pruned, and another one comes. -/
theorem pending_da_bytes_exact_sample : ∃ s,
    Reaches (Step (scriptedOuts (fun _ => 1) fun _ => 1) PrunesExactly)
      (newChannelManager sampleCfg) s ∧
    s.blocks.length = 1 ∧ s.pendingDABytes = daBytes (s.blocks.drop s.blockCursor) := by
  have hrun : (runOps (fun s op => if PrunesExactly s op then
        exec (scriptedOuts (fun _ => 1) fun _ => 1) s op else .error .rewindToBlock)
      (newChannelManager sampleCfg) [.addL2Block (sampleBlock 1 100),publish,
        .addL2Block (sampleBlock 2 100),.addL2Block (sampleBlock 3 70),.pruneSafeBlocks 2,
        .pruneSafeBlocks 1,.addL2Block (sampleBlock 4 50)]).toOption.map
        (fun s => s.blocks.length) = some 1 := by
    decide +kernel
  obtain ⟨s,hrch,hlen⟩ := run_guarded PrunesExactly PrunesExactly (fun _ _ _ hc => hc) hrun
  exact ⟨s,hrch,hlen,pending_da_bytes_exact hrch⟩

/-- Of two pruned blocks the first was in a channel. The metric loses the estimate for that one in
place of the one for the second. -/
theorem pending_da_bytes_drifts : ∃ s,
    Reaches (Step (scriptedOuts (fun _ => 1) fun _ => 1) fun _ _ => True)
      (newChannelManager sampleCfg) s ∧
    s.blocks = [] ∧ s.pendingDABytes = -30 := by
  have hrun : (runOps (exec (scriptedOuts (fun _ => 1) fun _ => 1)) (newChannelManager sampleCfg)
      [.addL2Block (sampleBlock 1 100),publish,.addL2Block (sampleBlock 2 70),
        .pruneSafeBlocks 2]).toOption.map (fun s => (s.blocks,s.pendingDABytes)) =
      some ([],-30) := by
    decide +kernel
  obtain ⟨s,hrch,hobs⟩ := run_observe (fun _ _ => True) (fun _ _ _ => trivial) hrun
  rw [Prod.mk.injEq] at hobs
  exact ⟨s,hrch,hobs.1,hobs.2⟩

end OpStack.Proofs.PendingBytes
