import OpStack.Proofs.BlockAccounting

namespace OpStack.Proofs.ChannelInvalidation
open Lib Eth Batcher Batcher.ChannelManager ChannelManager BlockAccounting List UInt64

variable {ω : Type} {outs : Outs ω} {w : L2Source} {s s' : ChannelManager ω} {r : Nat}

/-- The operations as the batcher makes them: blocks come from the L2 node, and prunes from a sync
status with a block number that has a successor. -/
def Driven (w : L2Source) : Op → Prop
  | .addL2Block block => w.block block
  | .syncAndPrune status _ => status.localSafeL2.number.toNat + 1 < 2 ^ 64
  | .pruneSafeBlocks _ => False
  | .pruneChannels _ => False
  | _ => True

/-- A channel that is invalidated has not lost its first block to pruning: the oldest block in the
queue is not newer. -/
def KeepsFirstBlocks (s : ChannelManager ω) (op : Op) : Prop :=
  ∀ r f,Invalidates s r op → (blocksOf s r).head? = some f →
    ∃ oldest,s.blocks.head? = some oldest ∧ oldest.number ≤ f.number

instance (s : ChannelManager ω) (op : Op) : Decidable (KeepsFirstBlocks s op) :=
  decidable_of_iff (∀ r ∈ invalidated s op,∀ f ∈ (blocksOf s r).head?,
    ∃ oldest ∈ s.blocks.head?,oldest.number ≤ f.number)
    (by simp only [mem_invalidated,Option.mem_def,KeepsFirstBlocks]; grind)

variable {f : SizedBlock} {op : Op}

section
variable (hi : Inv w s)
include hi

theorem rewindToBlock_ok
    (hf : f ∈ s.blocks.take s.blockCursor) : ∃ s',s.rewindToBlock f.id = .ok s' := by
  obtain ⟨j,hj⟩ := mem_iff_getElem?.mp hf
  rw [getElem?_take] at hj
  split at hj
  · rename_i hlt
    cases hb : s.blocks with
    | nil => simp [hb] at hj
    | cons oldest rest =>
      have hnum := hi.consecutive.getElem? (by rw [hb]; rfl) hj
      have hle : oldest.number ≤ f.number := by
        rw [le_iff_toNat_le]
        simp only [num] at hnum
        omega
      have hidx : (f.id.number - oldest.number).toNat = j := by
        rw [SizedBlock.id,UInt64.toNat_sub_of_le _ _ hle]
        simp only [num] at hnum
        omega
      unfold rewindToBlock
      rw [hb] at hj
      simp only [hb,hidx,hj]
      have hcur := hi.cursor_le
      rw [hb] at hcur
      rw [if_pos ⟨rfl,hlt⟩,if_neg (Nat.not_lt.mpr hcur)]
      exact ⟨_,rfl⟩
  · cases hj

theorem handleChannelInvalidated_safe (hr : Held s r)
    (hf : ∀ f,(blocksOf s r).head? = some f → f ∈ s.blocks.take s.blockCursor) :
    Ends (Inv w) (· ≠ .rewindToBlock) (s.handleChannelInvalidated r) := by
  cases h : s.handleChannelInvalidated r with
  | ok s' => exact handleChannelInvalidated_inv hi hr h
  | error e =>
    unfold handleChannelInvalidated at h
    cases hb : (s.heap r).builder.blocks with
    | nil => simp [hb] at h
    | cons f rest =>
      have hfst : (blocksOf s r).head? = some f := by rw [blocksOf,hb]; rfl
      obtain ⟨s1,h1⟩ := rewindToBlock_ok hi (hf f hfst)
      simp [hb,h1] at h

theorem first_below_cursor {oldest : SizedBlock} (hr : Held s r)
    (hf : (blocksOf s r).head? = some f) (ho : s.blocks.head? = some oldest)
    (hle : oldest.number ≤ f.number) : f ∈ s.blocks.take s.blockCursor := by
  have hnot : ¬ Passed s f := by
    intro hp
    have hlt := hp oldest (mem_of_head? ho)
    rw [le_iff_toNat_le] at hle
    simp only [num] at hlt
    omega
  rcases hr with hr | hr
  · rcases hi.placed f (mem_queuedBlocks hr (mem_of_head? hf)) with hp | hp
    · exact absurd hp hnot
    · exact hp
  · exact absurd (hr f (mem_of_head? hf)) hnot

theorem invalidates_held (h : Invalidates s r op) : Held s r := by
  cases op with
  | txConfirmed id incl => exact (hi.tx h.1).2
  | txData fuel l1Head newCfg pi => exact .inl h.2.1
  | _ => exact h.elim

theorem invalidated_first (hk : KeepsFirstBlocks s op)
    (h : Invalidates s r op) (hf : (blocksOf s r).head? = some f) :
    f ∈ s.blocks.take s.blockCursor := by
  obtain ⟨oldest,ho,hle⟩ := hk r f h hf
  exact first_below_cursor hi (invalidates_held hi h) hf ho hle

theorem txConfirmed_safe {id : TxID} {incl : BlockID}
    (hk : KeepsFirstBlocks s (.txConfirmed id incl)) :
    Ends (Inv w) (· ≠ .rewindToBlock) (s.txConfirmed id incl) := by
  unfold Batcher.ChannelManager.txConfirmed
  split
  · exact .ok hi
  rename_i r hr
  have hq := confirmed_quiet id incl s r
  simp only
  split
  · rename_i htd
    refine handleChannelInvalidated_safe (hi.quiet hq) ((hi.tx hr).2.quiet hq) ?_
    intro f hf
    rw [hq.blocksOf_eq] at hf
    rw [hq.blockCursor]
    exact invalidated_first hi hk ⟨hr,htd⟩ hf
  · exact .ok (hi.quiet hq)

theorem txData_safe {fuel : Nat} {l1Head : BlockID} {newCfg : ChannelConfig} {pi : PubInfo}
    (hk : KeepsFirstBlocks s (.txData fuel l1Head newCfg pi)) :
    Ends (Inv w) (· ≠ .rewindToBlock) (exec outs s (.txData fuel l1Head newCfg pi)) := by
  refine (txData_spec (by decide) Inv.refs Inv.quiet Inv.opens Inv.adds fuel l1Head newCfg pi hi
    ?_).bind fun p hp => .ok hp
  intro s1 r hi1 hrdy hsub hcfg
  refine handleChannelInvalidated_safe hi1 (.inl hrdy.mem) ?_
  intro f hf
  rcases hrdy.first f hf with ⟨hmem,hold⟩ | hnew
  · -- a channel from before: its first block was below the cursor, or still is a queued one
    have hold' := invalidated_first hi hk ⟨hcfg,hmem,by rw [← hrdy.submitted hmem]; exact hsub⟩
      hold
    obtain ⟨oldest,ho⟩ : ∃ o,s1.blocks.head? = some o := by
      rw [hrdy.blocks]
      cases hb : s.blocks with
      | nil =>
        rw [hb] at hold'
        simp at hold'
      | cons o rest => exact ⟨o,rfl⟩
    refine first_below_cursor hi1 (.inl hrdy.mem) hf ho ?_
    rw [hrdy.blocks] at ho
    obtain ⟨j,hj⟩ := mem_iff_getElem?.mp (mem_of_mem_take hold')
    have hnum := hi.consecutive.getElem? ho hj
    rw [le_iff_toNat_le]
    simp only [num] at hnum
    omega
  · exact hnew

end

theorem syncAndPrune_crash {status : SyncStatus} {prev : L1BlockRef} {e : Crash}
    (h : s.syncAndPrune status prev = .error e) : e ≠ .rewindToBlock := by
  unfold syncAndPrune at h
  split at h
  · cases h
  split at h
  · cases h
  unfold pruneSafeBlocks at h
  split at h
  · cases h
    decide
  simp only [ok_bind,pruneChannels] at h
  split at h
  · cases h
    decide
  · cases h

theorem exec_safe (hi : Inv w s) (hd : Driven w op) (hk : KeepsFirstBlocks s op) :
    Ends (Inv w) (· ≠ .rewindToBlock) (exec outs s op) := by
  cases op with
  | addL2Block block => exact .ok (addL2Block_inv hi hd)
  | txData fuel l1Head newCfg pi => exact txData_safe hi hk
  | txFailed id => exact (txFailed_quiet (by decide) (by decide) id s).mono fun s' hq => hi.quiet hq
  | txConfirmed id incl => exact txConfirmed_safe hi hk
  | syncAndPrune status prev =>
    cases h : s.syncAndPrune status prev with
    | ok s' =>
      simp only [exec,h]
      exact syncAndPrune_inv hi hd h
    | error e =>
      simp only [exec,h]
      exact syncAndPrune_crash h
  | pruneSafeBlocks n => exact hd.elim
  | pruneChannels n => exact hd.elim
  | clear l1Origin => exact .ok (clear_inv hi l1Origin)

/-- In every run in which no invalidated channel has lost its first block to pruning, invalidation
finds that block below the cursor and never panics. -/
theorem invalidation_never_panics [Inhabited ω] {cfg : ChannelConfig}
    (h : Reaches (Step outs fun s op => Driven w op ∧ KeepsFirstBlocks s op)
      (newChannelManager cfg) s) (hd : Driven w op) (hk : KeepsFirstBlocks s op) :
    exec outs s op ≠ .error .rewindToBlock ∧
      ∀ r f,Invalidates s r op → (blocksOf s r).head? = some f →
        f ∈ s.blocks.take s.blockCursor := by
  have hi : Inv w s := by
    refine h.invariant (new_inv cfg) ?_
    rintro x y hx ⟨op,⟨hd,hk⟩,hex⟩
    exact (exec_safe hx hd hk).of_eq hex
  refine ⟨(exec_safe hi hd hk).not_error (by simp),?_⟩
  intro r f hr hf
  exact invalidated_first hi hk hr hf

theorem sampleBlock_mem {n : Nat} (h : 0 < n ∧ n < 100) : sampleL2.block (sampleBlock n 100) :=
  ⟨n,h.1,h.2,rfl⟩

/-- Both times the channel of the two blocks is built, its transactions are confirmed fifty L1 blocks
apart. -/
theorem invalidation_never_panics_sample : ∃ s,
    Reaches (Step (scriptedOuts (fun _ => 2) fun _ => 2) fun s op =>
      Driven sampleL2 op ∧ KeepsFirstBlocks s op) (newChannelManager sampleCfg) s ∧
    Invalidates s 1 (.txConfirmed (sampleTx 2 1) ⟨.fill 32 1,250⟩) ∧
    exec (scriptedOuts (fun _ => 2) fun _ => 2) s
      (.txConfirmed (sampleTx 2 1) ⟨.fill 32 1,250⟩) ≠ .error .rewindToBlock ∧
    sampleBlock 1 100 ∈ s.blocks.take s.blockCursor := by
  have hrun : (runOps (fun s op => if KeepsFirstBlocks s op then
        exec (scriptedOuts (fun _ => 2) fun _ => 2) s op else .error .rewindToBlock)
      (newChannelManager sampleCfg) [.addL2Block (sampleBlock 1 100),.addL2Block (sampleBlock 2 100),
        publish,publish,.txConfirmed (sampleTx 1 0) ⟨.fill 32 1,100⟩,
        .txConfirmed (sampleTx 1 1) ⟨.fill 32 1,150⟩,publish,publish,
        .txConfirmed (sampleTx 2 0) ⟨.fill 32 1,200⟩]).toOption.map (fun s =>
          (decide (KeepsFirstBlocks s (.txConfirmed (sampleTx 2 1) ⟨.fill 32 1,250⟩)),
            invalidated s (.txConfirmed (sampleTx 2 1) ⟨.fill 32 1,250⟩),(blocksOf s 1).head?)) =
      some (true,[1],some (sampleBlock 1 100)) := by
    decide +kernel
  obtain ⟨s,hrch,hobs⟩ := run_guarded (fun s op => Driven sampleL2 op ∧ KeepsFirstBlocks s op)
    KeepsFirstBlocks (by simp +contextual [Driven,publish,sampleBlock_mem]) hrun
  simp only [Prod.mk.injEq,decide_eq_true_eq] at hobs
  obtain ⟨hk,hinv,hfirst⟩ := hobs
  have hr : Invalidates s 1 (.txConfirmed (sampleTx 2 1) ⟨.fill 32 1,250⟩) := by
    rw [← mem_invalidated,hinv]
    exact mem_singleton_self 1
  have hd : Driven sampleL2 (.txConfirmed (sampleTx 2 1) ⟨.fill 32 1,250⟩) := trivial
  obtain ⟨hne,hmem⟩ := invalidation_never_panics hrch hd hk
  exact ⟨s,hrch,hr,hne,hmem 1 _ hr hfirst⟩

/-- The channel holds blocks 1 and 2. Block 1 becomes safe by other means and is pruned, but the
channel stays because of block 2; then its two transactions are confirmed fifty L1 blocks apart. -/
theorem invalidation_panics : ∃ s,
    Reaches (Step (scriptedOuts (fun _ => 2) fun _ => 2) fun _ op => Driven sampleL2 op)
      (newChannelManager sampleCfg) s ∧
    exec (scriptedOuts (fun _ => 2) fun _ => 2) s
      (.txConfirmed (sampleTx 1 1) ⟨.fill 32 1,150⟩) = .error .rewindToBlock := by
  have hrun : (runOps (exec (scriptedOuts (fun _ => 2) fun _ => 2)) (newChannelManager sampleCfg)
      [.addL2Block (sampleBlock 1 100),.addL2Block (sampleBlock 2 100),publish,publish,
        .syncAndPrune (sampleStatus 1) .zero,
        .txConfirmed (sampleTx 1 0) ⟨.fill 32 1,100⟩]).toOption.map
        (fun s => match exec (scriptedOuts (fun _ => 2) fun _ => 2) s
          (.txConfirmed (sampleTx 1 1) ⟨.fill 32 1,150⟩) with
          | .error e => some e
          | .ok _ => none) = some (some .rewindToBlock) := by
    decide +kernel
  obtain ⟨s,hrch,hobs⟩ := run_observe (fun _ op => Driven sampleL2 op)
    (by simp [Driven,publish,sampleBlock_mem,sampleStatus]) hrun
  refine ⟨s,hrch,?_⟩
  split at hobs
  · rename_i e he
    rw [he,Option.some.inj hobs]
  · cases hobs

end OpStack.Proofs.ChannelInvalidation
