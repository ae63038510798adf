import OpStack.Proofs.BlockAccounting

namespace OpStack.Proofs.SyncedQueue
open Lib Eth Batcher Batcher.ChannelManager ChannelManager BlockAccounting List

def numbers : Option InclusiveBlockRange → List Nat
  | none => []
  | some r => range' r.start.toNat (r.stop.toNat + 1 - r.start.toNat)

def kept (actions : SyncActions) (blocks : List SizedBlock) : List SizedBlock :=
  if actions.clearState.isSome then [] else blocks.drop actions.blocksToPrune

/-- The actions prune only what is there and safe, and with the loaded blocks the queue goes from
the safe head to the newest block known. -/
structure Synced (status : SyncStatus) (blocks : List SizedBlock) (channels : List ChannelStatus)
    (actions : SyncActions) : Prop where
  blocks_le : actions.blocksToPrune ≤ blocks.length
  channels_le : actions.channelsToPrune ≤ channels.length
  last : ∀ b ∈ (blocks.take actions.blocksToPrune).getLast?,b.hash = status.localSafeL2.hash
  channels : ∀ ch ∈ channels.take actions.channelsToPrune,
    ch.latestL2.number ≤ status.localSafeL2.number
  queue : (kept actions blocks).map num ++ numbers actions.blocksToLoad =
    range' (status.localSafeL2.number.toNat + 1) (max status.unsafeL2.number.toNat
      (((kept actions blocks).map num).getLast?.getD 0) - status.localSafeL2.number.toNat)

variable {status : SyncStatus} {blocks : List SizedBlock} {channels : List ChannelStatus}
  {from' : UInt64} {prev : L1BlockRef} {actions : SyncActions}

theorem numbers_above : numbers (unsafeBlocksAbove from' status) =
    range' (from'.toNat + 1) (status.unsafeL2.number.toNat - from'.toNat) := by
  unfold unsafeBlocksAbove
  split <;> rename_i hlt <;> rw [UInt64.lt_iff_toNat_lt] at hlt
  · have hsu : (from' + 1).toNat = from'.toNat + 1 :=
      Nat.mod_eq_of_lt (Nat.lt_of_le_of_lt hlt status.unsafeL2.number.toNat_lt)
    simp [numbers,hsu]
  · simp [numbers,Nat.sub_eq_zero_of_le (Nat.le_of_not_lt hlt)]

theorem synced_afresh {clearState : Option BlockID} (h : clearState = none → blocks = []) :
    Synced status blocks channels
      { clearState, blocksToLoad := unsafeBlocksAbove status.localSafeL2.number status } := by
  have hkp (load) : kept ⟨clearState,0,0,load⟩ blocks = [] := by
    cases clearState with
    | none => simp [kept,h rfl]
    | some _ => rfl
  exact ⟨Nat.zero_le _,Nat.zero_le _,by simp,by simp,by simp [hkp,numbers_above]⟩

theorem computeOnBlocks_synced {oldest : SizedBlock} {rest : List SizedBlock}
    (hov : status.localSafeL2.number.toNat + 1 < 2 ^ 64) (hc : Consecutive num (oldest::rest)) :
    Synced status (oldest::rest) channels (computeOnBlocks status oldest
      ((oldest::rest).getLast (by simp)) (oldest::rest) channels) := by
  rcases computeOnBlocks_cases hov with ha | ⟨n,hn,hlen,hhs,ha⟩ <;> rw [ha]
  · exact synced_afresh nofun
  refine ⟨hlen,( takeWhile_prefix _).length_le,?_,?_,?_⟩
  · intro b hb
    rw [getLast?_take] at hb
    split at hb
    · cases hb
    rename_i hpos
    obtain ⟨x,hx,hxh⟩ := Option.map_eq_some_iff.mp (hhs (Nat.pos_of_ne_zero hpos))
    rw [hx] at hb
    cases hb
    exact hxh
  · intro ch hch
    rw [← prefix_iff_eq_take.mp ( takeWhile_prefix _)] at hch
    simpa using mem_takeWhile_imp hch
  -- The kept blocks start after the safe head, and the loaded ones after the newest block.
  have hnewest := hc.getElem? rfl (getLast?_eq_getElem? ▸ getLast?_eq_some_getLast (by simp))
  have hkp : ((oldest::rest).drop n).map num =
      range' (status.localSafeL2.number.toNat + 1) (rest.length + 1 - n) := by
    rw [map_drop,hc.map_eq,drop_range',mul_one,hn]
  simp only [length_cons,num] at hnewest hlen hn
  have hnx : ((oldest::rest).getLast (by simp)).number.toNat + 1 =
      status.localSafeL2.number.toNat + 1 + (rest.length + 1 - n) := by omega
  simp only [kept,Option.isSome_none,Bool.false_eq_true,if_false,hkp,numbers_above,getLast?_range']
  rw [hnx,range'_append_1]
  congr 1
  split <;> simp only [Option.getD_none,Option.getD_some] <;> omega

/-- A sync leaves the queue with every block above the safe head once and in order. -/
theorem computeSyncActions_synced (hov : status.localSafeL2.number.toNat + 1 < 2 ^ 64)
    (hc : Consecutive num blocks)
    (h : computeSyncActions status prev blocks channels = some actions) :
    Synced status blocks channels actions := by
  unfold computeSyncActions at h
  split at h
  · cases h
  split at h
  · cases h
  cases blocks with
  | nil =>
    cases h
    exact synced_afresh fun _ => rfl
  | cons oldest rest =>
    cases h
    exact computeOnBlocks_synced hov hc

theorem computeSyncActions_synced_sample :
    Synced (sampleStatus 2) [sampleBlock 2 0,sampleBlock 3 0] [⟨true,false,(sampleBlock 2 0).id,0⟩]
      ⟨none,1,1,some ⟨4,99⟩⟩ :=
  computeSyncActions_synced (by decide) (isChain_pair.mpr rfl)
    (show computeSyncActions _ .zero _ _ = _ by decide +kernel)

theorem syncAndPrune_kept {ω : Type} {s : ChannelManager ω}
    (h : computeSyncActions status prev s.blocks (s.channelQueue.map fun r =>
      (s.heap r).status) = some actions)
    (hs : Synced status s.blocks (s.channelQueue.map fun r => (s.heap r).status) actions) :
    ∃ s',s.syncAndPrune status prev = .ok s' ∧ s'.blocks = kept actions s.blocks := by
  have hb := Nat.not_lt.mpr hs.blocks_le
  have hk := Nat.not_lt.mpr hs.channels_le
  rw [length_map] at hk
  cases hc : actions.clearState <;>
    simp [syncAndPrune,clear,pruneSafeBlocks,pruneChannels,kept,h,hc,hb,hk]

end OpStack.Proofs.SyncedQueue
