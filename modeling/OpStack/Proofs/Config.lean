import OpStack.Lib.Outcome
import OpStack.Rollup.Config

namespace OpStack.Proofs.Config
open Lib Eth Rollup Rollup.Config

theorem checkFork_ok {a b : Option UInt64} {aName bName : Fork}
    (h : checkFork a b aName bName = .ok ()) {t : UInt64} (hb : b.any (· ≤ t) = true) :
    a.any (· ≤ t) = true := by
  cases b with
  | none => simp at hb
  | some tb =>
    cases a with
    | none => simp [checkFork] at h
    | some ta =>
      simp only [checkFork] at h
      split at h
      · cases h
      grind

def Ordered (c : Config) : Prop :=
  (∀ t,c.isForkActive .canyon t = true → c.isForkActive .regolith t = true) ∧
  (∀ t,c.isForkActive .delta t = true → c.isForkActive .canyon t = true) ∧
  (∀ t,c.isForkActive .ecotone t = true → c.isForkActive .delta t = true) ∧
  (∀ t,c.isForkActive .fjord t = true → c.isForkActive .ecotone t = true) ∧
  (∀ t,c.isForkActive .granite t = true → c.isForkActive .fjord t = true) ∧
  (∀ t,c.isForkActive .holocene t = true → c.isForkActive .granite t = true)

theorem check_ordered {c : Config} (h : c.check = .ok ()) : Ordered c := by
  obtain ⟨_,-,h⟩ := of_bind_ok h
  obtain ⟨_,-,h⟩ := of_bind_ok h
  obtain ⟨_,-,hf⟩ := of_bind_ok h
  obtain ⟨_,h1,hf⟩ := of_bind_ok hf
  obtain ⟨_,h2,hf⟩ := of_bind_ok hf
  obtain ⟨_,h3,hf⟩ := of_bind_ok hf
  obtain ⟨_,h4,hf⟩ := of_bind_ok hf
  obtain ⟨_,h5,hf⟩ := of_bind_ok hf
  obtain ⟨_,h6,-⟩ := of_bind_ok hf
  exact ⟨fun _ => checkFork_ok h1,fun _ => checkFork_ok h2,fun _ => checkFork_ok h3,
    fun _ => checkFork_ok h4,fun _ => checkFork_ok h5,fun _ => checkFork_ok h6⟩

theorem active_mono {c : Config} {fork : Fork} {t t' : UInt64} (hle : t ≤ t')
    (h : c.isForkActive fork t = true) : c.isForkActive fork t' = true := by
  unfold Config.isForkActive at h ⊢
  cases ha : c.activationTime fork with
  | none => simp [ha] at h
  | some ta =>
    simp only [ha,Option.any_some,decide_eq_true_eq] at h ⊢
    exact UInt64.le_trans h hle

def hashOf (n : Nat) : Hash := ⟨UInt8.ofNat n::beBytes 31 (n / 256),by simp [beBytes_length]⟩

def sampleConfig : Config where
  genesis := ⟨⟨hashOf 1,0⟩,⟨hashOf 2,0⟩,1,⟨.fill 20 1,.fill 32 1,30000000⟩⟩
  blockTime := 2
  maxSequencerDrift := 600
  seqWindowSize := 2
  channelTimeoutBedrock := 300
  l1ChainID := some 1
  l2ChainID := some 10
  regolithTime := some 0
  canyonTime := some 0
  deltaTime := some 0
  ecotoneTime := some 0
  fjordTime := some 0
  graniteTime := some 0
  holoceneTime := some 0
  batchInboxAddress := .fill 20 2
  depositContractAddress := .fill 20 3

example : sampleConfig.check = .ok () := by decide

end OpStack.Proofs.Config
