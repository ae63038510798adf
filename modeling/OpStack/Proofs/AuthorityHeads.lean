import Mathlib.Data.List.Nodup
import OpStack.Proofs.Config
import OpStack.Supernode.SuperAuthority

namespace OpStack.Supernode
open Eth OpStack.Engine OpStack.Proofs.Config List Option UInt64 Nat

/-! The heads that a super authority gives a chain. -/

structure VerifiedDB.HeadsAscend (db : VerifiedDB) (chainID : ChainID) : Prop where
  contiguous : db.IsChain fun a b => b.timestamp.toNat = a.timestamp.toNat + 1
  some : ∀ r ∈ db,∃ head,r.l2Heads.lookup chainID = some head
  ascend : db.Pairwise fun a b => ∀ head head',a.l2Heads.lookup chainID = .some head →
    b.l2Heads.lookup chainID = .some head' → head.number ≤ head'.number

structure KnowsHeads (engine : ExecEngine) (db : VerifiedDB) (chainID : ChainID) : Prop where
  genesis : ∀ br,engine.l2BlockRefByNumber 0 = .found br → br.number = 0
  head : ∀ r ∈ db,∀ head br,r.l2Heads.lookup chainID = some head →
    engine.l2BlockRefByHash head.hash = .found br → br.number = head.number

def Covered (db : VerifiedDB) (chainID : ChainID) (l1Number number : UInt64) : Prop :=
  ∃ r ∈ db,r.l1Inclusion.number ≤ l1Number ∧
    ∃ head,r.l2Heads.lookup chainID = some head ∧ number ≤ head.number

def PreActivation (verifiers : List Verifier) (syncStatus : Option NodeStatus) : Prop :=
  verifiers = [] ∨ ∃ ss ∈ syncStatus,∀ v ∈ verifiers,v.isActiveAt ss.localSafeL2.time = false

/-- The order of the heads in one state, and what stands behind the finalized one, which is the
genesis block or covered. -/
structure HeadsInOrder (db : VerifiedDB) (chainID : ChainID) (finalizedL1 : L1BlockRef)
    (finalized safe localSafe : L2BlockRef) : Prop where
  finalized_le : finalized.number ≤ safe.number
  safe_le : safe.number ≤ localSafe.number
  covered : finalized.number = 0 ∨ Covered db chainID finalizedL1.number finalized.number

section
variable {db : VerifiedDB} {chainID : ChainID} {v : Verifier} {verifiers : List Verifier}
  {syncStatus : Option NodeStatus}

variable {answer : BlockID × Bool} {r l : VerifiedResult} {head : BlockID} {ts : UInt64}
  {answers : List (BlockID × UInt64)} {b : BlockID}

theorem mem_of_get (h : db.get ts = some r) : r ∈ db ∧ r.timestamp = ts := by
  refine ⟨mem_of_find?_eq_some h,?_⟩
  simpa using find?_some h

namespace VerifiedDB.HeadsAscend

theorem timestamps (h : db.HeadsAscend chainID) :
    db.Pairwise fun a b => a.timestamp.toNat < b.timestamp.toNat := by
  refine (isChain_iff_pairwise (R := fun a b : VerifiedResult =>
    a.timestamp.toNat < b.timestamp.toNat)).mp ?_
  exact h.contiguous.imp fun a b hab => by omega

theorem le_last {head' : BlockID} (h : db.HeadsAscend chainID)
    (hlast : db.getLast? = .some l) (hl : l.l2Heads.lookup chainID = .some head') (hr : r ∈ db)
    (hhead : r.l2Heads.lookup chainID = .some head) :
    head.number ≤ head'.number ∧ r.timestamp ≤ l.timestamp := by
  obtain ⟨before,rfl⟩ := getLast?_eq_some_iff.mp hlast
  obtain hr | hr := mem_append.mp hr
  · have hlt := (pairwise_append.mp h.timestamps).2.2 r hr l (mem_singleton_self _)
    exact ⟨(pairwise_append.mp h.ascend).2.2 r hr l (mem_singleton_self _) _ _ hhead hl,
      le_of_lt hlt⟩
  cases mem_singleton.mp hr
  cases hhead.symm.trans hl
  exact ⟨UInt64.le_refl _,UInt64.le_refl _⟩

theorem get_last (h : db.HeadsAscend chainID)
    (hlast : db.getLast? = .some l) : db.get l.timestamp = .some l := by
  have hmem := mem_of_getLast? hlast
  cases hget : db.get l.timestamp with
  | none =>
    have := find?_eq_none.mp hget l hmem
    simp at this
  | some r =>
    obtain ⟨hr,hts⟩ := mem_of_get hget
    have hnd := List.Pairwise.map _ (fun _ _ hlt => ne_of_lt hlt) h.timestamps
    cases inj_on_of_nodup_map hnd hr hmem (congrArg toNat hts)
    rfl

end VerifiedDB.HeadsAscend

theorem latestVerifiedL2Block_eq (h : v.verifiedDB.HeadsAscend chainID)
    (hlast : v.verifiedDB.getLast? = some l) (hhead : l.l2Heads.lookup chainID = some head) :
    v.latestVerifiedL2Block chainID = (head,l.timestamp) := by
  unfold Verifier.latestVerifiedL2Block VerifiedDB.lastTimestamp
  rw [hlast]
  simp [h.get_last hlast,hhead]

def FoundAt (db : VerifiedDB) (chainID : ChainID) (l1Number : UInt64) (a : BlockID × UInt64) :
    Prop :=
  a = (.zero,0) ∨ ∃ r ∈ db,r.l1Inclusion.number ≤ l1Number ∧
    r.l2Heads.lookup chainID = some a.1 ∧ r.timestamp = a.2

theorem searchStep_found {l1Number : UInt64} {rest : BlockID × UInt64}
    (h : FoundAt v.verifiedDB chainID l1Number rest) :
    FoundAt v.verifiedDB chainID l1Number (v.searchStep chainID l1Number ts rest) := by
  unfold Verifier.searchStep
  split
  · exact .inl rfl
  split
  · exact h
  case h_2 r hget =>
    obtain ⟨hmem,hts⟩ := mem_of_get hget
    split
    case isTrue hle =>
      split
      · exact .inl rfl
      case h_2 head hhd => exact .inr ⟨r,hmem,hle,hhd,hts⟩
    · exact h

theorem verifiedBlockAtL1_found {l1Block : L1BlockRef} :
    FoundAt v.verifiedDB chainID l1Block.number (v.verifiedBlockAtL1 chainID l1Block) := by
  have hsearch : ∀ n,FoundAt v.verifiedDB chainID l1Block.number
      (v.searchDown chainID l1Block.number n) := by
    intro n
    induction n with
    | zero => exact searchStep_found (.inl rfl)
    | succ n ih => exact searchStep_found ih
  unfold Verifier.verifiedBlockAtL1
  split
  · exact .inl rfl
  split
  · exact .inl rfl
  · exact hsearch _

theorem oldestBlock_cases {oldest : BlockID × UInt64} (h : oldestBlock answers oldest = some b) :
    (b = .zero ∧ ∃ a ∈ answers,a.1 = .zero ∨ a.2 = 0) ∨
      (∀ a ∈ answers,a.1 ≠ .zero ∧ a.2 ≠ 0) ∧ (b = oldest.1 ∨ ∃ a ∈ answers,b = a.1) := by
  induction answers generalizing oldest with
  | nil =>
    cases h
    exact .inr ⟨by simp,.inl rfl⟩
  | cons a rest ih =>
    unfold oldestBlock at h
    split at h
    case isTrue hemp =>
      cases h
      exact .inl ⟨rfl,a,mem_cons_self,hemp⟩
    case isFalse hne =>
      have hcs : ∀ {oldest' : BlockID × UInt64},(oldest' = oldest ∨ oldest' = a) →
          oldestBlock rest oldest' = some b →
          (b = .zero ∧ ∃ a' ∈ a::rest,a'.1 = .zero ∨ a'.2 = 0) ∨
            (∀ a' ∈ a::rest,a'.1 ≠ .zero ∧ a'.2 ≠ 0) ∧
              (b = oldest.1 ∨ ∃ a' ∈ a::rest,b = a'.1) := by
        intro oldest' holdest h
        obtain ⟨hb,a',ha',hemp⟩ | ⟨hall,hb⟩ := ih h
        · exact .inl ⟨hb,a',mem_cons_of_mem _ ha',hemp⟩
        refine .inr ⟨forall_mem_cons.mpr ⟨not_or.mp hne,hall⟩,?_⟩
        obtain rfl | ⟨a',ha',rfl⟩ := hb
        · obtain rfl | rfl := holdest
          · exact .inl rfl
          · exact .inr ⟨oldest',mem_cons_self,rfl⟩
        · exact .inr ⟨a',mem_cons_of_mem _ ha',rfl⟩
      split at h
      · exact hcs (.inr rfl) h
      split at h
      · cases h
      · exact hcs (.inl rfl) h

/-- Some verifier has no block yet, or the block is one of theirs. -/
theorem oldestOf_cases
    (hne : answers ≠ []) (h : oldestOf answers = some answer) : answer.2 = false ∧
      ((answer.1 = .zero ∧ ∃ a ∈ answers,a.1 = .zero ∨ a.2 = 0) ∨
        ∃ a ∈ answers,a.1 = answer.1 ∧ a.1 ≠ .zero ∧ a.2 ≠ 0) := by
  obtain ⟨b,hb,rfl⟩ := map_eq_some_iff.mp h
  refine ⟨rfl,?_⟩
  obtain ⟨a,rest,rfl⟩ := exists_cons_of_ne_nil hne
  unfold oldestBlock at hb
  split at hb
  case isTrue hemp =>
    cases hb
    exact .inl ⟨rfl,a,mem_cons_self,hemp⟩
  case isFalse ha =>
    split at hb
    · obtain ⟨hb,a',ha',hemp⟩ | ⟨hall,rfl | ⟨a',ha',rfl⟩⟩ := oldestBlock_cases hb
      · exact .inl ⟨hb,a',mem_cons_of_mem _ ha',hemp⟩
      · exact .inr ⟨a,mem_cons_self,rfl,not_or.mp ha⟩
      · exact .inr ⟨a',mem_cons_of_mem _ ha',rfl,hall a' ha'⟩
    case isFalse hlt =>
      -- No timestamp is above the one that the loop starts with.
      have hmax : a.2 = 0xffffffffffffffff := by
        have hle := UInt64.not_lt.mp hlt
        exact UInt64.le_antisymm (UInt64.le_iff_toNat_le.mpr (le_of_lt_succ a.2.toNat_lt)) hle
      rw [if_pos ⟨hmax,(not_or.mp ha).1⟩] at hb
      cases hb

theorem authorityHead_number {engine : ExecEngine} {e : EngineController}
    {useLocal x : L2BlockRef} {unknown : Panic} (hk : KnowsHeads engine db chainID)
    (hb : b = .zero ∨ ∃ r ∈ db,r.l2Heads.lookup chainID = some b)
    (h : e.authorityHead engine (b,false) useLocal unknown = .ok x) :
    x.number.toNat = min b.number.toNat e.localSafeHead.number.toNat := by
  unfold EngineController.authorityHead at h
  rw [if_neg (by simp)] at h
  split at h
  case isTrue hz =>
    have hmin : min b.number.toNat e.localSafeHead.number.toNat = 0 := by
      rw [show b = .zero from hz]
      exact zero_min _
    rw [hmin]
    split at h
    case h_1 br hbr =>
      cases h
      simp [hk.genesis _ hbr]
    · cases h
      rfl
  case isFalse hne =>
    split at h
    case isTrue hlt =>
      cases h
      exact (Nat.min_eq_right (Nat.le_of_lt hlt)).symm
    case isFalse hle =>
      split at h
      case h_1 br hbr =>
        cases h
        obtain ⟨r,hr,hhd⟩ := hb.resolve_left hne
        rw [hk.head r hr _ _ hhd hbr]
        exact (Nat.min_eq_left (Nat.not_lt.mp hle)).symm
      · cases h

theorem preActivation_iff (hne : verifiers ≠ []) :
    (syncStatus.any fun ss => allVerifiersPreActivationAt verifiers ss.localSafeL2.time) = true ↔
      PreActivation verifiers syncStatus := by
  unfold PreActivation allVerifiersPreActivationAt
  cases syncStatus with
  | none => simp [hne]
  | some ss => simp [hne]

/-- What the authority says of the safe head: the local one, or the head of the last result. -/
theorem fullyVerifiedL2Head_cases (hdb : db.HeadsAscend chainID)
    (hshared : ∀ v ∈ verifiers,v.verifiedDB = db)
    (h : fullyVerifiedL2Head verifiers chainID syncStatus = some answer) :
    (PreActivation verifiers syncStatus ∧ answer.2 = true) ∨
      ¬ PreActivation verifiers syncStatus ∧ answer.2 = false ∧
        ((answer.1 = .zero ∧ (db = [] ∨ db.lastTimestamp = some 0)) ∨
          ∃ l,db.getLast? = some l ∧ l.timestamp ≠ 0 ∧
            l.l2Heads.lookup chainID = some answer.1) := by
  unfold fullyVerifiedL2Head at h
  split at h
  case isTrue hemp =>
    cases h
    exact .inl ⟨.inl (isEmpty_iff.mp hemp),rfl⟩
  case isFalse hne =>
    rw [List.isEmpty_iff] at hne
    split at h
    case isTrue hpre =>
      cases h
      exact .inl ⟨(preActivation_iff hne).mp hpre,rfl⟩
    case isFalse hpre =>
      refine .inr ⟨fun hp => hpre ((preActivation_iff hne).mpr hp),?_⟩
      obtain ⟨hlocal,han⟩ := oldestOf_cases (by simpa using hne) h
      refine ⟨hlocal,?_⟩
      cases hls : db.getLast? with
      | none =>
        cases getLast?_eq_none_iff.mp hls
        obtain ⟨hz,-⟩ | ⟨a,ha,-,hne,-⟩ := han
        · exact .inl ⟨hz,.inl rfl⟩
        obtain ⟨v,hv,rfl⟩ := mem_map.mp ha
        unfold Verifier.latestVerifiedL2Block at hne
        rw [hshared v hv] at hne
        exact absurd rfl hne
      | some l =>
        obtain ⟨head,hhd⟩ := hdb.some l (mem_of_getLast? hls)
        have hall : ∀ a ∈ verifiers.map fun v => v.latestVerifiedL2Block chainID,
            a = (head,l.timestamp) := by
          intro a ha
          obtain ⟨v,hv,rfl⟩ := mem_map.mp ha
          have hv' := hshared v hv
          exact latestVerifiedL2Block_eq (hv' ▸ hdb) (hv' ▸ hls) hhd
        obtain ⟨hz,a,ha,hemp⟩ | ⟨a,ha,heq,-,hts⟩ := han
        · cases hall a ha
          by_cases hts : l.timestamp = 0
          · refine .inl ⟨hz,.inr ?_⟩
            rw [VerifiedDB.lastTimestamp,hls,map_some,hts]
          · have hhd' : head = .zero := hemp.resolve_right hts
            exact .inr ⟨l,rfl,hts,by rw [hhd,hhd',hz]⟩
        · cases hall a ha
          exact .inr ⟨l,rfl,hts,heq ▸ hhd⟩

/-- What the authority says of the finalized head: the local one, or the head of a result from at
or below the finalized L1 block. -/
theorem finalizedL2Head_cases (hshared : ∀ v ∈ verifiers,v.verifiedDB = db)
    (h : finalizedL2Head verifiers chainID syncStatus = some answer) :
    ((syncStatus = none ∨ PreActivation verifiers syncStatus) ∧ answer.2 = true) ∨
      (¬ PreActivation verifiers syncStatus ∧ answer.2 = false ∧
        ∃ ss,syncStatus = some ss ∧ (answer.1 = .zero ∨
          ∃ r ∈ db,r.l1Inclusion.number ≤ ss.finalizedL1.number ∧
            r.l2Heads.lookup chainID = some answer.1 ∧ r.timestamp ≠ 0)) := by
  unfold finalizedL2Head at h
  split at h
  case isTrue hemp =>
    cases h
    exact .inl ⟨.inr (.inl (isEmpty_iff.mp hemp)),rfl⟩
  case isFalse hne =>
    rw [List.isEmpty_iff] at hne
    cases syncStatus with
    | none =>
      cases h
      exact .inl ⟨.inl rfl,rfl⟩
    | some ss =>
      have hiff := @preActivation_iff verifiers (some ss) hne
      simp only at h
      split at h
      case isTrue hpre =>
        cases h
        exact .inl ⟨.inr (hiff.mp hpre),rfl⟩
      case isFalse hpre =>
        refine .inr ⟨fun hp => hpre (hiff.mpr hp),?_⟩
        obtain ⟨hlocal,⟨hz,-⟩ | ⟨a,ha,heq,hb,hts⟩⟩ := oldestOf_cases (by simpa using hne) h
        · exact ⟨hlocal,ss,rfl,.inl hz⟩
        obtain ⟨v,hv,rfl⟩ := mem_map.mp ha
        obtain hno | ⟨r,hr,hle,hhd,hr'⟩ := @verifiedBlockAtL1_found chainID v ss.finalizedL1
        · rw [hno] at hb
          exact absurd rfl hb
        · rw [hshared v hv] at hr
          exact ⟨hlocal,ss,rfl,.inr ⟨r,hr,hle,heq ▸ hhd,hr' ▸ hts⟩⟩

variable {engine : ExecEngine} {e : EngineController} {answers : SuperAuthority}
  {finalized safe : L2BlockRef}

/-- The safe head is the local one, or there is no result that counts, or it is the lower one of
the last verified head and the local one. -/
inductive SafeHeadIs (db : VerifiedDB) (chainID : ChainID) (verifiers : List Verifier)
    (syncStatus : Option NodeStatus) (localSafe safe : L2BlockRef) : Prop
  | localSafe (hpre : PreActivation verifiers syncStatus) (heq : safe = localSafe)
  | genesis (hpre : ¬ PreActivation verifiers syncStatus) (hzero : safe.number = 0)
      (hnone : db = [] ∨ db.lastTimestamp = some 0)
  | verified (hpre : ¬ PreActivation verifiers syncStatus) {l : VerifiedResult} {head : BlockID}
      (hlast : db.getLast? = some l) (hts : l.timestamp ≠ 0)
      (hhead : l.l2Heads.lookup chainID = some head)
      (hnumber : safe.number.toNat = min head.number.toNat localSafe.number.toNat)

theorem safeL2Head_is (hdb : db.HeadsAscend chainID) (hk : KnowsHeads engine db chainID)
    (hshared : ∀ v ∈ verifiers,v.verifiedDB = db)
    (hanswer : fullyVerifiedL2Head verifiers chainID syncStatus = some answers.fullyVerifiedL2Head)
    (ha : e.superAuthority = some answers) (hs : e.safeL2Head engine = .ok safe) :
    SafeHeadIs db chainID verifiers syncStatus e.localSafeHead safe := by
  simp only [EngineController.safeL2Head,ha] at hs
  obtain ⟨⟨b,useLocal⟩,fin⟩ := answers
  obtain ⟨hpre,rfl⟩ | ⟨hpre,rfl,hcs⟩ := fullyVerifiedL2Head_cases hdb hshared hanswer
  · cases hs
    exact .localSafe hpre rfl
  obtain ⟨rfl,hno⟩ | ⟨l,hls,hts,hhd⟩ := hcs
  · have hnum := authorityHead_number hk (.inl rfl) hs
    exact .genesis hpre (UInt64.toNat_inj.mp (hnum.trans (zero_min _))) hno
  · exact .verified hpre hls hts hhd
      (authorityHead_number hk (.inr ⟨l,mem_of_getLast? hls,hhd⟩) hs)

namespace SafeHeadIs
variable {localSafe : L2BlockRef}
  (h : SafeHeadIs db chainID verifiers syncStatus localSafe safe)
include h

theorem le_localSafe : safe.number ≤ localSafe.number := by
  rw [le_iff_toNat_le]
  cases h with
  | localSafe hpre heq => rw [heq]
  | genesis hpre hz hno =>
    rw [hz]
    exact zero_le _
  | verified hpre hls hts hhd hnum => omega

theorem ge_of_head {number : Nat}
    (hdb : db.HeadsAscend chainID) (hlocal : number ≤ localSafe.number.toNat) (hr : r ∈ db)
    (hhead : r.l2Heads.lookup chainID = some head) (hle : number ≤ head.number.toNat)
    (hts : db.lastTimestamp = some 0 → PreActivation verifiers syncStatus) :
    number ≤ safe.number.toNat := by
  cases h with
  | localSafe hpre heq => rwa [heq]
  | genesis hpre hz hno =>
    obtain rfl | hls := hno
    · cases hr
    · exact absurd (hts hls) hpre
  | verified hpre hls hts' hhead' hnum =>
    have hls' := le_iff_toNat_le.mp (hdb.le_last hls hhead' hr hhead).1
    omega

theorem eq_zero (hlast : db.lastTimestamp = some 0) (hpre : ¬ PreActivation verifiers syncStatus) :
    safe.number = 0 := by
  cases h with
  | localSafe hpre' heq => exact absurd hpre' hpre
  | genesis hpre' hz hno => exact hz
  | verified hpre' hlast' hts hhd hnum =>
    rw [VerifiedDB.lastTimestamp,hlast'] at hlast
    exact absurd (some.inj hlast) hts

end SafeHeadIs

/-- The heads are in order exactly where the finalized one does not fall back to the local one
without cause, or the local one is covered anyway. -/
theorem finalizedHead_in_order_iff {finalizedL1 : L1BlockRef} {finalizedStatus : Option NodeStatus}
    (hdb : db.HeadsAscend chainID) (hk : KnowsHeads engine db chainID)
    (hshared : ∀ v ∈ verifiers,v.verifiedDB = db)
    (hl1 : ∀ ss ∈ finalizedStatus,ss.finalizedL1 = finalizedL1)
    (hlocal : e.localFinalizedHead.number ≤ e.localSafeHead.number)
    (hsafeAnswer : fullyVerifiedL2Head verifiers chainID syncStatus =
      some answers.fullyVerifiedL2Head)
    (hfinalAnswer : finalizedL2Head verifiers chainID finalizedStatus =
      some answers.finalizedL2Head)
    (ha : e.superAuthority = some answers) (hs : e.safeL2Head engine = .ok safe)
    (hf : e.finalizedHead engine = .ok finalized) :
    HeadsInOrder db chainID finalizedL1 finalized safe e.localSafeHead ↔
      (finalizedStatus ≠ none ∧ ¬ PreActivation verifiers finalizedStatus) ∨
        e.localFinalizedHead.number = 0 ∨
        (Covered db chainID finalizedL1.number e.localFinalizedHead.number ∧
          (db.lastTimestamp = some 0 → PreActivation verifiers syncStatus)) := by
  have hsf := safeL2Head_is hdb hk hshared hsafeAnswer ha hs
  simp only [EngineController.finalizedHead,ha] at hf
  obtain ⟨fv,b,useLocal⟩ := answers
  obtain ⟨hfalls,rfl⟩ | ⟨hpre,rfl,ss,rfl,hcs⟩ := finalizedL2Head_cases hshared hfinalAnswer
  · -- The finalized head is the local one.
    cases hf
    constructor
    · rintro ⟨hle,-,hz | hcov⟩
      · exact .inr (.inl hz)
      refine .inr ?_
      by_cases hts : db.lastTimestamp = some 0 → PreActivation verifiers syncStatus
      · exact .inr ⟨hcov,hts⟩
      obtain ⟨hls,hpre⟩ := Classical.not_imp.mp hts
      rw [hsf.eq_zero hls hpre] at hle
      exact .inl (UInt64.le_zero_iff.mp hle)
    · intro hcd
      have hcd := hcd.resolve_left fun h => hfalls.elim h.1 h.2
      refine ⟨?_,hsf.le_localSafe,hcd.imp_right And.left⟩
      obtain hz | ⟨⟨r,hr,-,head,hhd,hrch⟩,hts⟩ := hcd
      · rw [hz]
        exact zero_le _
      · exact hsf.ge_of_head hdb hlocal hr hhd hrch hts
  refine iff_of_true ?_ (.inl ⟨by simp,hpre⟩)
  have hhd : b = .zero ∨ ∃ r ∈ db,r.l2Heads.lookup chainID = some b := by
    obtain hz | ⟨r,hr,-,hhd,-⟩ := hcs
    · exact .inl hz
    · exact .inr ⟨r,hr,hhd⟩
  have hnum := authorityHead_number hk hhd hf
  cases hl1 ss rfl
  obtain rfl | ⟨r,hr,hle,(hlk : r.l2Heads.lookup chainID = some b),hts⟩ := hcs
  · have hz : finalized.number = 0 := UInt64.toNat_inj.mp (hnum.trans (zero_min _))
    refine ⟨?_,hsf.le_localSafe,.inl hz⟩
    rw [hz]
    exact zero_le _
  refine ⟨?_,hsf.le_localSafe,.inr ⟨r,hr,hle,b,hlk,?_⟩⟩
  · rw [le_iff_toNat_le]
    refine hsf.ge_of_head hdb (by omega) hr hlk (by omega) ?_
    intro hls
    obtain ⟨l,hls,hz⟩ := map_eq_some_iff.mp hls
    obtain ⟨head,hhd⟩ := hdb.some l (mem_of_getLast? hls)
    have hle := (hdb.le_last hls hhd hr hlk).2
    rw [hz] at hle
    exact absurd (UInt64.le_zero_iff.mp hle) hts
  · rw [le_iff_toNat_le]
    omega

end

def verifiedBlock (n : UInt64) : L2BlockRef :=
  ⟨hashOf (100 + n.toNat),n,hashOf (99 + n.toNat),80 + 2 * n,⟨hashOf 5,5⟩,0⟩

def resultAt (ts l1Inclusion head : UInt64) : VerifiedResult :=
  ⟨ts,⟨hashOf l1Inclusion.toNat,l1Inclusion⟩,[(1,(verifiedBlock head).id)]⟩

def oneResult : VerifiedDB := [resultAt 100 5 10]

/-- The results of three timestamps, the last one from an L1 block that is not finalized. -/
def threeResults : VerifiedDB := [resultAt 100 5 10,resultAt 101 6 10,resultAt 102 8 11]

def verifiedEngine : ExecEngine where
  forkchoiceUpdate _ := .failed
  newPayload _ := none
  l2BlockRefByLabel _ := .failed
  l2BlockRefByHash h :=
    if h = hashOf 110 then .found (verifiedBlock 10)
    else if h = hashOf 111 then .found (verifiedBlock 11)
    else .notFound
  l2BlockRefByNumber _ := .notFound

def statusAt (n : UInt64) : NodeStatus := ⟨verifiedBlock n,⟨hashOf 7,7,hashOf 6,70⟩⟩

/-- The local heads are at 11 and 12. -/
def aheadOfVerified (safe finalized : BlockID × Bool) : EngineController :=
  { newEngineController sampleConfig ⟨.clSync,true,false,true,0⟩ false (some ⟨safe,finalized⟩) with
    localSafeHead := verifiedBlock 12
    localFinalizedHead := verifiedBlock 11 }

theorem threeResults_ascend : threeResults.HeadsAscend 1 := by
  have hsome : ∀ r ∈ threeResults,(r.l2Heads.lookup 1).isSome = true := by decide +kernel
  have hascend : threeResults.Pairwise fun a b =>
      ∀ head ∈ a.l2Heads.lookup 1,∀ head' ∈ b.l2Heads.lookup 1,head.number ≤ head'.number := by
    decide +kernel
  refine ⟨by decide +kernel,fun r hr => isSome_iff_exists.mp (hsome r hr),?_⟩
  exact hascend.imp fun h head head' hhd hhd' => h head hhd head' hhd'

theorem verifiedEngine_knows : KnowsHeads verifiedEngine threeResults 1 := by
  refine ⟨fun br h => (by cases h),?_⟩
  intro r hr head br hhd hbr
  simp only [threeResults,mem_cons,not_mem_nil,or_false] at hr
  rcases hr with rfl | rfl | rfl
  all_goals
    cases hhd
    cases hbr
    rfl

/-- Block 10 is finalized, block 11 is verified and block 12 is the local head. -/
theorem finalizedHead_in_order_status :
    HeadsInOrder threeResults 1 (statusAt 12).finalizedL1 (verifiedBlock 10) (verifiedBlock 11)
      (verifiedBlock 12) := by
  refine (@finalizedHead_in_order_iff threeResults 1 [⟨100,threeResults⟩] (some (statusAt 12))
    verifiedEngine (aheadOfVerified (⟨hashOf 111,11⟩,false) (⟨hashOf 110,10⟩,false)) _ _ _ _
    (some (statusAt 12)) threeResults_ascend verifiedEngine_knows (by simp) (by simp) (by decide)
    (by decide +kernel) (by decide +kernel) rfl (by decide +kernel) (by decide +kernel)).mpr
    (.inl ⟨by simp,?_⟩)
  simp [PreActivation,Verifier.isActiveAt,statusAt,verifiedBlock]

/-- The sync status cannot be read for the finalized head, which then is the local one, above the
safe head. -/
theorem status_failure_finalizes_ahead :
    fullyVerifiedL2Head [⟨100,oneResult⟩] 1 (some (statusAt 12)) = some (⟨hashOf 110,10⟩,false) ∧
      finalizedL2Head [⟨100,oneResult⟩] 1 none = some (.zero,true) ∧
      (aheadOfVerified (⟨hashOf 110,10⟩,false) (.zero,true)).safeL2Head verifiedEngine =
        .ok (verifiedBlock 10) ∧
      (aheadOfVerified (⟨hashOf 110,10⟩,false) (.zero,true)).finalizedHead verifiedEngine =
        .ok (verifiedBlock 11) ∧
      ¬ HeadsInOrder oneResult 1 (statusAt 12).finalizedL1 (verifiedBlock 11) (verifiedBlock 10)
        (verifiedBlock 12) := by
  refine ⟨by decide +kernel,by decide +kernel,by decide +kernel,by decide +kernel,?_⟩
  intro h
  exact absurd h.finalized_le (by decide)

end OpStack.Supernode
