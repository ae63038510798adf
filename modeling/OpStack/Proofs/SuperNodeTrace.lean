import OpStack.Fault.SuperNodeProvider
import OpStack.Proofs.SuperProgram

namespace OpStack.Fault
open Lib Eth Interop World SuperNodeTraceProvider List UInt64

/-- What a supernode that has followed L1 at least up to `head` knows at a timestamp: what it does
not report needs more of L1. -/
structure Reports (w : World) (head : BlockID) (t : Nat) (r : SuperRootAtTimestampResponse) :
    Prop where
  synced : head.number ≤ r.currentL1.number
  chainIDs : r.chainIDs.Perm w.chains
  data : ∀ d,r.data = some d →
    d.super = some (w.superAt t) ∧ d.verifiedRequiredL1.number.toNat = w.requiredAt t
  noData : r.data = none → r.currentL1.number.toNat < w.requiredAt t
  optimistic : ∀ c ∈ w.chains,∀ o,r.optimisticAtTimestamp c = some o →
    (∃ v,o.output = some v ∧ ⟨v.blockHash,o.outputRoot⟩ = w.optimistic c t) ∧
      o.requiredL1.number.toNat = w.requiredL1 c t
  noOptimistic : ∀ c ∈ w.chains,r.optimisticAtTimestamp c = none →
    r.currentL1.number.toNat < w.requiredL1 c t

theorem toNat_index {i : Nat} (hi : i < 2 ^ 63) : (ofNat i + 1).toNat = i + 1 := by
  rw [show ofNat i + 1 = ofNat (i + 1) from (ofNat_add i 1).symm]
  exact toNat_ofNat_of_lt' (by change i + 1 < 2 ^ 64; omega)

theorem toNat_time {first k : UInt64} (h : first.toNat + k.toNat / 128 < 2 ^ 64) :
    (first + k / stepsPerTimestamp).toNat = first.toNat + k.toNat / 128 := by
  exact Nat.mod_eq_of_lt h

namespace SuperNodeTraceProvider
variable {ε : Type} {s : SuperNodeTraceProvider ε} {w : World} {t : Nat}
  {r : SuperRootAtTimestampResponse} {p : Position} {i : Nat}

def AnswersFrom (s : SuperNodeTraceProvider ε) (w : World) : Prop :=
  ∀ t : UInt64,∃ r,s.rootProvider t = .ok r ∧ Reports w s.l1Head t.toNat r

theorem sortChainIDs_eq (h : r.chainIDs.Perm w.chains) : sortChainIDs r.chainIDs = w.chains := by
  have hpm : (sortChainIDs r.chainIDs).Perm w.chains := (mergeSort_perm _ _).trans h
  have hsorted : (sortChainIDs r.chainIDs).Pairwise fun a b => a.toNat ≤ b.toNat := by
    refine (pairwise_mergeSort ?_ ?_ r.chainIDs).imp fun h => of_decide_eq_true h
    · intro a b c hab hbc
      exact decide_eq_true ((of_decide_eq_true hab).trans (of_decide_eq_true hbc))
    · intro a b
      simpa using le_total a.toNat b.toNat
  refine hpm.eq_of_pairwise ?_ hsorted (w.sorted.imp fun h => h.le)
  intro a b _ _ hab hba
  exact BitVec.eq_of_toNat_eq (le_antisymm hab hba)

section
variable (h : Reports w s.l1Head t r)
include h

theorem not_behind : ¬ r.currentL1.number < s.l1Head.number :=
  UInt64.not_lt.mpr h.synced

theorem above_head {n : WithTop Nat}
    (hn : r.currentL1.number.toNat < n) : ¬ n ≤ s.l1Head.number.toNat := by
  have hle := WithTop.coe_le_coe.mpr (le_iff_toNat_le.mp h.synced)
  exact not_le.mpr (lt_of_le_of_lt hle hn)

theorem safeData_eq : if w.requiredAt t ≤ s.l1Head.number.toNat
    then ∃ d,s.safeData r = .ok (some d) ∧ d.super = some (w.superAt t)
    else s.safeData r = .ok none := by
  unfold safeData
  rw [if_neg (not_behind h)]
  cases hd : r.data with
  | none => simp [if_neg (above_head h (h.noData hd))]
  | some d =>
    obtain ⟨hsup,hreq⟩ := h.data d hd
    have hiff : w.requiredAt t ≤ s.l1Head.number.toNat ↔
        d.verifiedRequiredL1.number ≤ s.l1Head.number := by
      rw [← hreq]
      exact WithTop.coe_le_coe
    by_cases hle : d.verifiedRequiredL1.number ≤ s.l1Head.number
    · rw [if_pos (hiff.mpr hle)]
      exact ⟨d,by simp [hle],hsup⟩
    · rw [if_neg (fun h => hle (hiff.mp h))]
      simp [UInt64.not_le.mp hle]

theorem optimisticBlocks_eq {cs : List ChainID}
    (hcs : ∀ c ∈ cs,c ∈ w.chains) : s.optimisticBlocks r cs
      = .ok (if ∀ c ∈ cs,w.requiredL1 c t ≤ s.l1Head.number.toNat
          then some (cs.map (w.optimistic · t)) else none) := by
  induction cs with
  | nil => simp [optimisticBlocks]
  | cons c cs ih =>
    have hc := hcs c mem_cons_self
    have hrs := ih fun d hd => hcs d (mem_cons_of_mem c hd)
    simp only [forall_mem_cons]
    unfold optimisticBlocks
    cases ho : r.optimisticAtTimestamp c with
    | none =>
      have hnot := above_head h (h.noOptimistic c hc ho)
      simp [hnot]
    | some o =>
      obtain ⟨⟨v,hv,hbk⟩,hreq⟩ := h.optimistic c hc o ho
      have hiff : w.requiredL1 c t ≤ s.l1Head.number.toNat ↔
          ¬ s.l1Head.number < o.requiredL1.number := by
        rw [← hreq,UInt64.not_lt]
        exact WithTop.coe_le_coe
      by_cases hlt : s.l1Head.number < o.requiredL1.number
      · have hnot : ¬ w.requiredL1 c t ≤ s.l1Head.number.toNat := fun h => hiff.mp h hlt
        simp [hlt,hnot]
      have hle := hiff.mpr hlt
      simp only [hlt,↓reduceIte,hle,true_and,hv,hrs,ok_bind]
      split
      · simp [hbk]
      · rfl

end

theorem boundary_eq (h : s.AnswersFrom w) (t : UInt64) : s.getPreimageBytesAtTimestampBoundary t
    = .ok (w.preimage (w.stage s.l1Head.number.toNat t.toNat 0)) := by
  obtain ⟨r,hr,hrep⟩ := h t
  have hsf := safeData_eq hrep
  unfold getPreimageBytesAtTimestampBoundary superRootAtTimestamp stage
  simp only [hr,Except.mapError,ok_bind,safe_zero]
  split at hsf
  · rename_i hle
    obtain ⟨d,hd,hsup⟩ := hsf
    simp only [hd,ok_bind,hsup,if_pos hle]
    rfl
  · rename_i hle
    simp only [hsf,if_neg hle]
    rfl

theorem getPreimageBytes_stage (h : s.AnswersFrom w) {t : UInt64} {n : Nat}
    (hp : s.computeStep p = .ok (t,ofNat n)) (hn : n < 128) (ht : t.toNat + 1 < 2 ^ 64) :
    s.getPreimageBytes p = .ok (w.preimage (w.stage s.l1Head.number.toNat t.toNat n)) := by
  unfold getPreimageBytes
  rw [hp]
  change (if ofNat n = 0 then s.getPreimageBytesAtTimestampBoundary t else _) = _
  have htoNat := toNat_ofNat_of_lt' (by change n < 2 ^ 64; omega)
  cases n with
  | zero => exact boundary_eq h t
  | succ n =>
    have hne : ofNat (n + 1) ≠ 0 := by
      intro he
      simp [he] at htoNat
    have hnx : (t + 1).toNat = t.toNat + 1 := by exact Nat.mod_eq_of_lt ht
    obtain ⟨r,hr,hrep⟩ := h t
    obtain ⟨r',hr',hrep'⟩ := h (t + 1)
    have hsf := safeData_eq hrep
    have hbs := optimisticBlocks_eq hrep' (fun c => mem_of_mem_take (i := n + 1))
    rw [hnx] at hbs
    rw [if_neg hne]
    simp only [superRootAtTimestamp,hr,hr',Except.mapError,ok_bind,stage,World.Safe]
    split at hsf
    · rename_i hle
      obtain ⟨d,hd,hsup⟩ := hsf
      simp only [hd,ok_bind,if_neg (not_behind hrep'),hsup,
        sortChainIDs_eq hrep'.chainIDs,htoNat,hbs,hle,true_and]
      by_cases hall : ∀ c ∈ w.chains.take (n + 1),
          w.requiredL1 c (t.toNat + 1) ≤ s.l1Head.number.toNat
      · simp only [if_pos hall]
        rfl
      · simp only [if_neg hall]
        rfl
    · rename_i hle
      simp only [hsf,hle,false_and]
      rfl

theorem computeStep_eq (hp : p.traceIndex s.gameDepth = .ok i)
    (hi : i < 2 ^ 63) (hpre : s.prestateTimestamp.toNat < 2 ^ 63) : s.computeStep p = .ok (
      if s.poststateTimestamp.toNat ≤ s.prestateTimestamp.toNat + (i + 1) / 128
      then (s.poststateTimestamp,0)
      else (ofNat (s.prestateTimestamp.toNat + (i + 1) / 128),ofNat ((i + 1) % 128))) := by
  have hidx := toNat_index hi
  have htm := @toNat_time s.prestateTimestamp (ofNat i + 1) (by omega)
  rw [hidx] at htm
  have hst : (ofNat i + 1) % stepsPerTimestamp = ofNat ((i + 1) % 128) := by
    apply UInt64.toNat_inj.mp
    rw [UInt64.toNat_mod,hidx]
    exact (toNat_ofNat_of_lt' (by change _ % 128 < 2 ^ 64; omega)).symm
  unfold computeStep stepAt
  simp only [hp,Except.mapError,ok_bind,if_neg (show ¬ 2 ^ 64 ≤ i by omega),le_iff_toNat_le,htm,hst]
  split
  · rfl
  · rw [← htm,UInt64.ofNat_toNat]
    rfl

/-- The provider's preimage at the trace index `i` is that of the stage after `i + 1` steps. -/
theorem getPreimageBytes_eq (h : s.AnswersFrom w)
    (hp : p.traceIndex s.gameDepth = .ok i) (hi : i < 2 ^ 63)
    (hle : s.prestateTimestamp ≤ s.poststateTimestamp)
    (hpost : s.poststateTimestamp.toNat < 2 ^ 63) :
    s.getPreimageBytes p = .ok (w.preimage (w.claimed s.l1Head.number.toNat
      s.poststateTimestamp.toNat s.prestateTimestamp.toNat (i + 1))) := by
  have hpre := le_iff_toNat_le.mp hle
  have hcompute := computeStep_eq hp hi (by omega)
  unfold claimed
  split at hcompute
  · rename_i hend
    rw [if_pos hend]
    exact getPreimageBytes_stage (n := 0) h hcompute (by omega) (by omega)
  rename_i hend
  have htoNat : (ofNat (s.prestateTimestamp.toNat + (i + 1) / 128)).toNat
      = s.prestateTimestamp.toNat + (i + 1) / 128 :=
    toNat_ofNat_of_lt' (by change _ < 2 ^ 64; omega)
  have hstg := getPreimageBytes_stage h hcompute (by omega) (by omega)
  rw [if_neg hend,hstg,htoNat]

theorem absolutePreState_eq (h : s.AnswersFrom w)
    (hsafe : w.requiredAt s.prestateTimestamp.toNat ≤ s.l1Head.number.toNat) :
    s.absolutePreState = .ok (w.superAt s.prestateTimestamp.toNat) := by
  obtain ⟨r,hr,hrep⟩ := h s.prestateTimestamp
  unfold absolutePreState superRootAtTimestamp
  cases hd : r.data with
  | none => exact absurd hsafe (above_head hrep (hrep.noData hd))
  | some d => simp [hr,Except.mapError,hd,orFail_some,(hrep.data d hd).1]

/-- The challenger plays the trace of the program: from the hash of its preimage at a trace index
the program goes to that at the next one, and from the prestate to that at index 0, if the L1 head
is not below what the prestate needs. -/
theorem supernode_plays_program {P : Packages} (w : World) (hne : w.chains ≠ [])
    (s : SuperNodeTraceProvider ε) (prog : Program P) (configs : ConfigSource P)
    (hle : s.prestateTimestamp ≤ s.poststateTimestamp)
    (hpost : s.poststateTimestamp.toNat < 2 ^ 63) (hdepth : s.gameDepth < 64)
    (hnode : s.AnswersFrom w)
    (hprog : w.RunsIn prog configs s.l1Head s.prestateTimestamp s.poststateTimestamp) :
    (∀ (p q : Position) (i : Nat),i + 1 < 2 ^ s.gameDepth.toNat →
      p.traceIndex s.gameDepth = .ok i → q.traceIndex s.gameDepth = .ok (i + 1) →
      ∃ a b,s.getPreimageBytes p = .ok a ∧ s.getPreimageBytes q = .ok b ∧
        (prog.Knows a → prog.stateTransition
          (bootAt prog configs s.l1Head s.poststateTimestamp a) = .ok (prog.keccak256 b))) ∧
    (w.requiredAt s.prestateTimestamp.toNat ≤ s.l1Head.number.toNat →
      ∀ p : Position,p.traceIndex s.gameDepth = .ok 0 →
      ∃ super b,s.absolutePreState = .ok super ∧ s.getPreimageBytes p = .ok b ∧
        (prog.Knows super.marshal → prog.stateTransition
          (bootAt prog configs s.l1Head s.poststateTimestamp super.marshal)
            = .ok (prog.keccak256 b))) := by
  have hbd : 2 ^ s.gameDepth.toNat ≤ 2 ^ 63 := by
    have hlt : s.gameDepth.toNat < 64 := lt_iff_toNat_lt.mp hdepth
    exact Nat.pow_le_pow_right (by omega) (by omega)
  constructor
  · intro p q i hi hp hq
    refine ⟨_,_,getPreimageBytes_eq hnode hp (by omega) hle hpost,
      getPreimageBytes_eq hnode hq (by omega) hle hpost,?_⟩
    exact stateTransition_claimed hprog hne hle (i + 1)
  intro hsf p hp
  refine ⟨_,_,absolutePreState_eq hnode hsf,getPreimageBytes_eq hnode hp (by omega) hle hpost,?_⟩
  have hz := claimed_zero (le_iff_toNat_le.mp hle) hsf
  have hst := stateTransition_claimed hprog hne hle 0
  rw [hz] at hst
  exact hst

end SuperNodeTraceProvider

/-! A node that answers from a world, and runs in small worlds. -/

def report (w : World) (l1 : BlockID) (t : UInt64) : SuperRootAtTimestampResponse where
  currentL1 := l1
  chainIDs := w.chains
  optimisticAtTimestamp c :=
    if w.requiredL1 c t.toNat ≤ l1.number.toNat then
      some ⟨some ⟨.fill 32 0,.fill 32 0,(w.optimistic c t.toNat).blockHash⟩,
        (w.optimistic c t.toNat).outputRoot,
        ⟨.fill 32 0,ofNat ((w.requiredL1 c t.toNat).untopD 0)⟩⟩
    else none
  data :=
    if w.requiredAt t.toNat ≤ l1.number.toNat then
      some ⟨⟨.fill 32 0,ofNat ((w.requiredAt t.toNat).untopD 0)⟩,some (w.superAt t.toNat)⟩
    else none

theorem untopD_toNat {n : WithTop Nat} {l1 : UInt64} (h : n ≤ l1.toNat) :
    ((ofNat (n.untopD 0)).toNat : WithTop Nat) = n := by
  obtain ⟨k,rfl⟩ := WithTop.ne_top_iff_exists.mp (ne_top_of_le_ne_top WithTop.coe_ne_top h)
  have hk := lt_of_le_of_lt (WithTop.coe_le_coe.mp h) l1.toNat_lt
  rw [WithTop.untopD_coe,toNat_ofNat_of_lt' hk]
  rfl

theorem reports_report (w : World) {head l1 : BlockID} (h : head.number ≤ l1.number) (t : UInt64) :
    Reports w head t.toNat (report w l1 t) := by
  constructor
  · exact h
  · exact .refl _
  · intro d hd
    obtain ⟨hle,hd⟩ := Option.ite_none_right_eq_some.mp hd
    cases hd
    exact ⟨rfl,untopD_toNat hle⟩
  · simpa [report] using hd
  · intro c _ o ho
    obtain ⟨hle,ho⟩ := Option.ite_none_right_eq_some.mp ho
    cases ho
    exact ⟨⟨_,rfl,rfl⟩,untopD_toNat hle⟩
  · simpa [report] using ho

/-- Two chains whose blocks at a timestamp need L1 up to the number of the timestamp. The block of
the second chain is replaced each time. -/
def sampleWorld : World where
  chains := [1,2]
  sorted := by decide
  few := by decide
  optimistic _ _ := ⟨.fill 32 1,.fill 32 2⟩
  verified c _ := if c = 1 then .fill 32 2 else .fill 32 3
  requiredL1 _ t := t
  later _ _ t := WithTop.coe_le_coe.mpr (Nat.le_succ t)

def samplePackages : Packages := ⟨Unit,Unit,Unit,Unit,Unit,Unit⟩

def sampleConfigs : ConfigSource samplePackages where
  rollupConfig _ := some
    { genesis := ⟨.zero,.zero,0,.zero⟩, blockTime := 1, maxSequencerDrift := 0, seqWindowSize := 2,
      channelTimeoutBedrock := 1, l1ChainID := some 1, l2ChainID := none,
      batchInboxAddress := .fill 20 0, depositContractAddress := .fill 20 0 }
  chainConfig _ := some ()
  l1ChainConfig _ := some ()
  dependencySet _ := some ()

def sampleProgram (agreed : Bytes) : Program samplePackages where
  keccak256 bs := .fill 32 (bs.headD 0)
  preimage _ := some agreed
  tasks.runDerivation _ _ _ _ _ _ number :=
    .ok ⟨{ L2BlockRef.zero with number := min number 2 },.fill 32 1,.fill 32 2⟩
  tasks.buildDepositOnlyBlock _ _ _ _ _ _ := ((),.ok (.fill 32 4,.fill 32 3))
  checks.emptyStore := ()
  checks.newCheckDeps _ _ _ _ _ := .ok ()
  checks.receiptsByBlockHash _ _ _ := ()
  checks.blockNumber _ := 0
  checks.blockTime _ := 0
  checks.checkHazards _ _ c _ := ((),if c = 2 then some .conflict else none)

def sampleNode (w : World) (first last number : UInt64) : SuperNodeTraceProvider Unit where
  rootProvider t := .ok (report w ⟨.fill 32 0,5⟩ t)
  prestateTimestamp := first
  poststateTimestamp := last
  l1Head := ⟨.fill 32 0,number⟩
  gameDepth := 9

theorem sampleNode_answers (w : World) (first last : UInt64) {number : UInt64} (h : number ≤ 5) :
    (sampleNode w first last number).AnswersFrom w :=
  fun t => ⟨_,rfl,reports_report w h t⟩

def sampleSetup (c : ChainID) : ChainSetup sampleConfigs c :=
  ⟨_,(),1,(),(),rfl,rfl,by decide,rfl,rfl⟩

theorem sample_runs (agreed : Bytes) :
    sampleWorld.RunsIn (sampleProgram agreed) sampleConfigs ⟨.fill 32 0,2⟩ 1 3 := by
  constructor
  · intro t hfst hls _ c _
    have hfst : 1 ≤ t := hfst
    have hls : t < 3 := hls
    refine ⟨sampleSetup c,ofNat (t + 1),_,?_,rfl,?_,fun _ => rfl⟩
    · simp [sampleSetup,Rollup.Config.targetBlockNumber,BlockID.zero]
    change min (ofNat (t + 1)) 2 < ofNat (t + 1) ↔
      ((2 : Nat) : WithTop Nat) < ((t + 1 : Nat) : WithTop Nat)
    obtain rfl | rfl : t = 1 ∨ t = 2 := by omega
    · decide
    · decide
  · intro t _ _ _
    exact ⟨_,rfl,rfl⟩

theorem sample_knows {agreed : Bytes} (h : agreed.headD 0 ≠ 105) :
    (sampleProgram agreed).Knows agreed := by
  refine ⟨rfl,fun he => absurd ?_ h⟩
  have hby := congrArg FixedBytes.bytes he
  exact (cons.inj hby).1

/-- The preimage at trace index 1 has the blocks of both chains at the timestamp after the first. -/
theorem supernode_plays_program_sample : (sampleNode sampleWorld 1 3 2).getPreimageBytes ⟨9,1⟩
      = .ok (sampleWorld.preimage (.reached 1 2)) ∧
    ∃ b,(sampleNode sampleWorld 1 3 2).getPreimageBytes ⟨9,2⟩ = .ok b ∧
      (sampleProgram (sampleWorld.preimage (.reached 1 2))).stateTransition
        (bootAt (sampleProgram (sampleWorld.preimage (.reached 1 2))) sampleConfigs
          ⟨.fill 32 0,2⟩ 3 (sampleWorld.preimage (.reached 1 2)))
        = .ok ((sampleProgram (sampleWorld.preimage (.reached 1 2))).keccak256 b) := by
  have hnd := sampleNode_answers sampleWorld 1 3 (show (2 : UInt64) ≤ 5 by decide)
  have hfst : (sampleNode sampleWorld 1 3 2).getPreimageBytes ⟨9,1⟩
      = .ok (sampleWorld.preimage (sampleWorld.claimed 2 3 1 2)) :=
    getPreimageBytes_eq hnd (by decide) (by decide) (by decide) (by decide)
  have hclm : sampleWorld.claimed 2 3 1 2 = .reached 1 2 := by
    simp [claimed,stage,World.Safe,requiredAt,sampleWorld]
  rw [hclm] at hfst
  obtain ⟨a,b,ha,hb,hst⟩ := (supernode_plays_program sampleWorld
    (by simp [sampleWorld]) (sampleNode sampleWorld 1 3 2)
    (sampleProgram (sampleWorld.preimage (.reached 1 2))) sampleConfigs (by decide) (by decide)
    (by decide) hnd (sample_runs _)).1 ⟨9,1⟩ ⟨9,2⟩ 1 (by decide) (by decide) (by decide)
  obtain rfl : sampleWorld.preimage (.reached 1 2) = a := Except.ok.inj (hfst.symm.trans ha)
  exact ⟨ha,b,hb,hst (sample_knows (by decide))⟩

def emptyWorld : World where
  chains := []
  sorted := .nil
  few := by decide
  optimistic _ _ := ⟨.fill 32 1,.fill 32 2⟩
  verified _ _ := .fill 32 2
  requiredL1 _ _ := 0
  later _ _ _ := le_rfl

def lateWorld : World where
  chains := [1]
  sorted := by decide
  few := by decide
  optimistic _ _ := ⟨.fill 32 1,.fill 32 2⟩
  verified _ _ := .fill 32 2
  requiredL1 _ _ := 1
  later _ _ _ := le_rfl

def startProgram (w : World) : Program samplePackages := sampleProgram (w.superAt 1).marshal

def startRun (w : World) (number : UInt64) : Except (InteropError samplePackages) Hash :=
  (startProgram w).stateTransition (bootAt (startProgram w) sampleConfigs ⟨.fill 32 0,number⟩ 1
    (w.superAt 1).marshal)

/-- Without chains the program refuses the super root that the challenger commits to. When the
prestate needs more of L1 than the game has, the challenger starts with the invalid transition while
the program stays at the prestate. -/
theorem supernode_trace_differs : ((sampleNode emptyWorld 1 1 2).AnswersFrom emptyWorld ∧
      emptyWorld.RunsIn (startProgram emptyWorld) sampleConfigs ⟨.fill 32 0,2⟩ 1 1 ∧
      (startProgram emptyWorld).Knows (emptyWorld.superAt 1).marshal ∧
      (sampleNode emptyWorld 1 1 2).getPreimageBytes ⟨9,0⟩ = .ok (emptyWorld.superAt 1).marshal ∧
      startRun emptyWorld 2 = .error (.superRoot .invalidSuperRoot)) ∧
    ((sampleNode lateWorld 1 1 0).AnswersFrom lateWorld ∧
      lateWorld.RunsIn (startProgram lateWorld) sampleConfigs ⟨.fill 32 0,0⟩ 1 1 ∧
      (startProgram lateWorld).Knows (lateWorld.superAt 1).marshal ∧
      (sampleNode lateWorld 1 1 0).absolutePreState = .ok (lateWorld.superAt 1) ∧
      (sampleNode lateWorld 1 1 0).getPreimageBytes ⟨9,0⟩ = .ok invalidTransition ∧
      startRun lateWorld 0 = .ok (.fill 32 1) ∧
      (startProgram lateWorld).keccak256 invalidTransition ≠ .fill 32 1) := by
  have hemp := sampleNode_answers emptyWorld 1 1 (show (2 : UInt64) ≤ 5 by decide)
  have hlate := sampleNode_answers lateWorld 1 1 (show (0 : UInt64) ≤ 5 by decide)
  refine ⟨⟨hemp,runsIn_same,sample_knows (by decide),?_,rfl⟩,
    hlate,runsIn_same,sample_knows (by decide),?_,?_,?_,by decide⟩
  · have hpre := getPreimageBytes_eq (p := ⟨9,0⟩) (i := 0) hemp
      (by decide) (by decide) (by decide) (by decide)
    have hclm : emptyWorld.claimed 2 1 1 1 = .reached 1 0 := by
      simp [claimed,stage,World.Safe,requiredAt,emptyWorld]
    exact hpre.trans (congrArg (fun st => Except.ok (emptyWorld.preimage st)) hclm)
  · simp [absolutePreState,superRootAtTimestamp,sampleNode,report,requiredAt,lateWorld,
      Except.mapError]
  · have hpre := getPreimageBytes_eq (p := ⟨9,0⟩) (i := 0) hlate
      (by decide) (by decide) (by decide) (by decide)
    have hclm : lateWorld.claimed 0 1 1 1 = .invalid := by
      simp [claimed,stage,World.Safe,requiredAt,lateWorld]
    exact hpre.trans (congrArg (fun st => Except.ok (lateWorld.preimage st)) hclm)
  · rfl

end OpStack.Fault
