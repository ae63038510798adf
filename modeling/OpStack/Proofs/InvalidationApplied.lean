import OpStack.Proofs.RewindRetries
import OpStack.Supernode.Round

namespace OpStack.Supernode
open Lib Eth List UInt64

variable {hashOf : Payload → Hash} {e e' : Engine} {p : Payload} {n timestamp : UInt64}

/-! A rewound engine has nothing above its head. -/

variable {scripts : ChainID → InteropChain.InvalidateScript} {chainID : ChainID} {chains : Chains}
  {h : Hash} {r : Result} {head : InvalidHead}

theorem ancestorAt_above (hwf : e.WellFormed hashOf) {fuel : Nat}
    (hp : e.known h = some p) (hfuel : p.number.toNat = fuel) (hlt : p.number < n) :
    e.ancestorAt n fuel p = none := by
  induction fuel generalizing p h with
  | zero =>
    unfold Engine.ancestorAt
    rw [if_neg (UInt64.ne_of_lt hlt)]
  | succ fuel ih =>
    have hpos : p.number ≠ 0 := by
      intro h0
      simp [h0] at hfuel
    obtain ⟨q,hq,hsu⟩ := hwf.parent h p hp hpos
    have hnum : q.number.toNat = fuel := by
      rw [← hsu,UInt64.toNat_add] at hfuel
      have := q.number.toNat_lt
      simp only [toNat_one] at hfuel
      omega
    unfold Engine.ancestorAt
    rw [if_neg (UInt64.ne_of_lt hlt),hq]
    apply ih hq hnum
    rw [lt_iff_toNat_lt] at hlt ⊢
    omega

theorem payloadByNumber_above (hwf : e.WellFormed hashOf)
    (hp : e.known e.unsafeHead = some p) (hlt : p.number < n) : e.payloadByNumber n = none := by
  unfold Engine.payloadByNumber
  rw [hp]
  exact ancestorAt_above hwf hp rfl hlt

theorem retryRewind_head {cfg : Option Rollup.Config} {attempts : List RewindAttempt}
    (hwf : e.WellFormed hashOf)
    (hok : retryRewind hashOf cfg timestamp attempts e = some (e',.ok ())) :
    e'.WellFormed hashOf ∧ ∃ cfg' p,cfg = some cfg' ∧ e'.known e'.unsafeHead = some p ∧
      cfg'.targetBlockNumber timestamp = .ok p.number := by
  induction attempts generalizing e with
  | nil => cases hok
  | cons a rest ih =>
    unfold retryRewind at hok
    split at hok
    · rename_i hres
      cases hok
      obtain ⟨hwf',hhd⟩ := rewindToTimestamp_keeps hwf hres
      exact ⟨hwf',hhd rfl⟩
    rename_i hres
    split at hok
    · cases hok
    split at hok
    · cases hok
    split at hok
    · cases hok
    exact ih (rewindToTimestamp_keeps hwf hres).1 hok

structure Follows (cfg : Rollup.Config) (e : Engine) : Prop where
  blockTime : cfg.blockTime ≠ 0
  time : ∀ h p,e.known h = some p → cfg.genesis.l2.number ≤ p.number →
    p.time.toNat = cfg.genesis.l2Time.toNat +
      (p.number.toNat - cfg.genesis.l2.number.toNat) * cfg.blockTime.toNat

theorem one_le_of_ne_zero {n : UInt64} (h : n ≠ 0) : 1 ≤ n := by
  have := mt UInt64.toNat_inj.mp h
  exact Nat.pos_of_ne_zero this

/-- The time of the block before one of the chain leads back to that block. -/
theorem targetBlockNumber_prior {cfg : Rollup.Config} (hf : Follows cfg e)
    (hp : e.known h = some p) (hpos : p.number ≠ 0)
    (hgenesis : cfg.genesis.l2.number ≤ p.number - 1) :
    cfg.targetBlockNumber (cfg.timestampForBlock (p.number - 1)) = .ok (p.number - 1) := by
  have hprior : (p.number - 1).toNat = p.number.toNat - 1 :=
    UInt64.toNat_sub_of_le _ _ (one_le_of_ne_zero hpos)
  have hg : cfg.genesis.l2.number.toNat ≤ p.number.toNat - 1 := by
    rw [le_iff_toNat_le,hprior] at hgenesis
    exact hgenesis
  have hbt := Nat.pos_of_ne_zero fun h0 => hf.blockTime (UInt64.toNat_inj.mp h0)
  have htm := hf.time h p hp (by
    rw [le_iff_toNat_le]
    omega)
  have hlt := p.time.toNat_lt
  generalize hk : p.number.toNat - 1 - cfg.genesis.l2.number.toNat = k at *
  have hbe : cfg.genesis.l2Time.toNat + k * cfg.blockTime.toNat < 2 ^ 64 := by
    have hle : k * cfg.blockTime.toNat
        ≤ (p.number.toNat - cfg.genesis.l2.number.toNat) * cfg.blockTime.toNat :=
      Nat.mul_le_mul_right _ (by omega)
    omega
  have hdiff : (p.number - 1 - cfg.genesis.l2.number).toNat = k := by
    rw [UInt64.toNat_sub_of_le _ _ hgenesis,hprior,hk]
  have hproduct : ((p.number - 1 - cfg.genesis.l2.number) * cfg.blockTime).toNat
      = k * cfg.blockTime.toNat := by
    rw [UInt64.toNat_mul,hdiff]
    exact Nat.mod_eq_of_lt (by omega)
  have hts : (cfg.timestampForBlock (p.number - 1)).toNat
      = cfg.genesis.l2Time.toNat + k * cfg.blockTime.toNat := by
    unfold Rollup.Config.timestampForBlock
    rw [UInt64.toNat_add,hproduct]
    exact Nat.mod_eq_of_lt hbe
  have hle : cfg.genesis.l2Time ≤ cfg.timestampForBlock (p.number - 1) := by
    rw [le_iff_toNat_le]
    omega
  unfold Rollup.Config.targetBlockNumber
  rw [if_neg (UInt64.not_lt.mpr hle),if_neg hf.blockTime]
  congr 1
  apply UInt64.toNat_inj.mp
  rw [UInt64.toNat_add,UInt64.toNat_div,UInt64.toNat_sub_of_le _ _ hle,hts,Nat.add_sub_cancel_left,
    Nat.mul_div_cancel _ hbt]
  have := p.number.toNat_lt
  omega

/-! One invalidation. -/

def InteropChain.Uses (hashOf : Payload → Hash) (c : InteropChain) (block : BlockID)
    (script : InteropChain.InvalidateScript) : Prop :=
  script.currentBlock = none ∧ ∃ e p,c.engine = some e ∧
    e.payloadByNumber block.number = some p ∧ hashOf p = block.hash

structure InteropChain.Sound (hashOf : Payload → Hash) (c : InteropChain) : Prop where
  wf : ∀ e,c.engine = some e → e.WellFormed hashOf
  follows : ∀ e cfg,c.engine = some e → c.rollup = some cfg → Follows cfg e

def InteropChain.Dropped (hashOf : Payload → Hash) (c : InteropChain) (block : BlockID) : Prop :=
  ∀ e p,c.engine = some e → e.payloadByNumber block.number = some p → hashOf p ≠ block.hash

section
variable {c c' : InteropChain} {block : BlockID} {record : DenyRecord} {b : Bool}
  {script : InteropChain.InvalidateScript}

/-- An invalidation that finds the block in use rewinds the chain to before it and resumes it. -/
theorem invalidateBlock_uses (hs : c.Sound hashOf) (hrecord : record.payloadHash = block.hash)
    (huses : c.Uses hashOf block script)
    (hok : c.invalidateBlock hashOf block.number record script = some (c',.ok b)) :
    c'.pause = false ∧ c'.Dropped hashOf block := by
  obtain ⟨hrd,e,p,heng,hp,hhs⟩ := huses
  have hwf := hs.wf e heng
  obtain ⟨hnum,hkn⟩ := hwf.canonical hp
  unfold InteropChain.invalidateBlock at hok
  split at hok
  · cases hok
  split at hok
  · cases hok
  rename_i hheight
  split at hok
  · cases hok
  simp only [heng,Engine.l2BlockRefByNumber,hp,hrd,answer,Option.map_some,orFail_some,
    Payload.ref,hhs,hrecord,ne_eq,not_true_eq_false,↓reduceIte] at hok
  split at hok
  · cases hok
  rename_i priorTimestamp hprior
  obtain ⟨⟨c₁,result⟩,hrewind,heq⟩ := Option.map_eq_some_iff.mp hok
  cases result with
  | error err => cases heq
  | ok u =>
    cases heq
    obtain ⟨e₀,e',he₀,-,hrty,rfl⟩ := rewindEngine_engine hrewind
    cases he₀
    obtain ⟨hwf',cfg,q,hcfg,hq,htgt⟩ := retryRewind_head hwf hrty
    refine ⟨rfl,?_⟩
    -- the head is at the number before, so there is no block at the height
    have hfol := hs.follows e cfg heng hcfg
    have hpos : p.number ≠ 0 := by
      rw [hnum]
      exact hheight
    obtain ⟨cfg₁,hcfg₁,hrs⟩ := of_bind_ok hprior
    cases (of_orFail_ok hcfg₁).symm.trans hcfg
    split at hrs
    · cases hrs
    rename_i hgen
    cases hrs
    rw [← hnum] at hgen htgt
    rw [targetBlockNumber_prior hfol hkn hpos (UInt64.not_lt.mp hgen)] at htgt
    have hlt : q.number < block.number := by
      rw [← Except.ok.inj htgt,← hnum]
      exact UInt64.sub_lt (by decide) (one_le_of_ne_zero hpos)
    intro e₂ p₂ he₂ hp₂
    cases he₂
    simp [payloadByNumber_above hwf' hq hlt] at hp₂

theorem invalidateBlock_not_uses (hrecord : record.payloadHash = block.hash)
    (hnot : ¬ c.Uses hashOf block script)
    (hok : c.invalidateBlock hashOf block.number record script = some (c',.ok b)) :
    c'.pause = c.pause := by
  unfold InteropChain.invalidateBlock at hok
  split at hok
  · cases hok
  split at hok
  · cases hok
  split at hok
  · cases hok
  simp only at hok
  split at hok
  · cases hok
    rfl
  rename_i e heng
  split at hok
  · cases hok
    rfl
  rename_i currentBlock hrd
  split at hok
  · cases hok
    rfl
  rename_i hsm
  obtain ⟨hfa,href⟩ := answer_ok hrd
  obtain ⟨p,hp,rfl⟩ := Option.map_eq_some_iff.mp href
  refine absurd ⟨hfa,e,p,heng,hp,?_⟩ hnot
  rw [← hrecord]
  exact not_not.mp hsm

end

/-! All of them, each on its own chain. -/

theorem invalidateBlocks_ok {ps : List PendingInvalidation} {chains' : Chains}
    (hnodup : (ps.map PendingInvalidation.chainID).Nodup)
    (hok : invalidateBlocks hashOf scripts ps chains = some (chains',false)) :
    (∀ p ∈ ps,∃ c c' b,chains p.chainID = some c ∧ chains' p.chainID = some c' ∧
      c.invalidateBlock hashOf p.blockID.number p.record (scripts p.chainID) = some (c',.ok b)) ∧
    ∀ chainID,chainID ∉ ps.map PendingInvalidation.chainID → chains' chainID = chains chainID := by
  induction ps generalizing chains with
  | nil =>
    cases hok
    exact ⟨fun p hp => absurd hp not_mem_nil,fun _ _ => rfl⟩
  | cons p rest ih =>
    obtain ⟨hfr,hnodup⟩ := nodup_cons.mp hnodup
    obtain ⟨⟨chains₁,result⟩,hone,hmap⟩ := Option.bind_eq_some_iff.mp hok
    obtain ⟨⟨chains₂,failed⟩,hrs,heq⟩ := Option.map_eq_some_iff.mp hmap
    simp only [Prod.mk.injEq,Bool.or_eq_false_iff] at heq
    obtain ⟨rfl,hres,rfl⟩ := heq
    obtain ⟨hall,hot⟩ := ih hnodup hrs
    unfold invalidateBlock at hone
    cases hc : chains p.chainID with
    | none =>
      rw [hc] at hone
      cases hone
      cases hres
    | some c =>
      rw [hc] at hone
      obtain ⟨⟨c',r⟩,hinv,heq⟩ := Option.map_eq_some_iff.mp hone
      obtain ⟨rfl,rfl⟩ := heq
      cases r with
      | error err => cases hres
      | ok b =>
        have hp : chains₂ p.chainID = some c' := by rw [hot _ hfr,Function.update_self]
        constructor
        · intro q hq
          rcases mem_cons.mp hq with rfl | hq
          · exact ⟨c,c',b,hc,hp,hinv⟩
          have hne : q.chainID ≠ p.chainID := by
            intro h
            exact hfr (h ▸ mem_map_of_mem hq)
          obtain ⟨d,d',b',hd,hd',hq'⟩ := hall q hq
          rw [Function.update_of_ne hne] at hd
          exact ⟨d,d',b',hd,hd',hq'⟩
        · intro chainID hnot
          simp only [map_cons,mem_cons,not_or] at hnot
          rw [hot _ hnot.2,Function.update_of_ne hnot.1]

theorem invalidations_chains (r : Result) :
    (r.invalidations.map PendingInvalidation.chainID).Perm (r.invalidHeads.map Prod.fst) := by
  refine ((mergeSort_perm _ _).map PendingInvalidation.chainID).trans ?_
  rw [map_map]
  exact .rfl

theorem mem_invalidations (h : (chainID,head) ∈ r.invalidHeads) :
    ⟨chainID,head.blockID,r.timestamp,head.stateRoot,head.messagePasserStorageRoot⟩
      ∈ r.invalidations :=
  mem_mergeSort.mpr (mem_map.mpr ⟨_,h,rfl⟩)

/-- No chain is paused, and no invalidated block is canonical. -/
structure Chains.Settled (hashOf : Payload → Hash) (chains : Chains) (result : Option Result) :
    Prop where
  running : ∀ chainID c,chains chainID = some c → c.pause = false
  dropped : ∀ r ∈ result,∀ chainID head c,(chainID,head) ∈ r.invalidHeads →
    chains chainID = some c → c.Dropped hashOf head.blockID

/-- Every invalidated block is in use in its chain and can be read. A transition without a result
does nothing, so the chains run already. -/
def Chains.Usable (hashOf : Payload → Hash) (chains : Chains)
    (scripts : ChainID → InteropChain.InvalidateScript) : Option Result → Prop
  | none => ∀ chainID c,chains chainID = some c → c.pause = false
  | some r => ∀ chainID head c,(chainID,head) ∈ r.invalidHeads → chains chainID = some c →
      c.Uses hashOf head.blockID (scripts chainID)

theorem applied_invalid {chains₁ : Chains}
    (hok : invalidateBlocks hashOf scripts r.invalidations chains.pauseAndStopVNs
      = some (chains₁,false)) (hhead : (chainID,head) ∈ r.invalidHeads) :
    ∃ c c' b record,chains chainID = some c ∧ chains₁.resumeOthers r chainID = some c' ∧
      record.payloadHash = head.blockID.hash ∧
      c.pauseAndStopVN.invalidateBlock hashOf head.blockID.number record (scripts chainID)
        = some (c',.ok b) := by
  have hnd := (invalidations_chains r).nodup_iff.mpr r.chains_nodup
  obtain ⟨hall,_⟩ := invalidateBlocks_ok hnd hok
  obtain ⟨c₀,c',b,hc₀,hc',hinv⟩ := hall _ (mem_invalidations hhead)
  obtain ⟨c,hc,rfl⟩ := Option.map_eq_some_iff.mp hc₀
  have hmem : chainID ∈ r.invalidHeads.map Prod.fst := mem_map.mpr ⟨_,hhead,rfl⟩
  refine ⟨c,c',b,_,hc,?_,rfl,hinv⟩
  simp [Chains.resumeOthers,hc',if_pos hmem]

/-- A transition that is cleared leaves every chain running and no invalidated block canonical iff
each of these was still in use and readable when it was applied. -/
theorem Chains.cleared_settles_iff {chains' : Chains} {result : Option Result} {clearFails : Bool}
    (hsound : ∀ chainID c,chains chainID = some c → c.Sound hashOf)
    (hcleared : applyInvalidation hashOf scripts chains result clearFails = some (chains',.ok ())) :
    chains'.Settled hashOf result ↔ chains.Usable hashOf scripts result := by
  cases result with
  | none =>
    obtain ⟨rfl,_⟩ := Prod.mk.inj (Option.some.inj hcleared)
    constructor
    · intro h
      exact h.running
    · intro h
      exact ⟨h,fun r hr => nomatch hr⟩
  | some r =>
    obtain ⟨⟨chains₁,failedAny⟩,hok,heq⟩ := Option.map_eq_some_iff.mp hcleared
    simp only [Prod.mk.injEq] at heq
    obtain ⟨rfl,hcn⟩ := heq
    cases failedAny with
    | true => cases hcn
    | false =>
      constructor
      · intro h chainID head c hhd hc
        obtain ⟨c₀,c',b,record,hc₀,hc',hrecord,hinv⟩ := applied_invalid hok hhd
        cases hc₀.symm.trans hc
        -- a chain that is not rewound keeps the pause of the freeze
        by_contra hnot
        have hnot' : ¬ c.pauseAndStopVN.Uses hashOf head.blockID (scripts chainID) := hnot
        have hpause := invalidateBlock_not_uses hrecord hnot' hinv
        rw [h.running chainID c' hc'] at hpause
        cases hpause
      intro h
      have hdo : ∀ chainID head c',(chainID,head) ∈ r.invalidHeads →
          chains₁.resumeOthers r chainID = some c' →
          c'.pause = false ∧ c'.Dropped hashOf head.blockID := by
        intro chainID head c' hhd hc'
        obtain ⟨c,c₁,b,record,hc,hc₁,hrecord,hinv⟩ := applied_invalid hok hhd
        cases hc₁.symm.trans hc'
        have hs : c.pauseAndStopVN.Sound hashOf :=
          ⟨(hsound chainID c hc).wf,(hsound chainID c hc).follows⟩
        have huses := h chainID head c hhd hc
        exact invalidateBlock_uses hs hrecord huses hinv
      constructor
      · intro chainID c' hc'
        by_cases hmem : chainID ∈ r.invalidHeads.map Prod.fst
        · obtain ⟨⟨_,head⟩,hhd,rfl⟩ := mem_map.mp hmem
          exact (hdo _ head c' hhd hc').1
        obtain ⟨c₁,_,rfl⟩ := Option.map_eq_some_iff.mp hc'
        rw [if_neg hmem]
        rfl
      · intro r' hr' chainID head c' hhd hc'
        cases hr'
        exact (hdo chainID head c' hhd hc').2

/-! Two chains, of which the first has an invalid block 2. -/

open Proofs.Config (sampleConfig)

def sampleChains (head : UInt8) : Chains
  | 1 => some ⟨true,some { sampleRewindEngine with unsafeHead := .fill 32 head },some sampleConfig,
      some fun _ => [],false,false⟩
  | 2 => some ⟨true,some sampleRewindEngine,some sampleConfig,some fun _ => [],false,false⟩
  | _ => none

def sampleResult : Result where
  timestamp := 5
  l1Inclusion := ⟨.fill 32 7,7⟩
  l2Heads _ := some ⟨.fill 32 12,2⟩
  invalidHeads := [(1,⟨⟨.fill 32 12,2⟩,.fill 32 1,.fill 32 2⟩)]
  chains_nodup := by decide

def cleanScript : InteropChain.InvalidateScript := ⟨false,none,⟨false,[⟨cleanCalls,false⟩]⟩⟩

theorem sampleRewindEngine_follows (head : Hash) :
    Follows sampleConfig { sampleRewindEngine with unsafeHead := head } where
  blockTime := by decide
  time h p hp _ := by
    have hm := (sample_known hp).1
    simp only [samplePayloads,mem_cons,not_mem_nil,or_false] at hm
    rcases hm with rfl | rfl | rfl <;> decide

theorem sampleChains_sound {head : UInt8} (hhead : head = 11 ∨ head = 12)
    {c : InteropChain} (hc : sampleChains head chainID = some c) : c.Sound sampleDigest := by
  have hwf : Engine.WellFormed sampleDigest
      { sampleRewindEngine with unsafeHead := .fill 32 head } :=
    ⟨sampleRewindEngine_wf.hash,sampleRewindEngine_wf.parent,by rcases hhead with rfl | rfl <;> decide,
      sampleRewindEngine_wf.safeHead,sampleRewindEngine_wf.finalizedHead⟩
  unfold sampleChains at hc
  split at hc
  · cases hc
    constructor
    · intro e he
      cases he
      exact hwf
    intro e cfg he hcfg
    cases he
    cases hcfg
    exact sampleRewindEngine_follows _
  · cases hc
    constructor
    · intro e he
      cases he
      exact sampleRewindEngine_wf
    intro e cfg he hcfg
    cases he
    cases hcfg
    exact sampleRewindEngine_follows _
  · cases hc

theorem sample_applied (head : UInt8) :
    applyInvalidation sampleDigest (fun _ => cleanScript) (sampleChains head) (some sampleResult)
        false
      = (invalidateBlocks sampleDigest (fun _ => cleanScript)
          [⟨1,⟨.fill 32 12,2⟩,5,.fill 32 1,.fill 32 2⟩] (sampleChains head).pauseAndStopVNs).map
        fun (chains,failedAny) => (chains.resumeOthers sampleResult,
          if failedAny then .error .invalidationsFailed else .ok ()) := by
  have hsort : sampleResult.invalidations = [⟨1,⟨.fill 32 12,2⟩,5,.fill 32 1,.fill 32 2⟩] :=
    mergeSort_singleton _
  unfold applyInvalidation
  simp [hsort,↓reduceIte]

/-- The chain that uses the block is rewound and both chains run again. -/
theorem used_block_settles :
    ∃ chains',applyInvalidation sampleDigest (fun _ => cleanScript) (sampleChains 12)
        (some sampleResult) false = some (chains',.ok ()) ∧
      chains'.Settled sampleDigest (some sampleResult) := by
  have happlied := (sample_applied 12).trans rfl
  refine ⟨_,happlied,?_⟩
  refine (Chains.cleared_settles_iff (fun _ _ => sampleChains_sound (.inr rfl)) happlied).mpr ?_
  intro chainID head c hhd hc
  cases mem_singleton.mp hhd
  cases hc
  exact ⟨rfl,_,samplePayload 2 11 12,rfl,by decide,by decide⟩

/-- The chain was already rewound by an earlier application: it stays paused. -/
theorem rewound_chain_stays_paused :
    ∃ chains',applyInvalidation sampleDigest (fun _ => cleanScript) (sampleChains 11)
        (some sampleResult) false = some (chains',.ok ()) ∧
      ¬ chains'.Settled sampleDigest (some sampleResult) := by
  refine ⟨_,(sample_applied 11).trans rfl,?_⟩
  intro h
  have hpause := h.running 1 _ rfl
  cases hpause

end OpStack.Supernode
