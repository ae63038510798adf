import OpStack.Proofs.PipelineStages

namespace OpStack.Proofs.ResetRewind
open Lib Eth Rollup Derive Derive.DerivationPipeline Proofs.Config Relation.ReflTransGen Config
open Option UInt64

section
variable (cfg : Config) (env : StepEnv)

def Parent (b p : L2BlockRef) : Prop :=
  cfg.genesis.l2.number < b.number ∧ env.l2BlockRefByHash b.parentHash = some p

abbrev Ancestor : L2BlockRef → L2BlockRef → Prop := Reaches (Parent cfg env)

/-- The L1 chain `canon` and the L2 chain below the safe head, as the nodes serve them. -/
structure Chains (canon : L1BlockRef → Prop) (safe : L2BlockRef) : Prop where
  times : ∀ a b,canon a → canon b → a.number ≤ b.number → a.time ≤ b.time
  origins : ∀ b,Ancestor cfg env safe b → ∀ o,env.l1.blockByHash b.l1Origin.hash = some o →
    canon o ∧ o.number = b.l1Origin.number
  links : ∀ b p,Ancestor cfg env safe b → Parent cfg env b p →
    b.number.toNat = p.number.toNat + 1 ∧ (b.l1Origin.number.toNat = p.l1Origin.number.toNat ∨
        b.l1Origin.number.toNat = p.l1Origin.number.toNat + 1)
  start : cfg.genesis.l2.number ≤ safe.number

/-- The walk back sees the block as old enough, by the timeout at the block's own origin `o`. -/
def OldEnough (safe b : L2BlockRef) (o : L1BlockRef) : Prop :=
  b.l1Origin.number + cfg.channelTimeoutAt o.time ≤ safe.l1Origin.number

/-- Every channel that was opened before L1 block `p` is timed out at the L1 blocks from the safe
head's origin on, by the timeout there. -/
def TimedOutFrom (canon : L1BlockRef → Prop) (safe : L2BlockRef) (p : UInt64) : Prop :=
  ∀ o,canon o → safe.l1Origin.number ≤ o.number →
    p.toNat - 1 + (cfg.channelTimeoutAt o.time).toNat < o.number.toNat

def AtGenesis (safe : L2BlockRef) (p : UInt64) : Prop :=
  ∃ b,Ancestor cfg env safe b ∧ b.number = cfg.genesis.l2.number ∧ b.l1Origin.number = p

def RewindsFarEnough (canon : L1BlockRef → Prop) (safe : L2BlockRef) (p : L1BlockRef) : Prop :=
  AtGenesis cfg env safe p.number ∨ p.number ≤ cfg.genesis.l1.number ∨
    TimedOutFrom cfg canon safe p.number

/-- The timeout at a block's own origin does not stop the walk before the timeouts that the
readers apply allow it. -/
def TimeoutsAgree (canon : L1BlockRef → Prop) (safe : L2BlockRef) : Prop :=
  ∀ b o,Ancestor cfg env safe b → env.l1.blockByHash b.l1Origin.hash = some o →
    cfg.genesis.l1.number < b.l1Origin.number → ¬ AtGenesis cfg env safe b.l1Origin.number →
    OldEnough cfg safe b o → TimedOutFrom cfg canon safe b.l1Origin.number

def GraniteFrom (canon : L1BlockRef → Prop) (safe : L2BlockRef) : Prop :=
  ∀ l1,canon l1 → safe.l1Origin.number ≤ l1.number → cfg.isGranite l1.time = true

/-- The sum in the test does not wrap, unless it is that with the timeout before Granite and Granite
is active from the safe head's origin on; and a block on an origin before Granite lies a Granite
timeout below every Granite block from there on. -/
def KeepsTimeout (canon : L1BlockRef → Prop) (safe b : L2BlockRef) (o : L1BlockRef) : Prop :=
  (b.l1Origin.number.toNat + (cfg.channelTimeoutAt o.time).toNat < 2 ^ 64 ∨
    cfg.isGranite o.time = false ∧ GraniteFrom cfg canon safe) ∧
  (cfg.isGranite o.time = false → ∀ l1,canon l1 → safe.l1Origin.number ≤ l1.number →
    cfg.isGranite l1.time = true →
      b.l1Origin.number.toNat + channelTimeoutGranite.toNat ≤ l1.number.toNat)

def CrossesGranite (canon : L1BlockRef → Prop) (safe : L2BlockRef) : Prop :=
  ∀ b o,Ancestor cfg env safe b → env.l1.blockByHash b.l1Origin.hash = some o →
    cfg.genesis.l1.number < b.l1Origin.number → ¬ AtGenesis cfg env safe b.l1Origin.number →
    OldEnough cfg safe b o → KeepsTimeout cfg canon safe b o

end

section
variable {cfg : Config} {env : StepEnv} {canon : L1BlockRef → Prop} {safe : L2BlockRef}

variable {b : L2BlockRef} {fuel : Nat}

/-- Where the walk ends, and that it passes no block that is old enough. -/
theorem walkBack_ok {f : L2BlockRef} {o p : L1BlockRef}
    (ho : env.l1.blockByHash b.l1Origin.hash = some o)
    (h : walkBack cfg env safe.l1Origin fuel b o = some (.ok (f,p))) :
    Ancestor cfg env b f ∧ env.l1.blockByHash f.l1Origin.hash = some p ∧
      (f.number ≤ cfg.genesis.l2.number ∨ f.l1Origin.number ≤ cfg.genesis.l1.number ∨
        OldEnough cfg safe f p) ∧
      ∀ b' o',Ancestor cfg env b b' → env.l1.blockByHash b'.l1Origin.hash = some o' →
        OldEnough cfg safe b' o' → Ancestor cfg env f b' := by
  induction fuel generalizing b o with
  | zero => cases h
  | succ fuel ih =>
    unfold walkBack at h
    dsimp only at h
    split at h
    · rename_i hgo
      obtain ⟨hl2,-,htimeout⟩ := hgo
      split at h
      · cases h
      rename_i parent hpar
      split at h
      · cases h
      rename_i origin hor
      have hst : Parent cfg env b parent := ⟨hl2,hpar⟩
      obtain ⟨hf,hp,hsp,hfst⟩ := ih hor h
      refine ⟨.head hst hf,hp,hsp,?_⟩
      intro b' o' hb' ho' hold
      rcases cases_head hb' with rfl | ⟨parent',hst',hrs⟩
      · rw [ho] at ho'
        cases ho'
        exact absurd htimeout (UInt64.not_lt.mpr hold)
      · have heq := some.inj (hst'.2.symm.trans hpar)
        exact hfst b' o' (heq ▸ hrs) ho' hold
    · rename_i hsp
      cases h
      refine ⟨.refl,ho,?_,fun b' o' hb' _ _ => hb'⟩
      rw [not_and_or,not_and_or,UInt64.not_lt,UInt64.not_lt,UInt64.not_lt] at hsp
      exact hsp

theorem initialReset_success {dp dp' : DerivationPipeline}
    (h : initialReset cfg env fuel safe dp = some (dp',none)) :
    ∃ o f,env.l1.blockByHash safe.l1Origin.hash = some o ∧
      walkBack cfg env safe.l1Origin fuel safe o = some (.ok (f,dp'.origin)) := by
  unfold initialReset at h
  split at h
  · cases h
  rename_i o ho
  split at h
  · cases h
  · cases h
  rename_i f p hw
  split at h
  · cases h
  · cases h
    exact ⟨o,f,ho,hw⟩

theorem parent_unique : Relator.RightUnique (Parent cfg env) := by
  intro a b c hb hc
  exact some.inj (hb.2.symm.trans hc.2)

theorem genesis_ancestor {g : L2BlockRef} (hb : Ancestor cfg env safe b)
    (hg : Ancestor cfg env safe g) (hnum : g.number = cfg.genesis.l2.number) :
    Ancestor cfg env b g := by
  rcases total_of_right_unique parent_unique hb hg with h | h
  · exact h
  rcases cases_head h with rfl | ⟨p,hp,-⟩
  · exact .refl
  · exact absurd hp.1 (by rw [hnum]; exact UInt64.lt_irrefl _)

theorem channelTimeoutAt_le {t : UInt64} (h : channelTimeoutGranite ≤ cfg.channelTimeoutBedrock) :
    cfg.channelTimeoutAt t ≤ cfg.channelTimeoutBedrock := by
  unfold channelTimeoutAt
  split
  · exact h
  · exact UInt64.le_refl _

theorem channelTimeoutAt_eq {t t' : UInt64} (h : cfg.isGranite t = cfg.isGranite t') :
    cfg.channelTimeoutAt t = cfg.channelTimeoutAt t' := by
  rw [channelTimeoutAt,h,channelTimeoutAt]

theorem channelTimeoutAt_granite {t : UInt64} (h : cfg.isGranite t = true) :
    cfg.channelTimeoutAt t = channelTimeoutGranite := if_pos h

variable (hc : Chains cfg env canon safe)
include hc

theorem Chains.ancestor_le {b' : L2BlockRef} (hb : Ancestor cfg env safe b)
    (h : Ancestor cfg env b b') : b'.l1Origin.number ≤ b.l1Origin.number := by
  induction h with
  | refl => exact UInt64.le_refl _
  | tail hx hxy ih =>
    have := (hc.links _ _ (hb.trans hx) hxy).2
    rw [le_iff_toNat_le] at ih ⊢
    omega

theorem Chains.genesis_le (hb : Ancestor cfg env safe b) : cfg.genesis.l2.number ≤ b.number := by
  induction hb with
  | refl => exact hc.start
  | tail hx hxy =>
    have hlink := (hc.links _ _ hx hxy).1
    have hlt := lt_iff_toNat_lt.mp hxy.1
    rw [le_iff_toNat_le]
    omega

theorem rewinds_iff {dp dp' : DerivationPipeline}
    (h : initialReset cfg env fuel safe dp = some (dp',none)) :
    RewindsFarEnough cfg env canon safe dp'.origin ↔ TimeoutsAgree cfg env canon safe := by
  obtain ⟨o,f,ho,hw⟩ := initialReset_success h
  obtain ⟨hf,hp,hsp,hfst⟩ := walkBack_ok ho hw
  have hpnum := (hc.origins f hf _ hp).2
  constructor
  · intro hrewinds b o' hb ho' haf hgen hold
    -- a block that is old enough lies at or below the end of the walk
    have hle := hc.ancestor_le hf (hfst b o' hb ho' hold)
    rw [← hpnum] at hle
    rcases hrewinds with ⟨g,hg,hgnum,hgorigin⟩ | hl1 | htd
    · have hgle := hc.ancestor_le hb (genesis_ancestor hb hg hgnum)
      rw [hgorigin] at hgle
      exact absurd ⟨g,hg,hgnum,hgorigin.trans (UInt64.le_antisymm hgle hle)⟩ hgen
    · exact absurd (UInt64.le_trans hle hl1) (UInt64.not_le.mpr haf)
    intro l1 hl1 hfm
    have := htd l1 hl1 hfm
    have := le_iff_toNat_le.mp hle
    omega
  · intro hagree
    rcases hsp with hl2 | hl1 | hold
    · exact .inl ⟨f,hf,UInt64.le_antisymm hl2 (hc.genesis_le hf),hpnum.symm⟩
    · exact .inr (.inl (hpnum ▸ hl1))
    by_cases hgen : AtGenesis cfg env safe dp'.origin.number
    · exact .inl hgen
    by_cases hl1 : dp'.origin.number ≤ cfg.genesis.l1.number
    · exact .inr (.inl hl1)
    refine .inr (.inr ?_)
    rw [hpnum] at hgen hl1 ⊢
    exact hagree f dp'.origin hf hp (UInt64.not_le.mp hl1) hgen hold

/-- A reader applies the timeout of the candidate's own fork, or that of Granite to a candidate from
before it. -/
theorem timedOutFrom_iff {o l1 : L1BlockRef} (hb : Ancestor cfg env safe b)
    (ho : env.l1.blockByHash b.l1Origin.hash = some o)
    (hl1 : env.l1.blockByHash safe.l1Origin.hash = some l1)
    (haf : cfg.genesis.l1.number < b.l1Origin.number) (hold : OldEnough cfg safe b o) :
    TimedOutFrom cfg canon safe b.l1Origin.number ↔ KeepsTimeout cfg canon safe b o := by
  obtain ⟨hcan,hnum⟩ := hc.origins b hb o ho
  obtain ⟨hcans,hnums⟩ := hc.origins safe .refl l1 hl1
  have hble := hc.ancestor_le .refl hb
  have hpos := lt_iff_toNat_lt.mp haf
  have hlater : ∀ x,canon x → safe.l1Origin.number ≤ x.number → cfg.isGranite o.time = true →
      cfg.isGranite x.time = true := by
    intro x hx hfm hg
    exact active_mono (hc.times o x hcan hx (hnum ▸ UInt64.le_trans hble hfm)) hg
  constructor
  · intro htd
    -- a reader under the candidate's own fork keeps the sum below the reader's number
    have hsame : ∀ x,canon x → safe.l1Origin.number ≤ x.number →
        cfg.isGranite x.time = cfg.isGranite o.time →
          b.l1Origin.number.toNat + (cfg.channelTimeoutAt o.time).toNat < 2 ^ 64 := by
      intro x hx hfm hg
      have hlt := htd x hx hfm
      rw [channelTimeoutAt_eq hg] at hlt
      have := x.number.toNat_lt
      omega
    refine ⟨?_,?_⟩
    · cases hg : cfg.isGranite o.time with
      | true =>
        have hfm : safe.l1Origin.number ≤ l1.number := hnums ▸ UInt64.le_refl _
        exact .inl (hsame l1 hcans hfm ((hlater l1 hcans hfm hg).trans hg.symm))
      | false =>
        by_cases hall : GraniteFrom cfg canon safe
        · exact .inr ⟨rfl,hall⟩
        unfold GraniteFrom at hall
        push Not at hall
        obtain ⟨x,hx,hfm,hne⟩ := hall
        exact .inl (hsame x hx hfm ((Bool.not_eq_true _).mp hne |>.trans hg.symm))
    · intro _ x hx hfm hg
      have hlt := htd x hx hfm
      rw [channelTimeoutAt_granite hg] at hlt
      omega
  · rintro ⟨hsum,hcross⟩ x hx hfm
    have hsx := le_iff_toNat_le.mp hfm
    by_cases hg : cfg.isGranite x.time = cfg.isGranite o.time
    · rw [channelTimeoutAt_eq hg]
      rcases hsum with hlt | ⟨hno,hall⟩
      · unfold OldEnough at hold
        rw [le_iff_toNat_le,UInt64.toNat_add] at hold
        omega
      · rw [hall x hx hfm,hno] at hg
        cases hg
    · cases hgo : cfg.isGranite o.time with
      | true => exact absurd ((hlater x hx hfm hgo).trans hgo.symm) hg
      | false =>
        rw [hgo,Bool.not_eq_false] at hg
        have := hcross hgo x hx hfm hg
        rw [channelTimeoutAt_granite hg]
        omega

theorem timeoutsAgree_iff {l1 : L1BlockRef}
    (hl1 : env.l1.blockByHash safe.l1Origin.hash = some l1) :
    TimeoutsAgree cfg env canon safe ↔ CrossesGranite cfg env canon safe := by
  constructor
  · intro h b o hb ho haf hgen hold
    exact (timedOutFrom_iff hc hb ho hl1 haf hold).mp (h b o hb ho haf hgen hold)
  · intro h b o hb ho haf hgen hold
    exact (timedOutFrom_iff hc hb ho hl1 haf hold).mpr (h b o hb ho haf hgen hold)

theorem crossesGranite (h : channelTimeoutGranite ≤ cfg.channelTimeoutBedrock)
    (hmax : safe.l1Origin.number.toNat + cfg.channelTimeoutBedrock.toNat < 2 ^ 64) :
    CrossesGranite cfg env canon safe := by
  intro b o hb ho haf _ hold
  have hble := le_iff_toNat_le.mp (hc.ancestor_le .refl hb)
  have hmaxτ := le_iff_toNat_le.mp (channelTimeoutAt_le h (t := o.time))
  have hsum : b.l1Origin.number.toNat + (cfg.channelTimeoutAt o.time).toNat < 2 ^ 64 := by omega
  refine ⟨.inl hsum,?_⟩
  intro hno l1 _ hfm _
  have hτ : cfg.channelTimeoutAt o.time = cfg.channelTimeoutBedrock := by
    simp [channelTimeoutAt,hno]
  unfold OldEnough at hold
  rw [hτ] at hold hsum
  rw [le_iff_toNat_le] at hold h hfm
  rw [UInt64.toNat_add] at hold
  omega

theorem walkBack_returns (hb : Ancestor cfg env safe b) (hfuel : b.number.toNat < fuel)
    (o : L1BlockRef) : (walkBack cfg env safe.l1Origin fuel b o).isSome = true := by
  induction fuel generalizing b o with
  | zero => exact absurd hfuel (Nat.not_lt_zero _)
  | succ fuel ih =>
    unfold walkBack
    dsimp only
    split
    · rename_i hgo
      split
      · rfl
      rename_i parent hpar
      split
      · rfl
      have hst : Parent cfg env b parent := ⟨hgo.1,hpar⟩
      have := (hc.links b parent hb hst).1
      exact ih (hb.tail hst) (by omega) _
    · rfl

theorem initialReset_returns (hfuel : safe.number.toNat < fuel) (dp : DerivationPipeline) :
    (initialReset cfg env fuel safe dp).isSome = true := by
  unfold initialReset
  split
  · rfl
  rename_i o ho
  have hw := walkBack_returns hc .refl hfuel o
  split
  · rename_i hno
    rw [hno] at hw
    cases hw
  · rfl
  · split <;> rfl

end

/-- A reset returns, and goes back far enough for every channel still readable at the safe head's
origin exactly if no timeout is lost where Granite is crossed. None is where Granite shortens the
timeout. -/
theorem initialReset_rewinds (cfg : Config) (env : StepEnv) (canon : L1BlockRef → Prop)
    (safe : L2BlockRef) (hc : Chains cfg env canon safe) :
    (∀ fuel dp,safe.number.toNat < fuel → (initialReset cfg env fuel safe dp).isSome = true) ∧
    (∀ fuel dp dp',initialReset cfg env fuel safe dp = some (dp',none) →
      (RewindsFarEnough cfg env canon safe dp'.origin ↔ CrossesGranite cfg env canon safe)) ∧
    (Config.channelTimeoutGranite ≤ cfg.channelTimeoutBedrock →
      safe.l1Origin.number.toNat + cfg.channelTimeoutBedrock.toNat < 2 ^ 64 →
      CrossesGranite cfg env canon safe) := by
  refine ⟨fun _ dp hfuel => initialReset_returns hc hfuel dp,?_,crossesGranite hc⟩
  intro fuel dp dp' h
  obtain ⟨l1,-,hl1,-⟩ := initialReset_success h
  exact (rewinds_iff hc h).trans (timeoutsAgree_iff hc hl1)

open PipelineStages BatchStageExtension

theorem sampleL2_ancestor {cfg : Config} {head k : Nat} (hk : k < 100)
    (h : Ancestor cfg (sampleEnv head) (sampleL2 k) b) : ∃ j,j ≤ k ∧ b = sampleL2 j := by
  refine h.invariant (P := fun x => ∃ j,j ≤ k ∧ x = sampleL2 j) ⟨k,le_refl k,rfl⟩ ?_
  rintro x y ⟨j,hj,rfl⟩ ⟨-,hy⟩
  refine ⟨j - 1,by omega,?_⟩
  have hnum : numberOf (hashOf (99 + j)) = 99 + j := numberOf_hashOf (by omega)
  have hy' : some (sampleL2 (numberOf (hashOf (99 + j)) - 100)) = some y := hy
  rw [← some.inj hy']
  congr 1
  omega

theorem sampleEnv_chains {cfg : Config} {head k : Nat} (hhead : head < 100) (hk : k < 100)
    (hgenesis : cfg.genesis.l2.number = 0) :
    Chains cfg (sampleEnv head) sampleSource.block (sampleL2 k) where
  times := by
    rintro _ _ ⟨m,hm,rfl⟩ ⟨n,hn,rfl⟩ hle
    simp only [sampleChain,le_iff_toNat_le,toNat_ofNat'] at hle ⊢
    omega
  origins := by
    intro b hb o ho
    obtain ⟨j,hj,rfl⟩ := sampleL2_ancestor hk hb
    refine ⟨(sampleEnv_serves hhead).by_hash ho,?_⟩
    have hnum : numberOf (sampleL2 j).l1Origin.hash = j := numberOf_hashOf (by omega)
    simp only [sampleEnv,hnum] at ho
    split at ho
    · cases ho
      rfl
    · cases ho
  links := by
    intro b p hb hp
    obtain ⟨j,hj,rfl⟩ := sampleL2_ancestor hk hb
    have hlt := hp.1
    have hnum : numberOf (hashOf (99 + j)) = 99 + j := numberOf_hashOf (by omega)
    have hy : some (sampleL2 (numberOf (hashOf (99 + j)) - 100)) = some p := hp.2
    cases some.inj hy
    rw [lt_iff_toNat_lt] at hlt
    simp only [sampleL2,sampleChain,L1BlockRef.id,UInt64.toNat_ofNat'] at hlt ⊢
    omega
  start := by
    rw [hgenesis]
    exact Nat.zero_le _

def graniteConfig (channelTimeoutBedrock graniteTime : UInt64) : Config :=
  { sampleConfig with channelTimeoutBedrock, graniteTime := some graniteTime, holoceneTime := none }

/-- The walk goes back over the fork in block 30. -/
theorem initialReset_rewinds_sample :
    RewindsFarEnough (graniteConfig 60 40) (sampleEnv 80) sampleSource.block (sampleL2 70)
      (sampleChain.block 10) := by
  have hrun : (initialReset (graniteConfig 60 40) (sampleEnv 80) 100 (sampleL2 70)
      newDerivationPipeline).map (fun r => (r.1.origin,r.2)) =
        some (sampleChain.block 10,none) := by
    decide +kernel
  obtain ⟨⟨dp,e⟩,hdp,hobs⟩ := map_eq_some_iff.mp hrun
  obtain ⟨hor,rfl⟩ := Prod.mk.inj hobs
  obtain ⟨-,hiff,hagree⟩ := initialReset_rewinds (graniteConfig 60 40) (sampleEnv 80)
    sampleSource.block (sampleL2 70) (sampleEnv_chains (by decide) (by decide) rfl)
  rw [← hor]
  exact (hiff 100 _ dp hdp).mpr (hagree (by decide) (by decide))

/-- With a timeout of 2 before Granite and 50 after it, a reset to a safe head on L1 block 10 goes
back to block 8, but a channel opened in block 7 is readable until block 57. -/
theorem short_timeout_rewinds_too_little : (graniteConfig 2 19).check = .ok () ∧
    Chains (graniteConfig 2 19) (sampleEnv 20) sampleSource.block (sampleL2 10) ∧
    ∃ dp,initialReset (graniteConfig 2 19) (sampleEnv 20) 100 (sampleL2 10) newDerivationPipeline =
        some (dp,none) ∧
      dp.origin = sampleChain.block 8 ∧
      ¬ RewindsFarEnough (graniteConfig 2 19) (sampleEnv 20) sampleSource.block (sampleL2 10)
        dp.origin := by
  have hchs : Chains (graniteConfig 2 19) (sampleEnv 20) sampleSource.block (sampleL2 10) :=
    sampleEnv_chains (by decide) (by decide) rfl
  refine ⟨by decide,hchs,?_⟩
  have hrun : (initialReset (graniteConfig 2 19) (sampleEnv 20) 100 (sampleL2 10)
      newDerivationPipeline).map (fun r => (r.1.origin,r.2)) = some (sampleChain.block 8,none) := by
    decide +kernel
  obtain ⟨⟨dp,e⟩,hdp,hobs⟩ := map_eq_some_iff.mp hrun
  obtain ⟨hor,rfl⟩ := Prod.mk.inj hobs
  refine ⟨dp,hdp,hor,?_⟩
  rw [hor]
  rintro (⟨b,hb,hnum,hor⟩ | hl1 | htd)
  · obtain ⟨j,-,rfl⟩ := sampleL2_ancestor (by decide) hb
    have hsm := hor
    exact absurd (hnum.symm.trans hsm) (by decide)
  · exact absurd hl1 (by decide)
  · exact absurd (htd (sampleChain.block 10) ⟨10,by decide,rfl⟩ (by decide)) (by decide)

end OpStack.Proofs.ResetRewind
