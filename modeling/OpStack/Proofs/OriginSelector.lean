import OpStack.Derive.Batches
import OpStack.Proofs.Config
import OpStack.Sequencing.OriginSelector

namespace OpStack.Proofs.OriginSelector
open Lib Eth Rollup Derive Sequencing Proofs.Config L1OriginSelector

/-- The L1 blocks on all branches, each known by its hash and one above its parent. Their times are
far from where signed numbers wrap around. -/
structure L1World where
  block : L1BlockRef → Prop
  unique : ∀ {a b},block a → block b → a.hash = b.hash → a = b
  nonzero : ∀ {a},block a → a.hash ≠ .fill 32 0
  child : ∀ {a b},block a → block b → b.parentHash = a.hash →
    b.number.toNat = a.number.toNat + 1
  time : ∀ {a},block a → a.time.toNat < 2 ^ 62

namespace L1World
variable (w : L1World)

def Child (a b : L1BlockRef) : Prop := w.block b ∧ b.parentHash = a.hash

def Maybe (b : L1BlockRef) : Prop := b = .zero ∨ w.block b

/-- All that the L1 node answers with are L1 blocks, though not always the ones asked for. -/
def Answers {α : Type} (l1 : α → Fetched L1BlockRef) : Prop :=
  ∀ x b,l1 x = .found b → w.block b

variable {w} {b : L1BlockRef}

theorem ne_zero (h : w.block b) : b ≠ .zero := by
  intro hz
  exact w.nonzero h (congrArg L1BlockRef.hash hz)

theorem Maybe.block (h : w.Maybe b) (hne : b ≠ .zero) : w.block b := h.resolve_left hne

end L1World

inductive Step (w : L1World) (los : L1OriginSelector) : L1OriginSelector → Prop where
  | current {l1 : Hash → Fetched L1BlockRef} {l2Head : L2BlockRef} {los' : L1OriginSelector} :
      w.Answers l1 → los.currentAndNextOrigin l1 l2Head = .ok los' → Step w los los'
  | next {b : L1BlockRef} : w.block b → Step w los (los.maybeSetNextOrigin b)
  | reset : Step w los los.reset
  | recoverMode (enabled : Bool) : Step w los { los with recoverMode := enabled }

structure Cached (w : L1World) (cfg : Config) (los : L1OriginSelector) : Prop where
  config : los.cfg = cfg
  current : w.Maybe los.currentOrigin
  next : w.Maybe los.nextOrigin

variable {w : L1World} {cfg : Config} {los los' : L1OriginSelector} {l2Head : L2BlockRef}
  {l1 : Hash → Fetched L1BlockRef}

theorem currentAndNextOrigin_cached (hl1 : w.Answers l1) (h : Cached w cfg los)
    (hok : los.currentAndNextOrigin l1 l2Head = .ok los') : Cached w cfg los' := by
  unfold currentAndNextOrigin at hok
  split at hok
  · cases hok
    exact h
  split at hok
  · cases hok
    exact ⟨h.config,h.next,.inl rfl⟩
  split at hok
  · rename_i b hb
    cases hok
    exact ⟨h.config,.inr (hl1 _ _ hb),.inl rfl⟩
  · cases hok
  · cases hok

theorem step_cached (h : Cached w cfg los) (hstep : Step w los los') : Cached w cfg los' := by
  cases hstep with
  | current hl1 hok => exact currentAndNextOrigin_cached hl1 h hok
  | next hb =>
    unfold maybeSetNextOrigin
    split
    · exact ⟨h.config,h.current,.inr hb⟩
    · exact h
  | reset => exact ⟨h.config,.inl rfl,.inl rfl⟩
  | recoverMode enabled => exact ⟨h.config,h.current,h.next⟩

theorem reaches_cached (h : Reaches (Step w) (newL1OriginSelector cfg) los) : Cached w cfg los :=
  h.invariant ⟨rfl,.inl rfl,.inl rfl⟩ fun _ _ hx hstep => step_cached hx hstep

variable {a b : UInt64}

theorem toInt64_toInt (ha : a.toNat < 2 ^ 63) : a.toInt64.toInt = a.toNat :=
  BitVec.toInt_eq_toNat_of_lt (x := a.toBitVec) (by
    have hnat : a.toBitVec.toNat = a.toNat := rfl
    omega)

theorem drift_toInt (ha : a.toNat < 2 ^ 62) (hb : b.toNat < 2 ^ 62) :
    (a.toInt64 - b.toInt64).toInt = (a.toNat : Int) - b.toNat := by
  rw [Int64.toInt_sub,toInt64_toInt (by omega),toInt64_toInt (by omega)]
  apply Int.bmod_eq_of_le <;> omega

theorem toInt64_nonneg (h : 0 ≤ a.toInt64.toInt) : a.toNat < 2 ^ 63 := by
  have hint : a.toInt64.toInt = a.toBitVec.toInt := rfl
  have hnat : a.toBitVec.toNat = a.toNat := rfl
  rw [hint,BitVec.toInt_eq_toNat_cond] at h
  split at h <;> omega

/-- Why an origin was chosen for a block at time `t` on a head with origin `c`. -/
inductive Chosen (cfg : Config) (t : UInt64) (c next : L1BlockRef) : L1BlockRef → Prop where
  | stay : next = .zero →
      t ≤ c.time + cfg.maxSequencerDriftAt c.time → Chosen cfg t c next c
  | before : next.parentHash = c.hash → t < next.time → Chosen cfg t c next c
  | adopt : next ≠ .zero → next.parentHash = c.hash → next.time ≤ t →
      Chosen cfg t c next next

variable {c next o : L1BlockRef} {auto : Bool}

theorem findL1OriginOfNextL2Block_chosen (hc : w.block c) (hnext : w.Maybe next)
    (ht : l2Head.time.toNat + cfg.blockTime.toNat < 2 ^ 62)
    (hct : c.time ≤ l2Head.time + cfg.blockTime)
    (h : findL1OriginOfNextL2Block cfg l2Head c next auto = .ok o) :
    Chosen cfg (l2Head.time + cfg.blockTime) c next o := by
  have htm : (l2Head.time + cfg.blockTime).toNat < 2 ^ 62 := by
    rw [UInt64.toNat_add]
    omega
  have hctime := w.time hc
  unfold findL1OriginOfNextL2Block at h
  rw [if_neg (L1World.ne_zero hc)] at h
  split at h
  · cases h
  split at h
  · cases h
  rename_i horp
  dsimp only at h
  split at h
  · rename_i hzero
    split at h
    · cases h
    split at h
    · cases h
    rename_i hdr
    cases h
    refine .stay hzero ?_
    rw [Int64.lt_iff_toInt_lt,drift_toInt htm hctime] at hdr
    rw [UInt64.le_iff_toNat_le] at hct ⊢
    have hmax := toInt64_nonneg (a := cfg.maxSequencerDriftAt c.time) (by omega)
    rw [toInt64_toInt hmax] at hdr
    rw [UInt64.toNat_add c.time]
    omega
  rename_i hne
  have hbk := hnext.block hne
  have hpar : next.parentHash = c.hash := by
    by_contra hp
    exact horp ⟨hne,hp⟩
  have hdr := drift_toInt htm (w.time hbk)
  split at h
  · rename_i hpos
    cases h
    refine .adopt hne hpar ?_
    rw [Int64.le_iff_toInt_le] at hpos
    rw [UInt64.le_iff_toNat_le]
    have hz : (0 : Int64).toInt = 0 := rfl
    omega
  rename_i hneg
  cases h
  refine .before hpar ?_
  rw [Int64.le_iff_toInt_le] at hneg
  rw [UInt64.lt_iff_toNat_lt]
  have hz : (0 : Int64).toInt = 0 := rfl
  omega

/-- A batch for the block that the sequencer builds on this origin, included in time: empty, or with
transactions a batch may carry where the transaction pool is let in. -/
structure Sequenced (cfg : Config) (recoverMode : Bool) (l2Head : L2BlockRef) (o : L1BlockRef)
    (inclusion : L1BlockRef) (batch : SingularBatch) : Prop where
  timestamp : batch.timestamp = l2Head.time + cfg.blockTime
  epochNum : batch.epochNum = o.number
  epochHash : batch.epochHash = o.hash
  parentHash : batch.parentHash = l2Head.hash
  window : inclusion.number.toNat ≤ o.number.toNat + cfg.seqWindowSize.toNat
  transactions : batch.transactions = [] ∨
    (noTxPool cfg recoverMode (l2Head.time + cfg.blockTime) o = false ∧ ∀ tx ∈ batch.transactions,
        forbiddenTx (cfg.isIsthmus (l2Head.time + cfg.blockTime)) tx = false)

variable {recoverMode : Bool} {n inclusion : L1BlockRef} {batch : SingularBatch}

/-- The transactions pass, and there are none where the code wants none. -/
theorem Sequenced.passes (h : Sequenced cfg recoverMode l2Head o inclusion batch) :
    batch.transactions.any (forbiddenTx (cfg.isIsthmus batch.timestamp)) = false ∧
    (batch.transactions ≠ [] → (cfg.isActivationBlockForFork .jovian batch.timestamp ||
        cfg.isActivationBlockForFork .karst batch.timestamp ||
        cfg.isActivationBlockForFork .interop batch.timestamp) = false ∧
      ¬ o.time + cfg.maxSequencerDriftAt o.time < batch.timestamp) := by
  rcases h.transactions with hnil | ⟨hpool,htxs⟩
  · simp [hnil]
  rw [← h.timestamp] at hpool htxs
  constructor
  · simpa using htxs
  simp only [noTxPool,Bool.or_eq_false_iff,decide_eq_false_iff_not] at hpool
  simp [hpool]

theorem checkOnOrigin_accept (h : Sequenced cfg recoverMode l2Head o inclusion batch)
    (htime : o.time ≤ batch.timestamp)
    (hdrift : batch.transactions = [] → o.time + cfg.maxSequencerDriftAt o.time < batch.timestamp →
      checkDrift [c,n] c o batch = none) :
    checkOnOrigin cfg [c,n] c o batch = .accept := by
  obtain ⟨htxs,hnonempty⟩ := h.passes
  unfold checkOnOrigin
  rw [if_neg (not_not.mpr h.epochHash),if_neg (UInt64.not_lt.mpr htime)]
  by_cases hnil : batch.transactions = []
  · rw [if_neg (by simp [hnil])]
    by_cases hmax : o.time + cfg.maxSequencerDriftAt o.time < batch.timestamp
    · simp [hdrift hnil hmax,htxs]
    · simp [hmax,htxs]
  · obtain ⟨hact,hmax⟩ := hnonempty hnil
    rw [if_neg (by rw [hact]; simp)]
    simp [hmax,htxs]

theorem checkSingularBatch_chosen (hc : w.block c) (hn : w.Child c n)
    (hct : c.time ≤ l2Head.time + cfg.blockTime)
    (hchosen : Chosen cfg (l2Head.time + cfg.blockTime) c next o) (hnext : next ≠ .zero → n = next)
    (hb : Sequenced cfg recoverMode l2Head o inclusion batch)
    (hbound : o.number.toNat + cfg.seqWindowSize.toNat < 2 ^ 64) :
    checkSingularBatch cfg [c,n] l2Head batch inclusion = .accept := by
  have hwin : ¬ o.number + cfg.seqWindowSize < inclusion.number := by
    have hle := hb.window
    rw [UInt64.lt_iff_toNat_lt,UInt64.toNat_add]
    omega
  have hcd := w.child hc hn.1 hn.2
  have hts := hb.timestamp
  have hsta : ∀ {b},batchOriginOf [c,n] c o.number = .found b →
      checkSingularBatch cfg [c,n] l2Head batch inclusion = checkOnOrigin cfg [c,n] c b batch := by
    intro b hor
    unfold checkSingularBatch
    simp [hts,hb.parentHash,hb.epochNum,hwin,hor]
  cases hchosen with
  | stay hz hle =>
    have hor : batchOriginOf [c,n] c c.number = .found c := by simp [batchOriginOf]
    rw [hsta hor]
    refine checkOnOrigin_accept hb (hts ▸ hct) ?_
    intro _ hmax
    rw [hts] at hmax
    exact absurd hle (UInt64.not_le.mpr hmax)
  | before hpar hlt =>
    have hor : batchOriginOf [c,n] c c.number = .found c := by simp [batchOriginOf]
    rw [hsta hor]
    refine checkOnOrigin_accept hb (hts ▸ hct) ?_
    intro hnil _
    have hne : next ≠ .zero := by
      rintro rfl
      exact absurd hlt (Nat.not_lt_zero _)
    have hnot : ¬ n.time ≤ batch.timestamp := by
      rw [hnext hne,hts]
      exact UInt64.not_le.mpr hlt
    simp [checkDrift,hnil,hnot]
  | adopt hne hpar hle =>
    obtain rfl := hnext hne
    have hnum : n.number = c.number + 1 := by
      have hone : (1 : UInt64).toNat = 1 := rfl
      refine UInt64.toNat_inj.mp ?_
      rw [UInt64.toNat_add]
      omega
    have hadv : c.number < n.number := by
      rw [UInt64.lt_iff_toNat_lt]
      omega
    have hor : batchOriginOf [c,n] c n.number = .found n := by
      unfold batchOriginOf
      rw [if_neg (UInt64.not_lt.mpr (UInt64.le_of_lt hadv)),if_neg (UInt64.ne_of_lt hadv).symm,
        if_pos hnum]
      rfl
    rw [hsta hor]
    refine checkOnOrigin_accept hb (hts ▸ hle) ?_
    intro hnil _
    simp [checkDrift,hnil,UInt64.ne_of_lt hadv]

variable {byHash : Hash → Fetched L1BlockRef} {byNumber : UInt64 → Fetched L1BlockRef}

theorem current_eq (hc : w.block c) (horigin : l2Head.l1Origin = c.id)
    (hlos : Cached w cfg los) {next o : L1BlockRef} {auto : Bool}
    (h : findL1OriginOfNextL2Block cfg l2Head los.currentOrigin next auto = .ok o) :
    los.currentOrigin = c := by
  have hhs : l2Head.l1Origin.hash = c.hash := by
    rw [horigin]
    rfl
  unfold findL1OriginOfNextL2Block at h
  split at h
  · cases h
  rename_i hne
  split at h
  · cases h
  rename_i heq
  rw [hhs] at heq
  exact (w.unique hc (hlos.current.block hne) (not_not.mp heq)).symm

theorem findL1Origin_chosen (hbyHash : w.Answers byHash) (hbyNumber : w.Answers byNumber)
    (hlos : Cached w cfg los) (hc : w.block c) (horigin : l2Head.l1Origin = c.id)
    (ht : l2Head.time.toNat + cfg.blockTime.toNat < 2 ^ 62)
    (hct : c.time ≤ l2Head.time + cfg.blockTime) {sel : L1OriginSelector.Selection}
    (h : los.findL1Origin byHash byNumber l2Head = .ok sel) : w.Maybe sel.nextOrigin ∧
      Chosen cfg (l2Head.time + cfg.blockTime) c sel.nextOrigin sel.origin := by
  obtain ⟨los₁,hlos₁,h⟩ := of_bind_ok h
  have hcached := currentAndNextOrigin_cached hbyHash hlos hlos₁
  have hcfg := hcached.config
  -- the three calls that may return an origin differ in the next origin they are given
  have hca : ∀ {next o auto},w.Maybe next →
      findL1OriginOfNextL2Block los₁.cfg l2Head los₁.currentOrigin next auto = .ok o →
      Chosen cfg (l2Head.time + cfg.blockTime) c next o := by
    intro next o auto hnx hca
    rw [hcfg] at hca
    rw [current_eq hc horigin hcached hca] at hca
    exact findL1OriginOfNextL2Block_chosen hc hnx ht hct hca
  dsimp only at h
  split at h
  · rename_i o hfst
    cases h
    exact ⟨hcached.next,hca hcached.next hfst⟩
  · split at h
    · rename_i next hfd
      obtain ⟨o,hsec,h⟩ := of_bind_ok h
      cases h
      have hnx : w.Maybe next := .inr (hbyNumber _ _ hfd)
      exact ⟨hnx,hca hnx hsec⟩
    · split at h
      · obtain ⟨o,hsec,h⟩ := of_bind_ok h
        cases h
        exact ⟨.inl rfl,hca (.inl rfl) hsec⟩
      · cases h
    · cases h
  · cases h

/-- An origin that is found is that of the head or a child of it, and derivation accepts the batches
of the sequencer with it, as long as the end of the window does not overflow. -/
theorem findL1Origin_accepted (w : L1World) (cfg : Config) (los : L1OriginSelector)
    (hlos : Reaches (Step w) (newL1OriginSelector cfg) los) (byHash : Hash → Fetched L1BlockRef)
    (hbyHash : w.Answers byHash) (byNumber : UInt64 → Fetched L1BlockRef)
    (hbyNumber : w.Answers byNumber) (l2Head : L2BlockRef) (c : L1BlockRef) (hc : w.block c)
    (horigin : l2Head.l1Origin = c.id) (ht : l2Head.time.toNat + cfg.blockTime.toNat < 2 ^ 62)
    (hct : c.time ≤ l2Head.time + cfg.blockTime) (sel : L1OriginSelector.Selection)
    (h : los.findL1Origin byHash byNumber l2Head = .ok sel) :
    (sel.origin = c ∨ w.Child c sel.origin) ∧
    ∀ n inclusion batch recoverMode,w.Child c n → (sel.nextOrigin ≠ .zero → n = sel.nextOrigin) →
      Sequenced cfg recoverMode l2Head sel.origin inclusion batch →
      sel.origin.number.toNat + cfg.seqWindowSize.toNat < 2 ^ 64 →
      checkSingularBatch cfg [c,n] l2Head batch inclusion = .accept := by
  obtain ⟨hnx,hchosen⟩ :=
    findL1Origin_chosen hbyHash hbyNumber (reaches_cached hlos) hc horigin ht hct h
  obtain ⟨origin,nextOrigin,selector⟩ := sel
  constructor
  · cases hchosen with
    | stay => exact .inl rfl
    | before => exact .inl rfl
    | adopt hne hpar => exact .inr ⟨hnx.block hne,hpar⟩
  · intro n inclusion batch recoverMode hn hused hb hbd
    exact checkSingularBatch_chosen hc hn hct hchosen hused hb hbd

def l1Zero : L1BlockRef := ⟨hashOf 1,0,hashOf 9,0⟩
def l1One : L1BlockRef := ⟨hashOf 5,1,hashOf 1,12⟩

def sampleWorld : L1World where
  block b := b = l1Zero ∨ b = l1One
  unique := by
    rintro a b (rfl | rfl) (rfl | rfl) h
    · rfl
    · revert h
      decide +kernel
    · revert h
      decide +kernel
    · rfl
  nonzero := by
    rintro a (rfl | rfl)
    · decide +kernel
    · decide +kernel
  child := by
    rintro a b (rfl | rfl) (rfl | rfl) h
    · revert h
      decide +kernel
    · rfl
    · revert h
      decide +kernel
    · revert h
      decide +kernel
  time := by
    rintro a (rfl | rfl)
    · decide +kernel
    · decide +kernel

def sampleHead : L2BlockRef := ⟨hashOf 2,5,hashOf 8,10,l1Zero.id,5⟩

def answerHash (h : Hash) : Fetched L1BlockRef :=
  if h = l1Zero.hash then .found l1Zero else .notFound

theorem answerHash_answers : sampleWorld.Answers answerHash := by
  intro h b hb
  unfold answerHash at hb
  split at hb
  · exact .inl (Fetched.found.inj hb).symm
  · cases hb

theorem noAnswer_answers {α : Type} : sampleWorld.Answers fun _ : α => .notFound := by
  nofun

def sampleSelector (cfg : Config) : L1OriginSelector := ⟨cfg,false,l1Zero,l1One⟩

variable (cfg : Config)

theorem sample_reaches :
    Reaches (Step sampleWorld) (newL1OriginSelector cfg) (sampleSelector cfg) := by
  have hcurrent : Step sampleWorld (newL1OriginSelector cfg) ⟨cfg,false,l1Zero,.zero⟩ := by
    refine @Step.current _ _ _ sampleHead _ answerHash_answers ?_
    have hne : sampleHead.l1Origin ≠ L1BlockRef.zero.id := by decide +kernel
    rfl
  have hnx : Step sampleWorld ⟨cfg,false,l1Zero,.zero⟩ (sampleSelector cfg) :=
    @Step.next sampleWorld _ l1One (.inr rfl)
  exact .tail (.single hcurrent) hnx

theorem sample_selects (htime : cfg.blockTime = 2) :
    (sampleSelector cfg).findL1Origin answerHash (fun _ => .notFound) sampleHead =
      .ok ⟨l1One,l1One,sampleSelector cfg⟩ := by
  have hchoice : findL1OriginOfNextL2Block cfg sampleHead l1Zero l1One false = .ok l1One := by
    have hz : l1Zero ≠ .zero := by decide +kernel
    have hone : l1One ≠ .zero := by decide +kernel
    unfold findL1OriginOfNextL2Block
    have hhs : ¬ sampleHead.l1Origin.hash ≠ l1Zero.hash := fun h => h rfl
    have hpar : ¬ (l1One ≠ .zero ∧ l1One.parentHash ≠ l1Zero.hash) := fun h => h.2 rfl
    rw [if_neg hz,if_neg hhs,if_neg hpar,htime]
    exact if_neg hone
  have hkn : (sampleSelector cfg).currentAndNextOrigin answerHash sampleHead =
      .ok (sampleSelector cfg) := rfl
  unfold findL1Origin
  rw [hkn]
  simp [sampleSelector,hchoice]

def sampleInclusion : L1BlockRef := ⟨hashOf 12,2,hashOf 5,24⟩

def sampleBatch : SingularBatch := ⟨hashOf 2,1,hashOf 5,12,[[2,7],[1]]⟩

theorem sample_child : sampleWorld.Child l1Zero l1One := ⟨.inr rfl,rfl⟩

theorem sample_sequenced (htime : cfg.blockTime = 2) (hwindow : 1 ≤ cfg.seqWindowSize.toNat)
    (hpool : noTxPool cfg false 12 l1One = false) (hfork : cfg.isIsthmus 12 = false) :
    Sequenced cfg false sampleHead l1One sampleInclusion sampleBatch where
  timestamp := by rw [htime]; rfl
  epochNum := rfl
  epochHash := rfl
  parentHash := rfl
  window := by
    change 2 ≤ 1 + cfg.seqWindowSize.toNat
    omega
  transactions := by
    have htime' : sampleHead.time + cfg.blockTime = 12 := by rw [htime]; rfl
    rw [htime',hfork]
    exact .inr ⟨hpool,by decide⟩

/-- The batch has two transactions, and takes the next origin. -/
theorem findL1Origin_accepted_sample :
    checkSingularBatch sampleConfig [l1Zero,l1One] sampleHead sampleBatch sampleInclusion =
      .accept :=
  (findL1Origin_accepted sampleWorld sampleConfig (sampleSelector sampleConfig)
    (sample_reaches sampleConfig) answerHash answerHash_answers _ noAnswer_answers sampleHead
    l1Zero (.inl rfl) rfl (by decide +kernel) (by decide +kernel) _
    (sample_selects sampleConfig rfl)).2 l1One sampleInclusion sampleBatch false sample_child
    (fun _ => rfl) (sample_sequenced sampleConfig rfl (by decide +kernel) (by decide +kernel) rfl)
    (by decide +kernel)

/-- A window so long that its end wraps around: `Check` accepts it. -/
def endlessConfig : Config := { sampleConfig with seqWindowSize := 18446744073709551615 }

/-- The batch is one L1 block after its origin, but its window is taken for expired. -/
theorem findL1Origin_dropped : endlessConfig.check = .ok () ∧
    Reaches (Step sampleWorld) (newL1OriginSelector endlessConfig) (sampleSelector endlessConfig) ∧
    (sampleSelector endlessConfig).findL1Origin answerHash (fun _ => .notFound) sampleHead =
      .ok ⟨l1One,l1One,sampleSelector endlessConfig⟩ ∧
    sampleWorld.Child l1Zero l1One ∧
    Sequenced endlessConfig false sampleHead l1One sampleInclusion sampleBatch ∧
    checkSingularBatch endlessConfig [l1Zero,l1One] sampleHead sampleBatch sampleInclusion =
      .drop :=
  ⟨by decide +kernel,sample_reaches endlessConfig,sample_selects endlessConfig rfl,sample_child,
    sample_sequenced endlessConfig rfl (by decide +kernel) (by decide +kernel) rfl,
    by decide +kernel⟩

end OpStack.Proofs.OriginSelector
