import OpStack.Derive.SpanChannelOut
import OpStack.Proofs.Config
import OpStack.Proofs.SpanBatchRoundTrip

namespace OpStack.Proofs.SpanBuffer
open Lib Eth Derive RlpCodecs SpanBatchRoundTrip Config Derive.SpanBatchTxs SpanChannelOut
open List

abbrev Call := SingularBatch × UInt64

variable {codec : TxCodec} {chainID n : Nat} {raw : Bytes}

def TxAccepted (codec : TxCodec) (chainID : Nat) (raw : Bytes) : Prop :=
  (Derive.SpanBatchTxs.addTx codec chainID 0 {} raw).2 = none

instance : Decidable (TxAccepted codec chainID raw) := inferInstanceAs (Decidable (_ = none))

theorem addTx_error (codec : TxCodec) (chainID n : Nat) (t : Derive.SpanBatchTxs) (raw : Bytes) :
    (t.addTx codec chainID n raw).2 = (addTx codec chainID 0 {} raw).2 := by
  unfold addTx
  cases codec.unmarshalBinary raw with
  | none => rfl
  | some tx =>
    simp only
    by_cases hch : tx.isProtected = true ∧ tx.chainId ≠ chainID
    · rw [if_pos hch,if_pos hch]
    rw [if_neg hch,if_neg hch]
    cases convertVToYParity tx.rawSignatureValues.1 tx.type with
    | error e => rfl
    | ok bit =>
      simp only
      by_cases hbit : 1 < bit
      · rw [if_pos hbit,if_pos hbit]
      rw [if_neg hbit,if_neg hbit]
      cases SpanBatchTx.newSpanBatchTx tx with
      | error e => rfl
      | ok stx => rfl

def HasBits (bits n : Nat) : Prop := ∃ bs,bits = ofBits bs ∧ bs.length = n

theorem HasBits.setBit {bits : Nat} (h : HasBits bits n) (b : Bool) :
    HasBits (setBit bits n b) (n + 1) := by
  obtain ⟨bs,rfl,rfl⟩ := h
  exact ⟨bs ++ [b],setBit_ofBits bs b,by rw [length_append,length_singleton]⟩

theorem HasBits.encode {bits : Nat} (field : Field) (h : HasBits bits n) :
    ∃ bytes,encodeSpanBatchBits field n bits = .ok bytes := by
  obtain ⟨bs,rfl,rfl⟩ := h
  exact ⟨_,Proofs.SpanBatchTxs.encodeSpanBatchBits_ofBits field bs⟩

structure Sized (t : Derive.SpanBatchTxs) (n : Nat) : Prop where
  creation : HasBits t.contractCreationBits n
  yParity : HasBits t.yParityBits n
  legacy : HasBits t.protectedBits t.totalLegacyTxCount

variable {t t' : Derive.SpanBatchTxs} {raws : List Bytes} {b : SpanBatch}

theorem addTx_sized (h : t.addTx codec chainID n raw = (t',none)) (hs : Sized t n) :
    Sized t' (n + 1) ∧ t'.totalBlockTxCount = t.totalBlockTxCount := by
  unfold addTx at h
  split at h
  · cases h
  rename_i tx _
  have hlegacy : ∀ u : Derive.SpanBatchTxs,u = (if tx.type = legacyTxType then
      { t with
        protectedBits := setBit t.protectedBits t.totalLegacyTxCount tx.isProtected
        totalLegacyTxCount := t.totalLegacyTxCount + 1 }
      else t) → Sized u n ∧ u.totalBlockTxCount = t.totalBlockTxCount := by
    intro u hu
    split at hu
    · subst hu
      exact ⟨⟨hs.creation,hs.yParity,hs.legacy.setBit _⟩,rfl⟩
    · subst hu
      exact ⟨hs,rfl⟩
  simp only at h
  obtain ⟨hu,htot⟩ := hlegacy _ rfl
  split at h
  · cases h
  split at h
  · cases h
  split at h
  · cases h
  split at h
  · cases h
  cases h
  exact ⟨⟨hu.creation.setBit _,hu.yParity.setBit _,hu.legacy⟩,htot⟩

theorem addTxsLoop_sized (h : t.addTxsLoop codec chainID n raws = (t',none)) (hs : Sized t n) :
    Sized t' (n + raws.length) ∧ t'.totalBlockTxCount = t.totalBlockTxCount := by
  induction raws generalizing n t with
  | nil =>
    cases h
    exact ⟨hs,rfl⟩
  | cons raw raws ih =>
    unfold addTxsLoop at h
    split at h
    · cases h
    rename_i t₁ ht₁
    obtain ⟨hs₁,htot₁⟩ := addTx_sized ht₁ hs
    obtain ⟨hs',htot'⟩ := ih h hs₁
    rw [length_cons,Nat.add_comm raws.length,← Nat.add_assoc]
    exact ⟨hs',htot'.trans htot₁⟩

theorem addTxs_sized (h : t.addTxs codec chainID raws = (t',none))
    (hs : Sized t t.totalBlockTxCount) : Sized t' t'.totalBlockTxCount := by
  unfold addTxs at h
  split at h
  · cases h
  rename_i t₁ ht₁
  obtain ⟨hs₁,htot₁⟩ := addTxsLoop_sized ht₁ hs
  cases h
  simp only [htot₁]
  exact ⟨hs₁.creation,hs₁.yParity,hs₁.legacy⟩

theorem addTxsLoop_accepts (h : ∀ raw ∈ raws,TxAccepted codec chainID raw)
    (t : Derive.SpanBatchTxs) : (t.addTxsLoop codec chainID n raws).2 = none := by
  induction raws generalizing n t with
  | nil => rfl
  | cons raw raws ih =>
    have hno := (addTx_error codec chainID n t raw).trans (h raw mem_cons_self)
    unfold addTxsLoop
    cases hadd : t.addTx codec chainID n raw with
    | mk t₁ err =>
      rw [hadd] at hno
      subst hno
      exact ih (fun r hr => h r (mem_cons_of_mem _ hr)) t₁

theorem addTxs_accepts (h : ∀ raw ∈ raws,TxAccepted codec chainID raw) (t : Derive.SpanBatchTxs) :
    (t.addTxs codec chainID raws).2 = none := by
  have hlp := addTxsLoop_accepts h t (n := t.totalBlockTxCount)
  unfold addTxs
  cases hadd : t.addTxsLoop codec chainID t.totalBlockTxCount raws with
  | mk t₁ err =>
    rw [hadd] at hlp
    subst hlp
    rfl

structure Encodable (b : SpanBatch) : Prop where
  origin : HasBits b.originBits b.batches.length
  txs : Sized b.sbtxs b.sbtxs.totalBlockTxCount

theorem newSpanBatch_encodable (genesisTimestamp : UInt64) (chainID : Nat) :
    Encodable (.newSpanBatch genesisTimestamp chainID) :=
  ⟨⟨[],rfl,rfl⟩,⟨⟨[],rfl,rfl⟩,⟨[],rfl,rfl⟩,⟨[],rfl,rfl⟩⟩⟩

theorem append_encodable {b' : SpanBatch} {c : Call}
    (h : b.appendSingularBatch codec c.1 c.2 = (b',none)) (hb : Encodable b) :
    Encodable b' ∧ b'.batches = b.batches ++ [singularBatchToElement c.1] ∧
      b'.genesisTimestamp = b.genesisTimestamp ∧ b'.chainID = b.chainID := by
  unfold SpanBatch.appendSingularBatch at h
  simp only at h
  split at h
  · cases h
  cases hadd : b.sbtxs.addTxs codec b.chainID c.1.transactions with
  | mk t err =>
    rw [hadd] at h
    obtain ⟨rfl,rfl⟩ := h
    refine ⟨⟨?_,addTxs_sized hadd hb.txs⟩,rfl,rfl,rfl⟩
    rw [length_append]
    exact hb.origin.setBit _

theorem append_accepts {c : Call} (h : ∀ raw ∈ c.1.transactions,TxAccepted codec b.chainID raw) :
    (∃ b',b.appendSingularBatch codec c.1 c.2 = (b',none)) ∨
      b.appendSingularBatch codec c.1 c.2 = (b,some .panic) := by
  have hno := addTxs_accepts h b.sbtxs
  unfold SpanBatch.appendSingularBatch
  simp only
  split
  · exact .inr rfl
  · exact .inl ⟨_,Prod.ext rfl hno⟩

def spanBytes (b : SpanBatch) : Except SpanBatchError Bytes := do
  let raw ← b.toRawSpanBatch
  let inner ← raw.encode
  pure (encodeBatchData spanBatchType inner)

theorem Encodable.encodes (hb : Encodable b) (hne : b.batches ≠ []) :
    ∃ raw inner,b.toRawSpanBatch = .ok raw ∧ raw.encode = .ok inner := by
  obtain ⟨bits,hbits,hlen⟩ := hb.origin
  obtain ⟨creation,hcreation⟩ := hb.txs.creation.encode .contractCreationBits
  obtain ⟨yParity,hyParity⟩ := hb.txs.yParity.encode .yParityBits
  obtain ⟨legacy,hlegacy⟩ := hb.txs.legacy.encode .protectedBits
  have htxs : ∃ bytes,b.sbtxs.encode = .ok bytes := by
    unfold encode
    rw [hcreation,hyParity,hlegacy]
    exact ⟨_,rfl⟩
  obtain ⟨txs,htxs⟩ := htxs
  unfold SpanBatch.toRawSpanBatch
  rw [head?_eq_some_head hne,getLast?_eq_some_getLast hne]
  exact ⟨_,_,rfl,encode_eq _ hbits hlen htxs⟩

theorem appendAll_concat {b₁ : SpanBatch} {calls : List Call} (c : Call)
    (h : appendAll codec b calls = .ok b₁) :
    appendAll codec b (calls ++ [c]) = appendAll codec b₁ [c] := by
  induction calls generalizing b with
  | nil =>
    cases h
    rfl
  | cons d calls ih =>
    simp only [appendAll,cons_append] at h ⊢
    split at h
    · cases h
    · exact ih h

structure Setting where
  codec : TxCodec
  genesisTimestamp : UInt64
  chainID : Nat
  limit : Int

def Setting.encode (st : Setting) (calls : List Call) : Except SpanBatchError Bytes := do
  let b ← appendAll st.codec (.newSpanBatch st.genesisTimestamp st.chainID) calls
  spanBytes b

/-- The calls so far: the channel out, the calls that returned nil, and whether one has returned
`ErrTooManyRLPBytes` or `ErrCompressorFull`. -/
structure Calls (κ : Type) where
  co : SpanChannelOut κ
  accepted : List Call
  stopped : Bool

def sentinel : Option ChannelOutError → Bool
  | some .tooManyRLPBytes | some .compressorFull => true
  | _ => false

variable {κ : Type} {comp : ChannelCompressor κ}

/-- After a sentinel error no more calls are made. -/
def exec (codec : TxCodec) (comp : ChannelCompressor κ) (s : Calls κ) (c : Call) :
    Except SpanPanic (Calls κ) :=
  if s.stopped then .ok s
  else do
    let (co,err) ← s.co.addSingularBatch codec comp c.1 c.2
    pure ⟨co,if err.isNone then s.accepted ++ [c] else s.accepted,sentinel err⟩

def Step (codec : TxCodec) (comp : ChannelCompressor κ) (ok : SingularBatch → Prop)
    (s s' : Calls κ) : Prop :=
  ∃ c,ok c.1 ∧ exec codec comp s c = .ok s'

theorem run_observe (ok : SingularBatch → Prop) {s : Calls κ} {calls : List Call} {α : Type}
    {f : Calls κ → α} {a : α} (hok : ∀ c ∈ calls,ok c.1)
    (h : (runOps (exec codec comp) s calls).toOption.map f = some a) :
    ∃ s',Reaches (Step codec comp ok) s s' ∧ f s' = a :=
  runOps_observe (fun _ _ c hc hexec => ⟨c,hok c hc,hexec⟩) h

def start (co : SpanChannelOut κ) : Calls κ := ⟨co,[],false⟩

def Holds (st : Setting) (rlp : Bytes) (accepted : List Call) : Prop :=
  ∃ (groups : List (List Call)) (encs : List Bytes),groups.flatten = accepted ∧
    groups.map st.encode = encs.map .ok ∧ rlp = encs.flatten ∧
    (st.limit ≠ 0 → ∀ g ∈ groups.dropLast,(g.length : Int) = st.limit)

def compressed (comp : ChannelCompressor κ) (p : Bytes) (k : κ) : κ :=
  (comp.close (comp.write p (comp.reset k)).1).1

/-- A compressor that does not fail on a write after a reset, nor on the close after that. -/
structure Reliable (comp : ChannelCompressor κ) : Prop where
  write : ∀ p k,(comp.write p (comp.reset k)).2 = none
  close : ∀ p k,(comp.close (comp.write p (comp.reset k)).1).2 = none

/-- Between calls: the span batches before the open one are sealed in both buffers. -/
structure Opened (st : Setting) (co : SpanChannelOut κ) (groups : List (List Call))
    (g : List Call) (encs : List Bytes) : Prop where
  genesis : co.spanBatch.genesisTimestamp = st.genesisTimestamp
  chain : co.spanBatch.chainID = st.chainID
  limit_eq : co.maxBlocksPerSpanBatch = st.limit
  encoded : groups.map st.encode = encs.map .ok
  sealedBytes : co.sealedRLPBytes = encs.flatten.length
  active : ∃ rest,co.activeRLP = encs.flatten ++ rest ∧
    if g = [] then rest = [] else st.encode g = .ok rest
  inactive : encs.flatten <+: co.inactiveRLP
  span : appendAll st.codec (.newSpanBatch st.genesisTimestamp st.chainID) g = .ok co.spanBatch
  encodable : Encodable co.spanBatch
  count : co.spanBatch.batches.length = g.length
  full_groups : st.limit ≠ 0 → ∀ h ∈ groups,(h.length : Int) = st.limit
  limit : st.limit ≠ 0 → (g.length : Int) ≤ st.limit

variable {st : Setting} {co co' : SpanChannelOut κ} {groups : List (List Call)} {g : List Call}
  {encs : List Bytes} {c : Call}

theorem Opened.holds (h : Opened st co groups g encs) :
    Holds st co.activeRLP (groups.flatten ++ g) := by
  obtain ⟨rest,hav,hrs⟩ := h.active
  by_cases hg : g = []
  · subst hg hrs
    refine ⟨groups,encs,(append_nil _).symm,h.encoded,by rw [hav,append_nil],?_⟩
    intro hl x hx
    exact h.full_groups hl x (dropLast_subset _ hx)
  rw [if_neg hg] at hrs
  refine ⟨groups ++ [g],encs ++ [rest],?_,?_,?_,?_⟩
  · rw [flatten_append,flatten_singleton]
  · simp [h.encoded,hrs]
  · rw [hav,flatten_append,flatten_singleton]
  intro hl x hx
  rw [dropLast_concat] at hx
  exact h.full_groups hl x hx

theorem activeRLP_update (co : SpanChannelOut κ) (p : Bytes) :
    Function.update co.rlp (!co.rlpIndex) p co.rlpIndex = co.activeRLP :=
  Function.update_of_ne (Bool.eq_not_self _).mp _ _

theorem inactiveRLP_update (co : SpanChannelOut κ) (p : Bytes) :
    Function.update co.rlp (!co.rlpIndex) p (!co.rlpIndex) = p := Function.update_self _ _ _

theorem inactiveRLP_swap (co : SpanChannelOut κ) (p : Bytes) :
    Function.update co.rlp (!co.rlpIndex) p (!!co.rlpIndex) = co.activeRLP := by
  rw [Bool.not_not]
  exact activeRLP_update co p

theorem ensureOpen_opened (hlimit : 0 ≤ st.limit) (h : Opened st co groups g encs)
    (ho : co.ensureOpenSpanBatch = .ok co') : (∃ groups' g' encs',Opened st co' groups' g' encs' ∧
      groups'.flatten ++ g' = groups.flatten ++ g ∧
      (st.limit ≠ 0 → (g'.length : Int) < st.limit)) ∧
    co'.full = co.full ∧ co'.closed = co.closed := by
  unfold ensureOpenSpanBatch at ho
  split at ho
  · rename_i hroom
    rw [h.limit_eq,h.count] at hroom
    cases ho
    exact ⟨⟨groups,g,encs,h,rfl,hroom.resolve_left⟩,rfl,rfl⟩
  rename_i hroom
  rw [h.limit_eq,h.count,not_or] at hroom
  obtain ⟨hl,hge⟩ := hroom
  split at ho
  · cases ho
  cases ho
  have hlen : (g.length : Int) = st.limit := by
    have hle := h.limit hl
    omega
  have hg : g ≠ [] := by
    rintro rfl
    exact hl hlen.symm
  obtain ⟨rest,hav,hrs⟩ := h.active
  rw [if_neg hg] at hrs
  have hflat : (encs ++ [rest]).flatten = co.activeRLP := by
    rw [flatten_append,flatten_singleton,← hav]
  refine ⟨⟨groups ++ [g],[],encs ++ [rest],?_,?_,?_⟩,rfl,rfl⟩
  · refine ⟨h.genesis,h.chain,h.limit_eq,?_,?_,⟨[],?_,(if_pos rfl).mpr rfl⟩,?_,?_,
      newSpanBatch_encodable _ _,rfl,?_,fun _ => hlimit⟩
    · simp [h.encoded,hrs]
    · rw [hflat]
      rfl
    · rw [hflat,append_nil]
      exact activeRLP_update co _
    · rw [hflat]
      exact ⟨[],(append_nil _).trans (inactiveRLP_update co _).symm⟩
    · rw [← h.genesis,← h.chain]
      rfl
    intro _ x hx
    rcases mem_append.mp hx with hx | hx
    · exact h.full_groups hl x hx
    · rw [mem_singleton.mp hx]
      exact hlen
  · rw [flatten_append,flatten_singleton,append_nil]
  · rw [length_nil]
    omega

theorem write_opened {err : Option ChannelOutError} (h : Opened st co groups g encs)
    (hroom : st.limit ≠ 0 → (g.length : Int) < st.limit)
    (hok : ∀ raw ∈ c.1.transactions,TxAccepted st.codec st.chainID raw)
    (hw : co.writeSpanBatch st.codec c.1 c.2 = .ok (co',err)) :
    err = none ∧ Opened st co' groups (g ++ [c]) encs ∧ co'.inactiveRLP = co.activeRLP ∧
      co'.full = co.full ∧ co'.closed = co.closed := by
  rw [← h.chain] at hok
  unfold writeSpanBatch at hw
  rcases append_accepts hok with ⟨b,hb⟩ | hpanic
  · obtain ⟨hencodable,hbatches,hgen,hch⟩ := append_encodable hb h.encodable
    obtain ⟨raw,inner,hraw,hinner⟩ := hencodable.encodes (by rw [hbatches]; simp)
    have hspn : appendAll st.codec (.newSpanBatch st.genesisTimestamp st.chainID) (g ++ [c]) =
        .ok b := by
      rw [appendAll_concat c h.span]
      simp [appendAll,hb]
    have henc : st.encode (g ++ [c]) = .ok (encodeBatchData spanBatchType inner) := by
      unfold Setting.encode
      rw [hspn]
      show spanBytes b = _
      unfold spanBytes
      rw [hraw]
      simp [hinner]
    obtain ⟨tail,htl⟩ := h.inactive
    have hswap : ({ co with spanBatch := b } : SpanChannelOut κ).swapRLP.activeRLP =
        encs.flatten ++ tail := htl.symm
    simp only [hb,hraw,hswap] at hw
    rw [if_neg (by
      show ¬ (encs.flatten ++ tail).length < co.sealedRLPBytes
      rw [h.sealedBytes,length_append]
      omega)] at hw
    have htake : (encs.flatten ++ tail).take co.sealedRLPBytes = encs.flatten := by
      rw [h.sealedBytes,take_left]
    simp only [hinner,swapRLP,htake] at hw
    obtain ⟨rfl,rfl⟩ := hw
    refine ⟨rfl,?_,?_,rfl,rfl⟩
    · refine ⟨hgen.trans h.genesis,hch.trans h.chain,h.limit_eq,h.encoded,h.sealedBytes,
        ⟨encodeBatchData spanBatchType inner,?_,?_⟩,?_,hspn,hencodable,?_,h.full_groups,?_⟩
      · exact inactiveRLP_update co _
      · rw [if_neg (by simp)]
        exact henc
      · obtain ⟨rest,hav,-⟩ := h.active
        exact ⟨rest,hav.symm.trans (inactiveRLP_swap co _).symm⟩
      · rw [hbatches,length_append,length_append,h.count,length_singleton,length_singleton]
      intro hl
      rw [length_append,length_singleton]
      omega
    · exact inactiveRLP_swap co _
  · simp [hpanic] at hw

def FullOk (comp : ChannelCompressor κ) (co : SpanChannelOut κ) : Prop :=
  co.full.isSome = true → ∃ k,co.compressor = compressed comp co.activeRLP k

def SameBuffers (co co' : SpanChannelOut κ) : Prop :=
  ∃ compressor lastCompressedRLPSize full,co' = { co with compressor, lastCompressedRLPSize, full }

theorem Opened.same (h : Opened st co groups g encs) (hs : SameBuffers co co') :
    Opened st co' groups g encs := by
  obtain ⟨k,n,full,rfl⟩ := hs
  exact ⟨h.genesis,h.chain,h.limit_eq,h.encoded,h.sealedBytes,h.active,h.inactive,h.span,h.encodable,
    h.count,h.full_groups,h.limit⟩

theorem SameBuffers.active (hs : SameBuffers co co') : co'.activeRLP = co.activeRLP := by
  obtain ⟨k,n,full,rfl⟩ := hs
  rfl

theorem SameBuffers.closed (hs : SameBuffers co co') : co'.closed = co.closed := by
  obtain ⟨k,n,full,rfl⟩ := hs
  rfl

theorem compress_reliable (hr : Reliable comp) (co : SpanChannelOut κ) :
    ∃ co',co.compress comp = (co',none) ∧ SameBuffers co co' ∧
      (∃ k,co'.compressor = compressed comp co'.activeRLP k) ∧
      (co'.full = co.full ∨ co'.full = some .compressorFull) := by
  have hw := hr.write co.activeRLP co.compressor
  have hc := hr.close co.activeRLP co.compressor
  unfold compress
  simp only
  cases hwr : comp.write co.activeRLP (comp.reset co.compressor) with
  | mk k₁ err₁ =>
    rw [hwr] at hw hc
    subst hw
    cases hcl : comp.close k₁ with
    | mk k₂ err₂ =>
      rw [hcl] at hc
      subst hc
      have hk : k₂ = compressed comp co.activeRLP co.compressor := by
        unfold compressed
        rw [hwr]
        rw [hcl]
      simp only [hcl]
      refine ⟨_,rfl,?_⟩
      unfold checkFull
      split
      · exact ⟨⟨_,_,_,rfl⟩,⟨_,hk⟩,.inl rfl⟩
      split
      · exact ⟨⟨_,_,_,rfl⟩,⟨_,hk⟩,.inr rfl⟩
      · exact ⟨⟨_,_,_,rfl⟩,⟨_,hk⟩,.inl rfl⟩

theorem revert_reliable (hr : Reliable comp) (e : ChannelOutError) (co : SpanChannelOut κ) :
    ∃ co',co.revert comp e = (co',some e) ∧ co'.activeRLP = co.inactiveRLP ∧
      co'.closed = co.closed ∧ FullOk comp co' := by
  obtain ⟨co',hco',hsm,hk,-⟩ := compress_reliable hr co.swapRLP
  unfold revert
  rw [hco']
  exact ⟨co',rfl,hsm.active,hsm.closed,fun _ => hk⟩

/-- A batch that was written stays, or the buffer from before is back after a sentinel error. -/
theorem settle_reliable (hr : Reliable comp) (batch : SingularBatch) (hfull : co.full = none) :
    ∃ co' err,co.settleSpanBatch comp batch = (co',err) ∧ co'.closed = co.closed ∧ FullOk comp co' ∧
      (err = none ∧ SameBuffers co co' ∨ sentinel err = true ∧ co'.activeRLP = co.inactiveRLP) := by
  unfold settleSpanBatch
  split
  · obtain ⟨co',hco',hav,hcl,hok⟩ := revert_reliable hr .tooManyRLPBytes co
    exact ⟨co',_,hco',hcl,hok,.inr ⟨rfl,hav⟩⟩
  simp only
  split
  · refine ⟨co,none,rfl,rfl,?_,.inl ⟨rfl,_,_,_,rfl⟩⟩
    intro hs
    simp [hfull] at hs
  obtain ⟨co₁,hco₁,hsm,hk,hset⟩ := compress_reliable hr co
  rw [hco₁]
  have hkp : ∃ co' err,(co₁,(none : Option ChannelOutError)) = (co',err) ∧
      co'.closed = co.closed ∧ FullOk comp co' ∧
      (err = none ∧ SameBuffers co co' ∨ sentinel err = true ∧ co'.activeRLP = co.inactiveRLP) :=
    ⟨co₁,none,rfl,hsm.closed,fun _ => hk,.inl ⟨rfl,hsm⟩⟩
  simp only
  split
  · exact hkp
  rename_i e he
  rw [he,hfull] at hset
  have hfe : e = .compressorFull := by
    rcases hset with hset | hset
    · cases hset
    · exact Option.some.inj hset
  subst hfe
  split
  · exact hkp
  split
  · exact hkp
  obtain ⟨co',hco',hav,hcl,hok⟩ := revert_reliable hr .compressorFull co₁
  refine ⟨co',_,hco',hcl.trans hsm.closed,hok,.inr ⟨rfl,?_⟩⟩
  rw [hav]
  obtain ⟨k,n,full,rfl⟩ := hsm
  rfl

structure Inv (st : Setting) (comp : ChannelCompressor κ) (s : Calls κ) : Prop where
  closed : s.co.closed = false
  full : FullOk comp s.co
  holds : Holds st s.co.activeRLP s.accepted
  opened : s.stopped = false →
    ∃ groups g encs,Opened st s.co groups g encs ∧ groups.flatten ++ g = s.accepted

theorem exec_inv {s s' : Calls κ} (hr : Reliable comp) (hlimit : 0 ≤ st.limit) (hi : Inv st comp s)
    (hok : ∀ raw ∈ c.1.transactions,TxAccepted st.codec st.chainID raw)
    (h : exec st.codec comp s c = .ok s') : Inv st comp s' := by
  unfold exec addSingularBatch at h
  split at h
  · -- the channel is full already
    cases h
    exact hi
  rename_i hgoing
  obtain ⟨groups,g,encs,hop,haccepted⟩ := hi.opened (Bool.eq_false_iff.mpr hgoing)
  rw [if_neg (by rw [hi.closed]; exact Bool.false_ne_true)] at h
  split at h
  · cases h
    exact ⟨hi.closed,hi.full,hi.holds,fun _ => ⟨groups,g,encs,hop,haccepted⟩⟩
  rename_i hfu
  cases ho : s.co.ensureOpenSpanBatch with
  | error e => simp [ho] at h
  | ok co₁ =>
    obtain ⟨⟨groups,g,encs,hop,hflat,hroom⟩,hfu₁,hcl₁⟩ := ensureOpen_opened hlimit hop ho
    rw [haccepted] at hflat
    cases hw : co₁.writeSpanBatch st.codec c.1 c.2 with
    | error e => simp [ho,hw] at h
    | ok p =>
      obtain ⟨co₂,err⟩ := p
      obtain ⟨rfl,hop₂,hinactive₂,hfu₂,hcl₂⟩ := write_opened hop hroom hok hw
      obtain ⟨co₃,err,hset,hcl₃,hok₃,hcs⟩ := settle_reliable hr c.1 (hfu₂.trans (hfu₁.trans hfu))
      simp only [ho,ok_bind,hw,hset] at h
      cases h
      have hcl := hcl₃.trans (hcl₂.trans (hcl₁.trans hi.closed))
      rcases hcs with ⟨rfl,hsm⟩ | ⟨hsp,hav⟩
      · have hop₃ := hop₂.same hsm
        have hacc : groups.flatten ++ (g ++ [c]) = s.accepted ++ [c] := by rw [← append_assoc,hflat]
        refine ⟨hcl,hok₃,?_,fun _ => ⟨groups,g ++ [c],encs,hop₃,hacc⟩⟩
        rw [Option.isNone_none,← hacc]
        exact hop₃.holds
      have hno : ¬ err.isNone = true := by
        cases err with
        | none => cases hsp
        | some e => exact Bool.false_ne_true
      refine ⟨hcl,hok₃,?_,?_⟩
      · rw [if_neg hno,hav,hinactive₂,← hflat]
        exact hop.holds
      intro hgo
      simp [show sentinel err = false from hgo] at hsp

def BatchAccepted (codec : TxCodec) (chainSpec : Rollup.Config) (b : SingularBatch) : Prop :=
  ∀ raw ∈ b.transactions,TxAccepted codec (chainSpec.l2ChainID.getD 0).toNat raw

instance (codec : TxCodec) (chainSpec : Rollup.Config) (b : SingularBatch) :
    Decidable (BatchAccepted codec chainSpec b) :=
  inferInstanceAs (Decidable (∀ raw ∈ b.transactions,TxAccepted codec _ raw))

def settingOf (codec : TxCodec) (chainSpec : Rollup.Config) (limit : Int) : Setting :=
  ⟨codec,chainSpec.genesis.l2Time,(chainSpec.l2ChainID.getD 0).toNat,limit⟩

theorem new_inv (codec : TxCodec) (comp : ChannelCompressor κ) (id : ChannelID) (target : UInt64)
    (k : κ) (chainSpec : Rollup.Config) {limit : Int} (hlimit : 0 ≤ limit) :
    Inv (settingOf codec chainSpec limit) comp
      (start (.newSpanChannelOut id target k chainSpec limit)) := by
  have hop : Opened (settingOf codec chainSpec limit)
      (.newSpanChannelOut id target k chainSpec limit) [] [] [] := by
    refine ⟨rfl,rfl,rfl,rfl,rfl,⟨[],rfl,(if_pos rfl).mpr rfl⟩,⟨[],rfl⟩,rfl,
      newSpanBatch_encodable _ _,rfl,?_,fun _ => hlimit⟩
    nofun
  refine ⟨rfl,?_,hop.holds,fun _ => ⟨[],[],[],hop,rfl⟩⟩
  nofun

theorem close_reliable (hr : Reliable comp) (hclosed : co.closed = false) (hfull : FullOk comp co) :
    ∃ co' k,co.close comp = (co',none) ∧ co'.activeRLP = co.activeRLP ∧
      co'.compressor = compressed comp co.activeRLP k := by
  unfold close
  rw [if_neg (by rw [hclosed]; exact Bool.false_ne_true)]
  simp only
  split
  · rename_i hf
    obtain ⟨k,hk⟩ := hfull hf
    exact ⟨_,k,rfl,rfl,hk⟩
  obtain ⟨co',hco',hsm,⟨k,hk⟩,-⟩ := compress_reliable hr { co with closed := true }
  rw [hsm.active] at hk
  exact ⟨co',k,hco',hsm.active,hk⟩

/-- The active buffer holds exactly the accepted blocks, and `Close` compresses just that. -/
theorem span_channel_keeps_accepted (codec : TxCodec) (hr : Reliable comp) (id : ChannelID)
    (target : UInt64) (k : κ) (chainSpec : Rollup.Config) (limit : Int) (hlimit : 0 ≤ limit)
    (s : Calls κ) (h : Reaches (Step codec comp (BatchAccepted codec chainSpec))
      (start (.newSpanChannelOut id target k chainSpec limit)) s) :
    Holds (settingOf codec chainSpec limit) s.co.activeRLP s.accepted ∧
    ∃ co' k',s.co.close comp = (co',none) ∧ co'.activeRLP = s.co.activeRLP ∧
      co'.compressor = compressed comp s.co.activeRLP k' := by
  have hi : Inv (settingOf codec chainSpec limit) comp s := by
    refine h.invariant (new_inv codec comp id target k chainSpec hlimit) ?_
    rintro x y hx ⟨c,hok,hex⟩
    exact exec_inv hr hlimit hx hok hex
  exact ⟨hi.holds,close_reliable hr hi.closed hi.full⟩

def plain : ChannelCompressor Bytes where
  write p k := (k ++ p,none)
  close k := (k,none)
  reset _ := []
  len k := k.length
  read n k := if n ≤ k.length then (k.drop n,some (k.take n)) else (k,none)

theorem plain_reliable : Reliable plain := ⟨fun _ _ => rfl,fun _ _ => rfl⟩

def block (timestamp : UInt64) (transactions : List Bytes) : Call :=
  (⟨.fill 32 1,100,.fill 32 2,timestamp,transactions⟩,1)

def plainOut : SpanChannelOut Bytes :=
  .newSpanChannelOut (.fill 16 1) 150 [] sampleConfig 2

/-- The third block does not fit in, and is given up together with its new span batch. -/
theorem span_channel_keeps_accepted_sample :
    ∃ s,Reaches (Step txCodec plain (BatchAccepted txCodec sampleConfig)) (start plainOut) s ∧
      s.accepted = [block 1000 [marshalBinary sampleLegacy],block 1002 []] ∧ s.stopped = true ∧
      Holds (settingOf txCodec sampleConfig 2) s.co.activeRLP s.accepted ∧
      ∃ co' k',s.co.close plain = (co',none) ∧ co'.activeRLP = s.co.activeRLP ∧
        co'.compressor = compressed plain s.co.activeRLP k' := by
  have hrun : (runOps (exec txCodec plain) (start plainOut)
      [block 1000 [marshalBinary sampleLegacy],block 1002 [],block 1004 []]).toOption.map
        (fun s => (s.accepted,s.stopped)) =
      some ([block 1000 [marshalBinary sampleLegacy],block 1002 []],true) := by
    decide +kernel
  have hok : ∀ c ∈ [block 1000 [marshalBinary sampleLegacy],block 1002 [],block 1004 []],
      BatchAccepted txCodec sampleConfig c.1 := by
    decide +kernel
  obtain ⟨s,hrch,hobs⟩ := run_observe _ hok hrun
  rw [Prod.mk.injEq] at hobs
  exact ⟨s,hrch,hobs.1,hobs.2,span_channel_keeps_accepted txCodec plain_reliable (.fill 16 1) 150
    [] sampleConfig 2 (by decide) s hrch⟩

theorem eq_singleton_of_flatten {groups : List (List Call)} {c : Call}
    (hne : ∀ g ∈ groups,g ≠ []) (h : groups.flatten = [c]) : groups = [[c]] := by
  cases groups with
  | nil => cases h
  | cons g gs =>
    rw [flatten_cons,append_eq_singleton_iff] at h
    rcases h with ⟨hg,-⟩ | ⟨rfl,hgs⟩
    · exact absurd hg (hne g mem_cons_self)
    cases gs with
    | nil => rfl
    | cons g' gs =>
      rw [flatten_cons,append_eq_nil_iff] at hgs
      exact absurd hgs.1 (hne g' (by simp))

theorem Holds.of_singleton {st : Setting} {rlp : Bytes} {c : Call} (h : Holds st rlp [c]) :
    st.encode [c] = .ok rlp := by
  obtain ⟨groups,encs,hflat,henc,hrlp,-⟩ := h
  have hne : ∀ g ∈ groups,g ≠ [] := by
    rintro g hg rfl
    have hmem : st.encode [] ∈ encs.map .ok := by
      rw [← henc]
      exact mem_map_of_mem hg
    obtain ⟨enc,-,hbad⟩ := mem_map.mp hmem
    cases hbad
  obtain rfl := eq_singleton_of_flatten hne hflat
  obtain ⟨enc,rfl,hget⟩ := map_eq_singleton_iff.mp henc.symm
  rw [hrlp,flatten_singleton]
  exact hget.symm

/-- A block with a transaction that cannot be decoded is refused with an error, and is in the buffer
after the next call. -/
theorem refused_block_kept : ∃ s,Reaches (Step txCodec plain fun _ => True) (start plainOut) s ∧
    s.accepted = [block 1002 []] ∧
    ¬ Holds (settingOf txCodec sampleConfig 2) s.co.activeRLP s.accepted := by
  have hrun : (runOps (exec txCodec plain) (start plainOut)
      [block 1000 [[]],block 1002 []]).toOption.map
        (fun s => (s.accepted,s.co.activeRLP.length)) = some ([block 1002 []],49) := by
    decide +kernel
  have hone : ((settingOf txCodec sampleConfig 2).encode [block 1002 []]).toOption.map length =
      some 48 := by
    decide +kernel
  obtain ⟨s,hrch,hobs⟩ := run_observe (fun _ => True) (fun _ _ => trivial) hrun
  rw [Prod.mk.injEq] at hobs
  refine ⟨s,hrch,hobs.1,?_⟩
  intro hholds
  rw [hobs.1] at hholds
  rw [hholds.of_singleton] at hone
  have hlen := Option.some.inj hone
  rw [hobs.2] at hlen
  exact absurd hlen (by decide)

end OpStack.Proofs.SpanBuffer
