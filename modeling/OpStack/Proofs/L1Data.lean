import OpStack.Derive.DataSource
import OpStack.Proofs.Config

namespace OpStack.Proofs.L1Data
open Lib Eth Rollup Derive Proofs.Config BlobDataSource List

/-- Iterators hand out the items of their block in order, where `left` is what is still to come. An
error other than the end leaves an iterator where it is. -/
structure Lawful {ε ι : Type} (src : DataAvailabilitySource ε ι) (truthful : ε → Prop)
    (items : L1BlockRef → Address → List Bytes) (left : ι → List Bytes) : Prop where
  opened : ∀ {e ref addr it},truthful e → src.openData e ref addr = .ok it →
    left it = items ref addr
  ok : ∀ {e it it' d},truthful e → src.next e it = (it',.ok d) → left it = d::left it'
  eof : ∀ {e it it'},truthful e → src.next e it = (it',.error .eof) → left it = []
  error : ∀ {e it it' err},truthful e → src.next e it = (it',.error err) → err ≠ .eof →
    left it' = left it

section factory
variable {β : Type}

structure L1Contents (β : Type) where
  txs : Hash → List L1Transaction
  blob : Hash → β

/-- Answers that may fail or be incomplete, but are not wrong. -/
structure Truthful (contents : L1Contents β) (fetcher : DataFetcher β) : Prop where
  txs : ∀ {h txs},fetcher.infoAndTxsByHash h = .found txs → txs = contents.txs h
  blobs : ∀ {t hashes blobs},fetcher.getBlobsByHash t hashes = .found blobs →
    ∀ (i : Nat) b,blobs[i]? = some (some b) → ∃ h,hashes[i]? = some h ∧ b = contents.blob h

variable (ds : DataSourceFactory β) (contents : L1Contents β)

def calldataItems (ref : L1BlockRef) (batcherAddr : Address) : List Bytes :=
  dataFromEVMTransactions ds.dsCfg batcherAddr (contents.txs ref.hash)

def txItems (tx : L1Transaction) : List Bytes :=
  if tx.type ≠ blobTxType then [tx.data]
  else tx.blobHashes.filterMap fun h => ds.dsCfg.blobToData (contents.blob h)

def blobItems (ref : L1BlockRef) (batcherAddr : Address) : List Bytes :=
  ((contents.txs ref.hash).filter fun tx => isValidBatchTx ds.dsCfg tx batcherAddr).flatMap
    (txItems ds contents)

def items (ref : L1BlockRef) (batcherAddr : Address) : List Bytes :=
  if ds.ecotoneTime.any (· ≤ ref.time) then blobItems ds contents ref batcherAddr
  else calldataItems ds contents ref batcherAddr

def dataOf : BlobOrCalldata β → Option Bytes
  | .calldata d => some d
  | .blob b => ds.dsCfg.blobToData b

def left : DataIter β → List Bytes
  | .calldata src => src.data.getD (calldataItems ds contents src.ref src.batcherAddr)
  | .blob src =>
    match src.data with
    | some data => data.filterMap (dataOf ds)
    | none => blobItems ds contents src.ref src.batcherAddr

def fillWith (blob : Hash → β) : List (BlobOrCalldata Unit) → List Hash → List (BlobOrCalldata β)
  | .calldata d::data,hashes => .calldata d::fillWith blob data hashes
  | .blob ()::data,h::hashes => .blob (blob h)::fillWith blob data hashes
  | _,_ => []

variable {ds contents}

theorem fillBlobPointers_eq {data : List (BlobOrCalldata Unit)} {blobs : List (Option β)}
    {hashes : List Hash} {filled : List (BlobOrCalldata β)}
    (hb : ∀ (i : Nat) b,blobs[i]? = some (some b) → ∃ h,hashes[i]? = some h ∧ b = contents.blob h)
    (h : fillBlobPointers data blobs = some filled) :
    filled = fillWith contents.blob data hashes := by
  induction data generalizing blobs hashes filled with
  | nil =>
    cases blobs with
    | nil =>
      cases h
      rfl
    | cons b blobs => cases h
  | cons x data ih =>
    cases x with
    | calldata d =>
      obtain ⟨rest,hrs,rfl⟩ := Option.map_eq_some_iff.mp h
      rw [fillWith,ih hb hrs]
    | blob u =>
      cases blobs with
      | nil => cases h
      | cons b blobs =>
        cases b with
        | none => cases h
        | some b =>
          obtain ⟨rest,hrs,rfl⟩ := Option.map_eq_some_iff.mp h
          obtain ⟨hash,hhs,rfl⟩ := hb 0 b rfl
          cases hashes with
          | nil => cases hhs
          | cons hash' hashes =>
            cases hhs
            rw [fillWith,ih (fun i b hi => hb (i + 1) b hi) hrs]

theorem fillWith_append (hs : List Hash) (data : List (BlobOrCalldata Unit)) (hashes : List Hash) :
    fillWith contents.blob (hs.map (fun _ => .blob ()) ++ data) (hs ++ hashes) =
      hs.map (fun h => .blob (contents.blob h)) ++ fillWith contents.blob data hashes := by
  induction hs with
  | nil => rfl
  | cons h hs ih => rw [map_cons,cons_append,cons_append,fillWith,ih]; rfl

theorem fillWith_items (batcherAddr : Address) (txs : List L1Transaction) :
    (fillWith contents.blob (dataAndHashesFromTxs ds.dsCfg batcherAddr txs).1
      (dataAndHashesFromTxs ds.dsCfg batcherAddr txs).2).filterMap (dataOf ds) =
    (txs.filter fun tx => isValidBatchTx ds.dsCfg tx batcherAddr).flatMap
      (txItems ds contents) := by
  induction txs with
  | nil => rfl
  | cons tx txs ih =>
    unfold dataAndHashesFromTxs
    dsimp only
    split
    · rename_i hinvalid
      rw [filter_cons_of_neg (by simpa using hinvalid)]
      exact ih
    rename_i hva
    rw [filter_cons_of_pos (by simpa using hva),flatMap_cons,txItems]
    split
    · have hda : dataOf ds (.calldata tx.data) = some tx.data := rfl
      simp [fillWith,filterMap_cons_some hda,ih]
    · rw [fillWith_append,filterMap_append,ih,filterMap_map]
      rfl

def Reads (before after : List Bytes) : Except PipelineError Bytes → Prop
  | .ok d => before = d::after
  | .error .eof => before = []
  | .error _ => after = before

theorem calldata_pop_reads (src : CalldataSource) (data : List Bytes) :
    Reads data (left ds contents (.calldata (src.pop data).1)) (src.pop data).2 := by
  cases data with
  | nil => rfl
  | cons d rest => rfl

theorem blob_pop_reads (src : BlobDataSource β) (data : List (BlobOrCalldata β)) :
    Reads (data.filterMap (dataOf ds)) (left ds contents (.blob (src.pop ds.dsCfg data).1))
      (src.pop ds.dsCfg data).2 := by
  induction data with
  | nil => rfl
  | cons x data ih =>
    cases x with
    | calldata d => rfl
    | blob b =>
      unfold pop
      cases hb : ds.dsCfg.blobToData b with
      | some d =>
        have hda : dataOf ds (.blob b) = some d := hb
        rw [filterMap_cons_some hda]
        rfl
      | none =>
        have hda : dataOf ds (.blob b) = none := hb
        rw [filterMap_cons_none hda]
        exact ih

variable {fetcher : DataFetcher β} {src : BlobDataSource β}

theorem blob_open_items (hf : Truthful contents fetcher)
    {data : List (BlobOrCalldata β)} (h : src.openSource ds.dsCfg fetcher = .ok data) :
    data.filterMap (dataOf ds) = blobItems ds contents src.ref src.batcherAddr := by
  unfold openSource at h
  split at h
  · cases h
  · cases h
  rename_i txs htxs
  dsimp only at h
  split at h
  · cases h
  · cases h
  rename_i blobs hblobs
  split at h
  · cases h
  rename_i filled hfill
  cases h
  have hb : ∀ (i : Nat) b,blobs[i]? = some (some b) →
      ∃ hash,(dataAndHashesFromTxs ds.dsCfg src.batcherAddr txs).2[i]? = some hash ∧
        b = contents.blob hash := by
    unfold fetchBlobs at hblobs
    split at hblobs
    · cases hblobs
      intro i b hi
      simp at hi
    · exact hf.blobs hblobs
  rw [fillBlobPointers_eq hb hfill,fillWith_items,hf.txs htxs]
  rfl

theorem blob_open_error {err : PipelineError}
    (h : src.openSource ds.dsCfg fetcher = .error err) : err = .reset ∨ err = .temporary := by
  unfold openSource at h
  split at h
  · cases h
    exact .inl rfl
  · cases h
    exact .inr rfl
  dsimp only at h
  split at h
  · cases h
    exact .inl rfl
  · cases h
    exact .inr rfl
  split at h
  · cases h
    exact .inl rfl
  · cases h

theorem calldata_next_reads (hf : Truthful contents fetcher) (src : CalldataSource) :
    Reads (left ds contents (.calldata src))
      (left ds contents (.calldata (src.next ds.dsCfg fetcher).1))
      (src.next ds.dsCfg fetcher).2 := by
  unfold CalldataSource.next
  split
  · rename_i data hd
    have hlf : left ds contents (.calldata src) = data := by rw [left,hd]; rfl
    rw [hlf]
    exact calldata_pop_reads src data
  rename_i hd
  split
  · rename_i txs ht
    have hlf : left ds contents (.calldata src) =
        dataFromEVMTransactions ds.dsCfg src.batcherAddr txs := by
      rw [left,hd,hf.txs ht]
      rfl
    rw [hlf]
    exact calldata_pop_reads src _
  · rfl
  · rfl

theorem blob_next_reads (hf : Truthful contents fetcher) (src : BlobDataSource β) :
    Reads (left ds contents (.blob src)) (left ds contents (.blob (src.next ds.dsCfg fetcher).1))
      (src.next ds.dsCfg fetcher).2 := by
  unfold BlobDataSource.next
  split
  · rename_i data hd
    have hlf : left ds contents (.blob src) = data.filterMap (dataOf ds) := by rw [left,hd]
    rw [hlf]
    exact blob_pop_reads src data
  rename_i hd
  split
  · rename_i err ho
    rcases blob_open_error ho with rfl | rfl
    · rfl
    · rfl
  rename_i data ho
  have hlf : left ds contents (.blob src) =
      blobItems ds contents src.ref src.batcherAddr := by rw [left,hd]
  rw [hlf,← blob_open_items hf ho]
  exact blob_pop_reads src data

theorem factory_lawful (ds : DataSourceFactory β) (contents : L1Contents β) :
    Lawful ds.source (Truthful contents) (items ds contents) (left ds contents) := by
  have hrds : ∀ {fetcher : DataFetcher β} (it : DataIter β),Truthful contents fetcher →
      Reads (left ds contents it) (left ds contents (ds.source.next fetcher it).1)
        (ds.source.next fetcher it).2 := by
    intro fetcher it hf
    cases it with
    | calldata src => exact calldata_next_reads hf src
    | blob src => exact blob_next_reads hf src
  constructor
  case opened =>
    intro fetcher ref addr it hf h
    change ds.openData fetcher ref addr = .ok it at h
    unfold DataSourceFactory.openData at h
    unfold items
    split at h
    · rename_i heco
      rw [if_pos heco]
      split at h
      · cases h
      · cases h
        rfl
    rename_i heco
    rw [if_neg heco]
    cases h
    unfold CalldataSource.new
    split
    · rename_i txs ht
      rw [left,hf.txs ht]
      rfl
    · rfl
  case ok =>
    intro fetcher it it' d hf h
    have := hrds it hf
    rw [h] at this
    exact this
  case eof =>
    intro fetcher it it' hf h
    have := hrds it hf
    rw [h] at this
    exact this
  case error =>
    intro fetcher it it' err hf h hne
    have := hrds it hf
    rw [h] at this
    cases err with
    | eof => exact absurd rfl hne
    | _ => exact this

end factory

section runs
variable {ε ι : Type}

/-- The two stages, whether the last `NextData` ended with `io.EOF`, and what was delivered since
the traversal came to its block. -/
structure State (ι : Type) where
  l1r : L1Retrieval ι
  eof : Bool
  delivered : List Bytes

inductive Op (ε : Type) where
  | nextData (e : ε)
  | advanceL1Block (l1 : L1Fetcher)

def afterNextData (src : DataAvailabilitySource ε ι) (e : ε) (s : State ι) : State ι :=
  match s.l1r.nextData src e with
  | (l1r,.ok d) => ⟨l1r,false,s.delivered ++ [d]⟩
  | (l1r,.error err) => ⟨l1r,decide (err = .eof),s.delivered⟩

def afterAdvance (l1 : L1Fetcher) (s : State ι) : State ι :=
  match s.l1r.prev.advanceL1Block l1 with
  | (prev,none) => ⟨{ s.l1r with prev },false,[]⟩
  | (prev,some _) => ⟨{ s.l1r with prev },s.eof,s.delivered⟩

/-- One call, as `Step` makes it: the traversal advances only after `NextData` returned `io.EOF`. -/
def exec (src : DataAvailabilitySource ε ι) (s : State ι) : Op ε → Except Unit (State ι)
  | .nextData e => .ok (afterNextData src e s)
  | .advanceL1Block l1 => if s.eof then .ok (afterAdvance l1 s) else .error ()

def start (src : DataAvailabilitySource ε ι) (e : ε) (base : L1BlockRef) (sysCfg : SystemConfig) :
    State ι :=
  ⟨(L1Retrieval.reset src e base sysCfg).1,false,[]⟩

def OpTruthful (truthful : ε → Prop) : Op ε → Prop
  | .nextData e => truthful e
  | .advanceL1Block _ => True

def Opens (src : DataAvailabilitySource ε ι) (s : State ι) : Op ε → Prop
  | .nextData e => s.l1r.datas = none → s.l1r.prev.done = false →
      ∃ it,src.openData e s.l1r.prev.block s.l1r.prev.sysCfg.batcherAddr = .ok it
  | .advanceL1Block _ => True

def Step (src : DataAvailabilitySource ε ι) (ok : State ι → Op ε → Prop) (s s' : State ι) : Prop :=
  ∃ op,ok s op ∧ exec src s op = .ok s'

variable {src : DataAvailabilitySource ε ι} {truthful : ε → Prop}
  {items : L1BlockRef → Address → List Bytes} {left : ι → List Bytes} {s : State ι} {e : ε}

def currentItems (items : L1BlockRef → Address → List Bytes) (prev : L1Traversal) : List Bytes :=
  items prev.block prev.sysCfg.batcherAddr

/-- After a reset the block may be read twice: `pre` is what was delivered before the open iterator
was opened. -/
def Inv (items : L1BlockRef → Address → List Bytes) (left : ι → List Bytes) (s : State ι) : Prop :=
  match s.l1r.datas with
  | some it => s.eof = false ∧ ∃ pre read,s.delivered = pre ++ read ∧
      currentItems items s.l1r.prev = read ++ left it ∧
      (pre = [] ∨ currentItems items s.l1r.prev <+: pre)
  | none => currentItems items s.l1r.prev <+: s.delivered ∨
      (s.l1r.prev.done = false ∧ s.eof = false ∧ s.delivered = [])

theorem Inv.delivered (h : Inv items left s) (heof : s.eof = true) :
    s.l1r.datas = none ∧ currentItems items s.l1r.prev <+: s.delivered := by
  unfold Inv at h
  cases hd : s.l1r.datas with
  | some it =>
    rw [hd] at h
    simp [h.1] at heof
  | none =>
    rw [hd] at h
    rcases h with h | ⟨-,h,-⟩
    · exact ⟨rfl,h⟩
    · simp [h] at heof

theorem readNext_inv (hl : Lawful src truthful items left) (he : truthful e)
    (prev : L1Traversal) (it : ι) (pre read : List Bytes)
    (hitems : currentItems items prev = read ++ left it)
    (hpre : pre = [] ∨ currentItems items prev <+: pre) : Inv items left
      (match L1Retrieval.readNext src e prev it with
        | (l1r,.ok d) => ⟨l1r,false,(pre ++ read) ++ [d]⟩
        | (l1r,.error err) => ⟨l1r,decide (err = .eof),pre ++ read⟩) := by
  unfold L1Retrieval.readNext
  cases hn : src.next e it with
  | mk it' result =>
    cases result with
    | ok d =>
      refine ⟨rfl,pre,read ++ [d],append_assoc pre read [d],?_,hpre⟩
      simp [hitems,hl.ok he hn]
    | error err =>
      by_cases heof : err = .eof
      · subst heof
        refine .inl ?_
        have hrd : currentItems items prev = read := by rw [hitems,hl.eof he hn,append_nil]
        rcases hpre with rfl | hpre
        · rw [hrd]
          exact ⟨[],by simp⟩
        · exact hpre.trans (prefix_append pre read)
      have hlf := hl.error he hn heof
      cases err with
      | eof => exact absurd rfl heof
      | _ => exact ⟨rfl,pre,read,rfl,hlf ▸ hitems,hpre⟩

theorem nextData_inv (hl : Lawful src truthful items left)
    (he : truthful e) (ho : Opens src s (.nextData e)) (h : Inv items left s) :
    Inv items left (afterNextData src e s) := by
  unfold afterNextData L1Retrieval.nextData
  unfold Inv at h
  cases hd : s.l1r.datas with
  | some it =>
    rw [hd] at h
    obtain ⟨-,pre,read,hdel,hitems,hpre⟩ := h
    rw [hdel]
    exact readNext_inv hl he s.l1r.prev it pre read hitems hpre
  | none =>
    rw [hd] at h
    unfold L1Traversal.nextL1Block
    cases hdo : s.l1r.prev.done with
    | true =>
      rcases h with h | ⟨hfa,-,-⟩
      · exact .inl h
      · simp [hfa] at hdo
    | false =>
      obtain ⟨it,hit⟩ := ho hd hdo
      have hop := hl.opened he hit
      rw [if_neg (by simp)]
      dsimp only
      rw [hit]
      -- the block is read from the start, after what was delivered of it before
      have hpre : s.delivered = [] ∨ currentItems items s.l1r.prev <+: s.delivered := by
        rcases h with h | ⟨-,-,h⟩
        · exact .inr h
        · exact .inl h
      have hrd := readNext_inv hl he { s.l1r.prev with done := true } it s.delivered []
        hop.symm hpre
      rw [append_nil] at hrd
      exact hrd

theorem advance_inv (l1 : L1Fetcher) (heof : s.eof = true)
    (h : Inv items left s) : Inv items left (afterAdvance l1 s) := by
  obtain ⟨hd,-⟩ := h.delivered heof
  unfold afterAdvance
  split
  · rename_i prev hadv
    rcases L1Traversal.advanceL1Block_cases hadv with ⟨-,hne⟩ | ⟨-,next,sysCfg,-,-,rfl⟩
    · exact absurd rfl hne
    unfold Inv
    rw [hd]
    exact .inr ⟨rfl,rfl,rfl⟩
  · rename_i prev err hadv
    rcases L1Traversal.advanceL1Block_cases hadv with ⟨rfl,-⟩ | ⟨hno,-⟩
    · exact h
    · cases hno

theorem start_inv (hl : Lawful src truthful items left) (he : truthful e)
    (base : L1BlockRef) (sysCfg : SystemConfig) : Inv items left (start src e base sysCfg) := by
  unfold start L1Retrieval.reset
  cases ho : src.openData e base sysCfg.batcherAddr with
  | error err => exact .inr ⟨rfl,rfl,rfl⟩
  | ok it => exact ⟨rfl,[],[],rfl,(hl.opened he ho).symm,.inl rfl⟩

theorem step_inv (hl : Lawful src truthful items left) {s' : State ι} (h : Inv items left s)
    (hs : Step src (fun s op => OpTruthful truthful op ∧ Opens src s op) s s') :
    Inv items left s' := by
  obtain ⟨op,⟨ht,ho⟩,hex⟩ := hs
  cases op with
  | nextData e =>
    cases hex
    exact nextData_inv hl ht ho h
  | advanceL1Block l1 =>
    change (if s.eof = true then .ok (afterAdvance l1 s) else .error ()) = Except.ok s' at hex
    split at hex
    · rename_i heof
      cases hex
      exact advance_inv l1 heof h
    · cases hex

end runs

theorem reached_delivered {ε ι : Type} {src : DataAvailabilitySource ε ι} {truthful : ε → Prop}
    {items : L1BlockRef → Address → List Bytes} {left : ι → List Bytes}
    (hl : Lawful src truthful items left) {e : ε} (he : truthful e) {base : L1BlockRef}
    {sysCfg : SystemConfig} {s : State ι}
    (hreach : Reaches (Step src fun s op => OpTruthful truthful op ∧ Opens src s op)
      (start src e base sysCfg) s) (heof : s.eof = true) :
    items s.l1r.prev.block s.l1r.prev.sysCfg.batcherAddr <+: s.delivered := by
  have hinv := hreach.invariant (start_inv hl he base sysCfg) fun _ _ hi hs => step_inv hl hi hs
  exact (hinv.delivered heof).2

/-- Whenever the traversal may advance, every item of its block was delivered, in order, if
`OpenData` does not fail when `NextData` opens a block. It is so for the sources of the factory and
for any other lawful ones. -/
theorem l1_data_delivered {β : Type} (ds : DataSourceFactory β) (contents : L1Contents β) :
    (∀ (e : DataFetcher β) (base : L1BlockRef) (sysCfg : SystemConfig) (s : State (DataIter β)),
      Truthful contents e →
      Reaches (Step ds.source fun s op => OpTruthful (Truthful contents) op ∧ Opens ds.source s op)
        (start ds.source e base sysCfg) s →
      s.eof = true →
      items ds contents s.l1r.prev.block s.l1r.prev.sysCfg.batcherAddr <+: s.delivered) ∧
    (∀ (ε ι : Type) (src : DataAvailabilitySource ε ι) (truthful : ε → Prop)
      (items : L1BlockRef → Address → List Bytes) (left : ι → List Bytes),
      Lawful src truthful items left →
      ∀ (e : ε) (base : L1BlockRef) (sysCfg : SystemConfig) (s : State ι),truthful e →
      Reaches (Step src fun s op => OpTruthful truthful op ∧ Opens src s op)
        (start src e base sysCfg) s →
      s.eof = true →
      items s.l1r.prev.block s.l1r.prev.sysCfg.batcherAddr <+: s.delivered) := by
  constructor
  · intro e base sysCfg s he hrch heof
    exact reached_delivered (factory_lawful ds contents) he hrch heof
  · intro ε ι src truthful items left hl e base sysCfg s he hrch heof
    exact reached_delivered hl he hrch heof

def batcher : Address := .fill 20 7

def inbox : Address := .fill 20 2

/-- Ecotone from L1 time 11 on; blobs are their own data. -/
def sampleFactory (beacon : Bool) : DataSourceFactory Bytes where
  dsCfg := ⟨inbox,some⟩
  beacon
  ecotoneTime := some 11

def sampleContents : L1Contents Bytes where
  txs h :=
    if h = hashOf 1 then [⟨2,some inbox,some batcher,[1,2],[]⟩,⟨2,some inbox,none,[9],[]⟩]
    else if h = hashOf 2 then [⟨blobTxType,some inbox,some batcher,[],[hashOf 21,hashOf 22]⟩]
    else []
  blob h := h.bytes.take 1

def sampleL1 (n : Nat) : L1BlockRef :=
  ⟨hashOf n,.ofNat n,hashOf (n - 1),.ofNat (10 + n)⟩

def online : DataFetcher Bytes where
  infoAndTxsByHash h := .found (sampleContents.txs h)
  getBlobsByHash _ hashes := .found (hashes.map fun h => some (sampleContents.blob h))

def offline : DataFetcher Bytes := ⟨fun _ => .failed,fun _ _ => .failed⟩

def sampleFetcher : L1Fetcher where
  blockByNumber n := .found (sampleL1 n.toNat)
  blockByHash _ := none
  fetchReceipts _ := some id

theorem online_truthful : Truthful sampleContents online where
  txs h := by
    cases h
    rfl
  blobs h i b hi := by
    cases h
    rw [getElem?_map] at hi
    obtain ⟨hash,hhs,hb⟩ := Option.map_eq_some_iff.mp hi
    exact ⟨hash,hhs,(Option.some.inj hb).symm⟩

theorem offline_truthful : Truthful sampleContents offline := ⟨nofun,nofun⟩

def sampleStart (beacon : Bool) : State (DataIter Bytes) :=
  start (sampleFactory beacon).source online (sampleL1 0) ⟨batcher,.fill 32 0,0⟩

theorem run_observe {β α : Type} (ds : DataSourceFactory β)
    {ok : State (DataIter β) → Op (DataFetcher β) → Prop} {ops : List (Op (DataFetcher β))}
    {s : State (DataIter β)} {f : State (DataIter β) → α} {a : α}
    (hok : ∀ s,∀ op ∈ ops,ok s op) (h : (runOps (exec ds.source) s ops).toOption.map f = some a) :
    ∃ s',Reaches (Step ds.source ok) s s' ∧ f s' = a :=
  runOps_observe (fun x _ op hop he => ⟨op,hok x op hop,he⟩) h

def observed (s : State (DataIter Bytes)) : Bool × L1BlockRef × Address × List Bytes :=
  (s.eof,s.l1r.prev.block,s.l1r.prev.sysCfg.batcherAddr,s.delivered)

def sampleCalls : List (Op (DataFetcher Bytes)) :=
  [.nextData online,.advanceL1Block sampleFetcher,.nextData offline,.nextData online,
    .nextData online,.advanceL1Block sampleFetcher,.nextData offline,.nextData online,
    .nextData offline,.nextData online]

theorem l1_data_delivered_sample : ∃ s : State (DataIter Bytes),
    s.eof = true ∧ s.l1r.prev.block = sampleL1 2 ∧ s.delivered = [[21],[22]] ∧
    items (sampleFactory true) sampleContents s.l1r.prev.block
      s.l1r.prev.sysCfg.batcherAddr <+: s.delivered := by
  have hok : ∀ s : State (DataIter Bytes),∀ op ∈ sampleCalls,
      OpTruthful (Truthful sampleContents) op ∧ Opens (sampleFactory true).source s op := by
    intro s op hop
    have hopens : ∀ e,Opens (sampleFactory true).source s (.nextData e) := by
      intro e _ _
      change ∃ it,(sampleFactory true).openData e _ _ = .ok it
      unfold DataSourceFactory.openData
      split
      · exact ⟨_,rfl⟩
      · exact ⟨_,rfl⟩
    simp only [sampleCalls,mem_cons,not_mem_nil,or_false] at hop
    rcases hop with rfl | rfl | rfl | rfl | rfl | rfl | rfl | rfl | rfl | rfl
    all_goals
      first
        | exact ⟨online_truthful,hopens _⟩
        | exact ⟨offline_truthful,hopens _⟩
        | exact ⟨trivial,trivial⟩
  obtain ⟨s,hrch,hobs⟩ := run_observe (sampleFactory true) (f := observed) hok
    (s := sampleStart true) (a := (true,sampleL1 2,batcher,[[21],[22]])) (by decide +kernel)
  obtain ⟨heof,hbk,-,hdel⟩ : s.eof = true ∧ s.l1r.prev.block = sampleL1 2 ∧
      s.l1r.prev.sysCfg.batcherAddr = batcher ∧ s.delivered = [[21],[22]] := by
    simpa [observed] using hobs
  refine ⟨s,heof,hbk,hdel,?_⟩
  exact (l1_data_delivered (sampleFactory true) sampleContents).1 online (sampleL1 0)
    ⟨batcher,.fill 32 0,0⟩ s online_truthful hrch heof

/-- Without a beacon node `OpenData` fails on the first Ecotone block. The next `NextData` finds the
block handed out already and returns `io.EOF`, so its batcher transaction is never delivered. -/
theorem unopened_block_skipped : ∃ s : State (DataIter Bytes),
    Reaches (Step (sampleFactory false).source fun _ op => OpTruthful (Truthful sampleContents) op)
      (sampleStart false) s ∧
    s.eof = true ∧ s.l1r.prev.block = sampleL1 1 ∧ s.delivered = [] ∧
    items (sampleFactory false) sampleContents s.l1r.prev.block
      s.l1r.prev.sysCfg.batcherAddr = [[1,2]] := by
  have hok : ∀ _ : State (DataIter Bytes),∀ op ∈
      [.nextData online,.advanceL1Block sampleFetcher,.nextData online,.nextData online],
      OpTruthful (Truthful sampleContents) op := by
    intro s op hop
    simp only [mem_cons,not_mem_nil,or_false] at hop
    rcases hop with rfl | rfl | rfl | rfl
    all_goals first | exact online_truthful | exact trivial
  obtain ⟨s,hrch,hobs⟩ := run_observe (sampleFactory false) (f := observed) hok
    (s := sampleStart false) (a := (true,sampleL1 1,batcher,[])) (by decide +kernel)
  obtain ⟨heof,hbk,haddr,hdel⟩ : s.eof = true ∧ s.l1r.prev.block = sampleL1 1 ∧
      s.l1r.prev.sysCfg.batcherAddr = batcher ∧ s.delivered = [] := by
    simpa [observed] using hobs
  refine ⟨s,hrch,heof,hbk,hdel,?_⟩
  rw [hbk,haddr]
  decide +kernel

end OpStack.Proofs.L1Data
