import OpStack.Derive.ChannelBank
import OpStack.Lib.Tables
import OpStack.Proofs.ChannelSize

namespace OpStack.Proofs.ChannelBank
open Lib Eth Derive Derive.ChannelBank Rollup Config ChannelFrames ChannelSize AList

def sizeSum (channels : Channels) : Nat := tableSum (fun ch => ch.size.toNat) channels

variable {total : UInt64} {queue : List ChannelID} {channels : Channels} {id : ChannelID}

structure Matches (queue : List ChannelID) (channels : Channels) : Prop where
  nodup : queue.Nodup
  keys : ∀ id,id ∈ queue ↔ id ∈ channels

/-- No size is subtracted that is larger than what is left of the total. -/
def NoUnderflow (limit : UInt64) : List ChannelID → Channels → UInt64 → Prop
  | [],_,_ => True
  | id::queue,channels,total => limit < total → ∀ ch,channels.lookup id = some ch →
      ch.size ≤ total ∧ NoUnderflow limit queue (channels.erase id) (total - ch.size)

theorem Matches.lookup (h : Matches queue channels) (hid : id ∈ queue) :
    ∃ ch,channels.lookup id = some ch :=
  Option.isSome_iff_exists.mp (lookup_isSome.mpr ((h.keys id).mp hid))

theorem Matches.tail (h : Matches (id::queue) channels) : Matches queue (channels.erase id) := by
  obtain ⟨hnot,hnd⟩ := List.nodup_cons.mp h.nodup
  refine ⟨hnd,fun x => ?_⟩
  rw [mem_erase,← h.keys,List.mem_cons]
  constructor
  · intro hx
    refine ⟨?_,.inr hx⟩
    rintro rfl
    exact hnot hx
  · rintro ⟨hne,hx⟩
    exact hx.resolve_left hne

theorem Matches.sum_nil (h : Matches [] channels) : sizeSum channels = 0 := by
  have hno : channels.entries = [] := by
    cases he : channels.entries with
    | nil => rfl
    | cons e es =>
      have hmem : e.1 ∈ channels := by
        show e.1 ∈ channels.entries.keys
        rw [he]
        simp
      cases (h.keys e.1).mpr hmem
  unfold sizeSum tableSum
  simp [hno]

theorem pruneLoop_ends (limit : UInt64) (h : Matches queue channels)
    (ht : total.toNat = sizeSum channels) : NoUnderflow limit queue channels total ∧
    ∃ cb,pruneLoop limit queue channels total = .ok cb ∧ Matches cb.channelQueue cb.channels ∧
      sizeSum cb.channels ≤ limit.toNat ∧
      ∀ id ch,cb.channels.lookup id = some ch → channels.lookup id = some ch := by
  induction queue generalizing channels total with
  | nil =>
    have hz := h.sum_nil
    have hle : ¬ limit < total := by
      rw [UInt64.lt_iff_toNat_lt]
      omega
    refine ⟨trivial,⟨channels,[]⟩,?_,h,?_,fun _ _ hl => hl⟩
    · simp [pruneLoop,hle]
    · show sizeSum channels ≤ _
      omega
  | cons id queue ih =>
    by_cases hlt : limit < total
    · obtain ⟨ch,hch⟩ := h.lookup List.mem_cons_self
      have hsum : sizeSum channels = ch.size.toNat + sizeSum (channels.erase id) :=
        tableSum_lookup _ hch
      have hle : ch.size ≤ total := by
        rw [UInt64.le_iff_toNat_le]
        omega
      have hsub : (total - ch.size).toNat = sizeSum (channels.erase id) := by
        rw [UInt64.toNat_sub_of_le _ _ hle]
        omega
      obtain ⟨hsf,cb,hcb,hmatch,hlim,hkp⟩ := ih h.tail hsub
      refine ⟨?_,cb,?_,hmatch,hlim,?_⟩
      · intro _ ch' hch'
        rw [hch] at hch'
        cases hch'
        exact ⟨hle,hsf⟩
      · simp [pruneLoop,hlt,hch,hcb]
      intro x c hc
      have hc' := hkp x c hc
      by_cases hx : x = id
      · rw [hx,lookup_erase] at hc'
        cases hc'
      · rw [lookup_erase_ne hx] at hc'
        exact hc'
    · refine ⟨fun hlt' => absurd hlt' hlt,⟨channels,id::queue⟩,?_,h,?_,fun _ _ hl => hl⟩
      · simp [pruneLoop,hlt]
      rw [UInt64.not_lt,UInt64.le_iff_toNat_le] at hlt
      show sizeSum channels ≤ _
      omega

variable {cfg : Config} {cb cb' : ChannelBank} {origin : L1BlockRef} {f : Frame} {ch : Channel}
  {bank : ChannelBank} {i : Nat}

def maxBankSize : Nat := maxChannelBankSizeFjord.toNat

theorem maxChannelBankSizeAt_le (cfg : Config) (t : UInt64) :
    (cfg.maxChannelBankSizeAt t).toNat ≤ maxBankSize := by
  unfold maxChannelBankSizeAt
  split
  · exact Nat.le_refl _
  · decide

structure Inv (cb : ChannelBank) : Prop where
  same : Matches cb.channelQueue cb.channels
  sized : ∀ id ch,cb.channels.lookup id = some ch → Sized ch
  total : sizeSum cb.channels ≤ maxBankSize

theorem newChannelBank_inv : Inv newChannelBank := by
  refine ⟨⟨List.nodup_nil,fun id => ?_⟩,?_,Nat.zero_le _⟩
  · simp [newChannelBank]
  · nofun

/-- A Go slice has a length below `2 ^ 63`. -/
def Fits (f : Frame) : Prop := f.data.length < 2 ^ 63

theorem frameSize_toNat (h : Fits f) : (frameSize f).toNat < 2 ^ 63 + 201 := by
  unfold Fits at h
  unfold frameSize frameOverhead
  simp
  omega

theorem lookup_insert_channel (channels : Channels) (id x : ChannelID) (ch : Channel) :
    (channels.insert id ch).lookup x = if x = id then some ch else channels.lookup x := by
  by_cases hx : x = id
  · rw [hx,if_pos rfl,AList.lookup_insert]
  · rw [if_neg hx,AList.lookup_insert_ne hx]

theorem channelFor_inv (hi : Inv cb) (hfor : channelFor origin f cb = (cb',ch)) :
    Inv cb' ∧ cb'.channels.lookup f.id = some ch := by
  unfold channelFor at hfor
  cases hl : cb.channels.lookup f.id with
  | some c =>
    rw [hl] at hfor
    cases hfor
    exact ⟨hi,hl⟩
  | none =>
    rw [hl] at hfor
    cases hfor
    have hnot := AList.lookup_eq_none.mp hl
    refine ⟨⟨⟨?_,?_⟩,?_,?_⟩,AList.lookup_insert _⟩
    · rw [List.nodup_append]
      refine ⟨hi.same.nodup,by simp,?_⟩
      intro x hx y hy
      rw [List.mem_singleton.mp hy]
      rintro rfl
      exact hnot ((hi.same.keys _).mp hx)
    · intro x
      rw [List.mem_append,List.mem_singleton,AList.mem_insert,hi.same.keys]
      exact or_comm
    · intro x c hc
      rw [lookup_insert_channel] at hc
      split at hc
      · cases hc
        exact newChannel_sized _ _ _
      · exact hi.sized x c hc
    have hsum : sizeSum (cb.channels.insert f.id (.newChannel f.id origin false)) =
        0 + sizeSum (cb.channels.erase f.id) := tableSum_insert _
    rw [erase_of_not_mem hnot] at hsum
    have htot := hi.total
    show sizeSum (cb.channels.insert f.id (.newChannel f.id origin false)) ≤ _
    omega

theorem insertFrame_size_le (hs : Sized ch) (ht : Taken ch f) (l1 : L1BlockRef)
    (hbound : ch.size.toNat + (frameSize f).toNat < 2 ^ 64) :
    (ch.insertFrame f l1).size.toNat ≤ ch.size.toNat + (frameSize f).toNat := by
  rw [insertFrame_size,UInt64.toNat_add]
  by_cases hp : Prunes ch f
  · rw [if_pos hp,hs.opened (ht.open_last hp.1)]
    simp
  · rw [if_neg hp]
    omega

def PruneArg (cfg : Config) (origin : L1BlockRef) (f : Frame) (cb bank : ChannelBank) : Prop :=
  ∃ cb₁ ch ch',channelFor origin f cb = (cb₁,ch) ∧ timedOut cfg origin ch = false ∧
    ch.addFrame f origin = .ok ch' ∧ bank = { cb₁ with channels := cb₁.channels.insert f.id ch' }

theorem pruneArg_spec (hi : Inv cb) (hf : Fits f)
    (h : PruneArg cfg origin f cb bank) : Matches bank.channelQueue bank.channels ∧
    (∀ id ch,bank.channels.lookup id = some ch → Sized ch) ∧
    (totalSize bank.channels).toNat = sizeSum bank.channels := by
  obtain ⟨cb₁,ch,ch',hfor,-,hadd,rfl⟩ := h
  obtain ⟨hi₁,hch⟩ := channelFor_inv hi hfor
  obtain ⟨ht,rfl⟩ := addFrame_ok_iff.mp hadd
  have hszd := hi₁.sized _ _ hch
  refine ⟨⟨hi₁.same.nodup,?_⟩,?_,?_⟩
  · intro x
    rw [hi₁.same.keys,mem_insert]
    constructor
    · exact .inr
    rintro (rfl | hx)
    · exact lookup_isSome.mp (by rw [hch]; rfl)
    · exact hx
  · intro x c hc
    rw [lookup_insert_channel] at hc
    split at hc
    · cases hc
      exact insertFrame_sized hszd ht
    · exact hi₁.sized x c hc
  have hfs := frameSize_toNat hf
  have htot := hi₁.total
  have hold : sizeSum cb₁.channels = ch.size.toNat + sizeSum (cb₁.channels.erase f.id) :=
    tableSum_lookup _ hch
  have hnew : sizeSum (cb₁.channels.insert f.id (ch.insertFrame f origin)) =
      (ch.insertFrame f origin).size.toNat + sizeSum (cb₁.channels.erase f.id) :=
    tableSum_insert _
  have hmax : maxBankSize = 1000000000 := rfl
  have hle := insertFrame_size_le hszd ht origin (by omega)
  refine toNat_sum _ _ ?_
  show sizeSum (cb₁.channels.insert f.id (ch.insertFrame f origin)) < _
  omega

theorem prune_noUnderflow (hi : Inv cb) (hf : Fits f) (h : PruneArg cfg origin f cb bank) :
    NoUnderflow (cfg.maxChannelBankSizeAt origin.time) bank.channelQueue bank.channels
      (totalSize bank.channels) := by
  obtain ⟨hmatch,-,htot⟩ := pruneArg_spec hi hf h
  exact (pruneLoop_ends _ hmatch htot).1

theorem ingestFrame_inv (cfg : Config) (origin : L1BlockRef) (hi : Inv cb) (hf : Fits f) :
    ∃ cb' stored,ingestFrame cfg origin f cb = .ok (cb',stored) ∧ Inv cb' ∧
      (stored = true → sizeSum cb'.channels ≤ (cfg.maxChannelBankSizeAt origin.time).toNat) := by
  unfold ingestFrame
  cases hfor : channelFor origin f cb with
  | mk cb₁ ch =>
    obtain ⟨hi₁,-⟩ := channelFor_inv hi hfor
    have hsk : ∃ cb' stored,(.ok (cb₁,false) : Except BankPanic _) = .ok (cb',stored) ∧
        Inv cb' ∧ (stored = true →
          sizeSum cb'.channels ≤ (cfg.maxChannelBankSizeAt origin.time).toNat) :=
      ⟨cb₁,false,rfl,hi₁,nofun⟩
    simp only
    cases hout : timedOut cfg origin ch with
    | true => exact hsk
    | false =>
      cases hadd : ch.addFrame f origin with
      | error e => exact hsk
      | ok ch' =>
        obtain ⟨hmatch,hszd,htot⟩ := pruneArg_spec hi hf ⟨cb₁,ch,ch',hfor,hout,hadd,rfl⟩
        obtain ⟨-,cb₂,hprune,hmatch₂,hlim,hkp⟩ := pruneLoop_ends
          (cfg.maxChannelBankSizeAt origin.time) hmatch htot
        refine ⟨cb₂,true,?_,⟨hmatch₂,?_,?_⟩,fun _ => hlim⟩
        · simp [prune,hprune]
        · intro id c hc
          exact hszd id c (hkp id c hc)
        · exact Nat.le_trans hlim (maxChannelBankSizeAt_le cfg origin.time)

theorem reader_of_isReady (h : ch.isReady = true) : ∃ data,ch.reader = some data := by
  unfold Channel.isReady at h
  rw [Bool.and_eq_true,List.all_eq_true] at h
  unfold Channel.reader
  generalize List.range (ch.endFrameNumber.toNat + 1) = indices at h
  obtain ⟨-,hall⟩ := h
  induction indices with
  | nil => exact ⟨[],rfl⟩
  | cons i indices ih =>
    obtain ⟨data,hda⟩ := ih fun x hx => hall x (List.mem_cons_of_mem _ hx)
    obtain ⟨g,hg⟩ := Option.isSome_iff_exists.mp (hall i List.mem_cons_self)
    rw [List.foldrM_cons,hda]
    simp [hg]

theorem Inv.remove (hi : Inv cb) {id : ChannelID} (hid : cb.channelQueue[i]? = some id)
    (hch : cb.channels.lookup id = some ch) :
    Inv ⟨cb.channels.erase id,cb.channelQueue.eraseIdx i⟩ := by
  have hlen := lt_of_getElem? hid
  have herase : cb.channelQueue.eraseIdx i = cb.channelQueue.erase id := by
    rw [← (List.getElem?_eq_some_iff.mp hid).2]
    exact (hi.same.nodup.erase_getElem i hlen).symm
  refine ⟨⟨?_,?_⟩,?_,?_⟩
  · exact hi.same.nodup.sublist (List.eraseIdx_sublist _ _)
  · intro x
    rw [herase,hi.same.nodup.mem_erase_iff,mem_erase,hi.same.keys]
  · intro x c hc
    by_cases hx : x = id
    · rw [hx,lookup_erase] at hc
      cases hc
    · rw [lookup_erase_ne hx] at hc
      exact hi.sized x c hc
  · have hold : sizeSum cb.channels = ch.size.toNat + sizeSum (cb.channels.erase id) :=
      tableSum_lookup _ hch
    have htot := hi.total
    show sizeSum (cb.channels.erase id) ≤ _
    omega

def Reads (cb : ChannelBank) (x : Except BankPanic (ChannelBank × ReadResult)) : Prop :=
  ∃ cb' res,x = .ok (cb',res) ∧ Inv cb' ∧ (res = .eof → cb' = cb)

theorem tryReadChannelAtIndex_reads (cfg : Config) (origin : L1BlockRef) (hi : Inv cb)
    (h : i < cb.channelQueue.length) : Reads cb (tryReadChannelAtIndex cfg origin i cb) := by
  have hid := List.getElem?_eq_getElem h
  obtain ⟨ch,hch⟩ := hi.same.lookup (List.getElem_mem h)
  unfold tryReadChannelAtIndex
  simp only [hid,hch]
  by_cases hsk : (timedOut cfg origin ch || !ch.isReady) = true
  · rw [if_pos hsk]
    exact ⟨cb,.eof,rfl,hi,fun _ => rfl⟩
  rw [if_neg hsk]
  have hrdy : ch.isReady = true := by
    rw [Bool.or_eq_true,not_or] at hsk
    simpa using hsk.2
  obtain ⟨data,hda⟩ := reader_of_isReady hrdy
  rw [hda]
  exact ⟨_,_,rfl,hi.remove hid hch,nofun⟩

theorem tryReadFrom_reads (hi : Inv cb) {n : Nat} (h : i + n ≤ cb.channelQueue.length) :
    Reads cb (tryReadFrom cfg origin cb i n) := by
  induction n generalizing i with
  | zero => exact ⟨cb,.eof,rfl,hi,fun _ => rfl⟩
  | succ n ih =>
    obtain ⟨cb₁,res,hres,hi₁,heof⟩ := tryReadChannelAtIndex_reads cfg origin hi (i := i) (by omega)
    unfold tryReadFrom
    rw [hres]
    cases res with
    | eof => exact ih (by omega)
    | data data => exact ⟨cb₁,_,rfl,hi₁,heof⟩
    | timedOut => exact ⟨cb₁,_,rfl,hi₁,heof⟩

theorem read_reads (cfg : Config) (origin : L1BlockRef) (hi : Inv cb) :
    Reads cb (read cfg origin cb) := by
  unfold Derive.ChannelBank.read
  cases hq : cb.channelQueue with
  | nil => exact ⟨cb,.eof,rfl,hi,fun _ => rfl⟩
  | cons first rest =>
    have hid : cb.channelQueue[0]? = some first := by rw [hq]; rfl
    obtain ⟨ch,hch⟩ := hi.same.lookup (List.mem_of_getElem? hid)
    simp only [hch]
    cases hout : timedOut cfg origin ch with
    | true =>
      have hrem := hi.remove hid hch
      rw [hq] at hrem
      exact ⟨_,_,rfl,hrem,nofun⟩
    | false =>
      simp only [Bool.false_eq_true,if_false]
      split
      · exact tryReadChannelAtIndex_reads cfg origin hi (by rw [hq]; simp)
      refine tryReadFrom_reads hi ?_
      rw [hq]
      simp

inductive Op where
  | ingestFrame (origin : L1BlockRef) (f : Frame)
  | read (origin : L1BlockRef)
  | nextRawChannel (origin : L1BlockRef) (next : Except StageError Frame)
  | reset

def Op.Fits : Op → Prop
  | .ingestFrame _ f => ChannelBank.Fits f
  | .nextRawChannel _ (.ok f) => ChannelBank.Fits f
  | _ => True

def Op.limit (cfg : Config) : Op → UInt64
  | .ingestFrame origin _ | .nextRawChannel origin _ | .read origin =>
    cfg.maxChannelBankSizeAt origin.time
  | .reset => 0

def exec (cfg : Config) (cb : ChannelBank) : Op → Except BankPanic (ChannelBank × Bool)
  | .ingestFrame origin f => cb.ingestFrame cfg origin f
  | .read origin => (cb.read cfg origin).map fun r => (r.1,false)
  | .nextRawChannel origin next => (cb.nextRawChannel cfg origin next).map fun r => (r.1,r.2.2)
  | .reset => .ok (cb.reset,false)

def Step (cfg : Config) (cb cb' : ChannelBank) : Prop :=
  ∃ op stored,Op.Fits op ∧ exec cfg cb op = .ok (cb',stored)

theorem exec_inv (cfg : Config) (hi : Inv cb) (op : Op) (hf : op.Fits) :
    ∃ cb' stored,exec cfg cb op = .ok (cb',stored) ∧ Inv cb' ∧
      (stored = true → sizeSum cb'.channels ≤ (op.limit cfg).toNat) := by
  cases op with
  | ingestFrame origin f => exact ingestFrame_inv cfg origin hi hf
  | read origin =>
    obtain ⟨cb',res,hres,hi',-⟩ := read_reads cfg origin hi
    refine ⟨cb',false,?_,hi',nofun⟩
    simp [exec,hres,Except.map]
  | nextRawChannel origin next =>
    obtain ⟨cb₁,res,hres,hi₁,-⟩ := read_reads cfg origin hi
    have hno : ∀ r : RawChannelResult,cb.nextRawChannel cfg origin next = .ok (cb₁,r,false) →
        ∃ cb' stored,exec cfg cb (.nextRawChannel origin next) = .ok (cb',stored) ∧ Inv cb' ∧
          (stored = true → sizeSum cb'.channels ≤
            ((Op.nextRawChannel origin next).limit cfg).toNat) := by
      intro r hr
      refine ⟨cb₁,false,?_,hi₁,nofun⟩
      simp [exec,hr,Except.map]
    cases res with
    | data data =>
      refine hno (.data (some data)) ?_
      simp [nextRawChannel,hres]
    | timedOut =>
      refine hno (.data none) ?_
      simp [nextRawChannel,hres]
    | eof =>
      cases next with
      | error e =>
        refine hno (.error e) ?_
        simp [nextRawChannel,hres]
      | ok frame =>
        obtain ⟨cb₂,stored,hin,hi₂,hlim⟩ := ingestFrame_inv cfg origin hi₁ hf
        refine ⟨cb₂,stored,?_,hi₂,hlim⟩
        simp [exec,nextRawChannel,hres,hin,Except.map]
  | reset => exact ⟨cb.reset,false,rfl,newChannelBank_inv,nofun⟩

/-- In every state reached, the queue is a duplicate-free list of the keys of the map, and every
operation ends: no channel is missing, no index out of range, the total of `prune` does not
underflow, and after a frame was stored the channels are within the limit. -/
theorem channel_bank_invariant (cfg : Config) (cb : ChannelBank)
    (h : Reaches (Step cfg) newChannelBank cb) :
    cb.channelQueue.Nodup ∧ (∀ id,id ∈ cb.channelQueue ↔ id ∈ cb.channels) ∧
    (∀ op : Op,op.Fits → ∃ cb' stored,exec cfg cb op = .ok (cb',stored) ∧
      (stored = true → sizeSum cb'.channels ≤ (op.limit cfg).toNat)) ∧
    ∀ origin f bank,Fits f → PruneArg cfg origin f cb bank →
      NoUnderflow (cfg.maxChannelBankSizeAt origin.time) bank.channelQueue bank.channels
        (totalSize bank.channels) := by
  have hi : Inv cb := by
    apply h.invariant newChannelBank_inv
    rintro x y hx ⟨op,stored,hf,hex⟩
    obtain ⟨cb',stored',hok,hi',-⟩ := exec_inv cfg hx op hf
    rw [hex] at hok
    cases hok
    exact hi'
  refine ⟨hi.same.nodup,hi.same.keys,?_,?_⟩
  · intro op hf
    obtain ⟨cb',stored,hok,-,hlim⟩ := exec_inv cfg hi op hf
    exact ⟨cb',stored,hok,hlim⟩
  · intro origin f bank hf harg
    exact prune_noUnderflow hi hf harg

theorem step_of_exec {op : Op} {cb' : ChannelBank} (hf : op.Fits)
    (h : (exec cfg cb op).map Prod.fst = .ok cb') : Step cfg cb cb' := by
  obtain ⟨r,he,h⟩ := of_bind_ok h
  cases h
  exact ⟨op,r.2,hf,he⟩

theorem run_observe {ops : List Op} {α : Type} {f : ChannelBank → α} {a : α}
    (hf : ∀ op ∈ ops,op.Fits)
    (h : (runOps (fun cb op => (exec cfg cb op).map Prod.fst) cb ops).toOption.map f = some a) :
    ∃ cb',Reaches (Step cfg) cb cb' ∧ f cb' = a :=
  runOps_observe (fun _ _ op hop hexec => step_of_exec (hf op hop) hexec) h

def sampleOps : List Op :=
  [.ingestFrame .zero ⟨.fill 16 1,0,[1],false⟩,
    .nextRawChannel .zero (.ok ⟨.fill 16 2,0,[2],true⟩),.read .zero]

/-- Two channels, of which the second one is read first. -/
theorem channel_bank_invariant_sample :
    ∃ cb,Reaches (Step sampleConfig) newChannelBank cb ∧ cb.channelQueue = [.fill 16 1] ∧
      cb.channelQueue.Nodup ∧ ∀ id,id ∈ cb.channelQueue ↔ id ∈ cb.channels := by
  have hrun : (runOps (fun cb op => (exec sampleConfig cb op).map Prod.fst) newChannelBank
      sampleOps).toOption.map ChannelBank.channelQueue = some [.fill 16 1] := by
    decide +kernel
  have hfi : ∀ op ∈ sampleOps,op.Fits := by simp [sampleOps,Op.Fits,Fits]
  obtain ⟨cb,hrch,hqu⟩ := run_observe hfi hrun
  have hinv := channel_bank_invariant sampleConfig cb hrch
  exact ⟨cb,hrch,hqu,hinv.1,hinv.2.1⟩

end OpStack.Proofs.ChannelBank
