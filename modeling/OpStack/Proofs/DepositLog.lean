import OpStack.Derive.DepositLog

namespace OpStack.Proofs.DepositLog
open Eth Lib Derive List

variable {keccak256 : Bytes → Hash} {ev : DepositLog} {dep : DepositTx} {bs : Bytes}

theorem slice_ok {lo hi : Nat} (h : lo ≤ hi) (hlen : hi ≤ bs.length) :
    slice lo hi bs = .ok ((bs.drop lo).take (hi - lo)) := if_pos ⟨h,hlen⟩

/-- The length of the content that the log states. -/
def statedLength (ev : DepositLog) : Nat := ofBe ((ev.data.drop 32).take 32)

theorem version0_eq (recipient : Address) (hlen : 73 ≤ bs.length) :
    unmarshalDepositVersion0 dep recipient bs = .ok { dep with
      mint := if ofBe (bs.take 32) = 0 then none else some (ofBe (bs.take 32))
      value := ofBe ((bs.drop 32).take 32)
      gas := .ofNat (ofBe ((bs.drop 64).take 8))
      recipient := if (bs.drop 72).take 1 = [0] then some recipient else none
      data := bs.drop 73 } := by
  have hgas := ofBe_lt ((bs.drop 64).take 8)
  rw [length_take_of_le (by simp; omega)] at hgas
  have hdata : (bs.drop 73).take (bs.length - 73) = bs.drop 73 := take_of_length_le (by simp)
  unfold unmarshalDepositVersion0
  rw [if_neg (by omega),slice_ok (by decide) (by omega),slice_ok (by decide) (by omega),
    slice_ok (by decide) (by omega),slice_ok (by decide) (by omega),slice_ok hlen (Nat.le_refl _)]
  simp only [ok_bind,drop_zero,Nat.reduceSub,hdata]
  rw [if_neg (by omega)]
  rfl

theorem version0_ends (recipient : Address) :
    Ends (fun _ => True) (· ≠ .outOfRange) (unmarshalDepositVersion0 dep recipient bs) := by
  by_cases hlen : bs.length < 73
  · rw [unmarshalDepositVersion0,if_pos hlen]
    exact .error (by simp)
  · rw [version0_eq recipient (by omega)]
    trivial

/-- The check of the stated length: it fits, and a word more would not. -/
theorem contentLength_iff {n rest : Nat} (h : rest < 2 ^ 63) :
    (2 ^ 64 ≤ n ∨ UInt64.ofNat rest < .ofNat n ∨ .ofNat n + 32 ≤ UInt64.ofNat rest) ↔
      ¬ (n ≤ rest ∧ rest < n + 32) := by
  simp only [UInt64.lt_iff_toNat_lt,UInt64.le_iff_toNat_le,UInt64.toNat_add,UInt64.toNat_ofNat',
    UInt64.reduceToNat]
  omega

theorem contentEnd {n : Nat} (h : n < 2 ^ 63) : (64 + .ofNat n : UInt64).toNat = 64 + n := by
  simp only [UInt64.toNat_add,UInt64.toNat_ofNat',UInt64.reduceToNat]
  omega

theorem unmarshal_ends (hfits : ev.data.length < 2 ^ 63) :
    Ends (fun _ => ev.data.length = 64 + (statedLength ev + 31) / 32 * 32) (· ≠ .outOfRange)
      (unmarshalDepositLogEvent keccak256 ev) := by
  unfold unmarshalDepositLogEvent
  split
  case h_2 => exact .error (by simp)
  refine .guard (by simp) fun hsel => .guard (by simp) fun hlen =>
    .guard (by simp) fun hal => ?_
  rw [slice_ok (by decide) (by omega),slice_ok (by decide) (by omega)]
  have hstated : ofBe ((ev.data.drop 32).take (64 - 32)) = statedLength ev := rfl
  refine .guard (by simp) fun hoff => .guard (by simp) fun hcon => ?_
  rw [contentLength_iff (by omega)] at hcon
  rw [contentEnd (by omega),slice_ok (by omega) (by omega)]
  refine .guard (by simp) fun hver => (version0_ends _).mono fun _ _ => ?_
  omega

theorem unmarshal_accepts {sender recipient : Hash} {n : Nat}
    (htop : ev.topics = [depositEventABIHash keccak256,sender,recipient,depositEventVersion0])
    (hfits : ev.data.length < 2 ^ 63) (hlen : ev.data.length = 64 + (n + 31) / 32 * 32)
    (hoff : ofBe (ev.data.take 32) = 32) (hstated : statedLength ev = n) :
    unmarshalDepositLogEvent keccak256 ev = unmarshalDepositVersion0
      ⟨userDepositSourceHash keccak256 ev.blockHash ev.index,topicAddress sender,none,none,0,0,
        false,[]⟩ (topicAddress recipient) ((ev.data.drop 64).take n) := by
  unfold statedLength at hstated
  rw [unmarshalDepositLogEvent,htop]
  dsimp only
  rw [if_neg (by simp),if_neg (by omega),if_neg (by omega),slice_ok (by decide) (by omega),
    slice_ok (by decide) (by omega)]
  simp only [ok_bind,drop_zero,Nat.sub_zero,hoff,hstated]
  rw [if_neg (by decide),if_neg (by rw [contentLength_iff (by omega)]; omega),
    contentEnd (by omega),slice_ok (by omega) (by omega),ok_bind,if_neg (by simp),
    Nat.add_sub_cancel_left]

theorem topicAddress_padded (a : Address) : topicAddress (addressAsLeftPaddedHash a) = a := by
  simp [topicAddress,addressAsLeftPaddedHash]

/-- The content of a deposit is read back, when the topic holds the account that is called. -/
theorem version0_marshal (start : DepositTx) {recipient : Address}
    (hto : ∀ a,dep.recipient = some a → recipient = a) (hmint : dep.mint.getD 0 < 2 ^ 256)
    (hvalue : dep.value < 2 ^ 256) : ∃ content,marshalDepositVersion0 dep = .ok content ∧
      unmarshalDepositVersion0 start recipient content = .ok { start with
        recipient := dep.recipient,mint := dep.mint.filter (· ≠ 0),value := dep.value
        gas := dep.gas,data := dep.data } := by
  have hg := dep.gas.toNat_lt
  have hmint : ofBe (beBytes 32 (dep.mint.getD 0)) = _ := ofBe_beBytes (by omega)
  have hvalue : ofBe (beBytes 32 dep.value) = _ := ofBe_beBytes (by omega)
  have hgas : ofBe (beBytes 8 dep.gas.toNat) = _ := ofBe_beBytes (by omega)
  refine ⟨_,by rw [marshalDepositVersion0,if_neg (by omega),if_neg (by omega)],?_⟩
  rw [version0_eq _ (by simp; omega)]
  simp [drop_append,drop_of_length_le,hmint,hvalue,hgas]
  constructor
  · cases hd : dep.recipient with
    | none => rfl
    | some a => simp [hto a hd]
  · cases dep.mint with
    | none => rfl
    | some m => by_cases hz : m = 0 <;> simp [hz,Option.filter]

theorem padding_length (n : Nat) : (padding n).length = (n + 31) / 32 * 32 - n := by
  unfold padding
  split
  · simp
    omega
  · simp
    omega

/-- A log, of less than `2 ^ 63` bytes as every slice, is read or refused without a slice that is
not there, and one that is read fills its words. What is logged is read back, but for the source
hash, which is that of the log, and a mint of zero. -/
theorem deposit_logs (keccak256 : Bytes → Hash) :
    (∀ ev : DepositLog,ev.data.length < 2 ^ 63 →
      Ends (fun _ => ev.data.length = 64 + (statedLength ev + 31) / 32 * 32) (· ≠ .outOfRange)
        (unmarshalDepositLogEvent keccak256 ev)) ∧
    ∀ dep : DepositTx,dep.mint.getD 0 < 2 ^ 256 → dep.value < 2 ^ 256 →
      ∃ log,marshalDepositLogEvent keccak256 dep = .ok log ∧ (log.data.length < 2 ^ 63 →
        unmarshalDepositLogEvent keccak256 log = .ok { dep with
          sourceHash := userDepositSourceHash keccak256 (.fill 32 0) 0
          mint := dep.mint.filter (· ≠ 0)
          isSystemTransaction := false }) := by
  refine ⟨fun ev => unmarshal_ends,fun dep hmint hvalue => ?_⟩
  have hto : ∀ a,dep.recipient = some a →
      topicAddress (dep.recipient.elim (.fill 32 0) addressAsLeftPaddedHash) = a := by
    intro a ha
    simp [ha,topicAddress_padded]
  obtain ⟨content,hcon,hread⟩ := version0_marshal
    ⟨userDepositSourceHash keccak256 (.fill 32 0) 0,dep.sender,none,none,0,0,false,[]⟩ hto
    hmint hvalue
  unfold marshalDepositLogEvent
  rw [hcon]
  refine ⟨_,rfl,fun hfits => ?_⟩
  dsimp only at hfits
  generalize hdata : beBytes 32 32 ++ beBytes 32 (content.length % 2 ^ 64) ++ content ++
    padding _ = data at hfits ⊢
  have hlen : data.length = 64 + (content.length + 31) / 32 * 32 := by
    simp [← hdata,padding_length]
    omega
  have hcontent : (data.drop 64).take content.length = content := by
    simp [← hdata,drop_append,drop_of_length_le]
  rw [unmarshal_accepts rfl hfits hlen,hcontent,topicAddress_padded,hread]
  · simp [← hdata,ofBe_beBytes]
  · rw [statedLength,← hdata]
    simp
    rw [Nat.mod_eq_of_lt (by omega),ofBe_beBytes (by omega)]

theorem deposit_logs_sample : ∃ log,
    marshalDepositLogEvent (fun _ => .fill 32 7) ⟨.fill 32 0,.fill 20 1,none,some 0,5,9,true,[3]⟩ =
      .ok log ∧ unmarshalDepositLogEvent (fun _ => .fill 32 7) log =
        .ok ⟨.fill 32 7,.fill 20 1,none,none,5,9,false,[3]⟩ := by
  obtain ⟨log,hlog,hread⟩ := (deposit_logs fun _ => .fill 32 7).2
    ⟨.fill 32 0,.fill 20 1,none,some 0,5,9,true,[3]⟩ (by decide) (by decide)
  refine ⟨log,hlog,hread ?_⟩
  cases hlog
  decide +kernel

end OpStack.Proofs.DepositLog
