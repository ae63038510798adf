import OpStack.Proofs.SupervisorTrace

namespace OpStack.Fault
open Lib Eth Interop SupervisorSuperTraceProvider List UInt64

/-- Every timestamp is answered for, those after one without a super root have none either, and
super roots are derived from L1 in their order. -/
structure SupervisorSuperTraceProvider.Consistent (s : SupervisorSuperTraceProvider) : Prop where
  works : ∀ t,s.superRootAtTimestamp t ≠ .failed
  notFound : ∀ t t',t ≤ t' → s.superRootAtTimestamp t = .notFound →
    s.superRootAtTimestamp t' = .notFound
  ordered : ∀ t t' r r',t ≤ t' → s.superRootAtTimestamp t = .found r →
    s.superRootAtTimestamp t' = .found r' →
    r.crossSafeDerivedFrom.number ≤ r'.crossSafeDerivedFrom.number

def Stops (s : SupervisorSuperTraceProvider) (keccak256 : Bytes → Hash) (prev : SuperRootResponse)
    (t : UInt64) (n : Nat) : Prop :=
  s.rootAt (t + 1) = .ok none ∨ ∃ next,s.rootAt (t + 1) = .ok (some next) ∧
    ∃ heads,s.safeHeads next = .ok heads ∧ ∃ bytes,marshalSuper t prev = .ok bytes ∧
    s.optimisticBlocks keccak256 heads (t + 1) (next.chains.take n) = .ok none

section
variable {s : SupervisorSuperTraceProvider} {t t' : UInt64} {keccak256 : Bytes → Hash}
  {heads : List (ChainID × BlockID)} {infos rest : List ChainRootInfo} {prev : SuperRootResponse}

theorem safeRootAt_none_iff : s.safeRootAt t = .ok none ↔ s.superRootAtTimestamp t = .notFound ∨
    ∃ r,s.superRootAtTimestamp t = .found r ∧ s.l1Head.number < r.crossSafeDerivedFrom.number := by
  unfold safeRootAt rootAt
  cases s.superRootAtTimestamp t with
  | found r => simp
  | notFound => simp
  | failed => simp

theorem safeRootAt_none_later (h : s.Consistent) (hle : t ≤ t')
    (hnone : s.safeRootAt t = .ok none) : s.safeRootAt t' = .ok none := by
  rw [safeRootAt_none_iff] at hnone ⊢
  rcases hnone with hno | ⟨r,hr,hlt⟩
  · exact .inl (h.notFound t t' hle hno)
  cases hr' : s.superRootAtTimestamp t' with
  | found r' => exact .inr ⟨r',rfl,UInt64.lt_of_lt_of_le hlt (h.ordered t t' r r' hle hr hr')⟩
  | notFound => exact .inl rfl
  | failed => exact absurd hr' (h.works t')

theorem optimisticBlocks_cons_none {info : ChainRootInfo} :
    s.optimisticBlocks keccak256 heads t (info::infos) = .ok none ↔ ∃ reached,
      (if heads.isEmpty then .ok true else s.headReached heads t info.chainID) = .ok reached ∧
        (reached = true → (∃ output,unmarshalOutput info.pending = .ok output) ∧
          s.optimisticBlocks keccak256 heads t infos = .ok none) := by
  rw [optimisticBlocks,bind_ok_iff]
  refine exists_congr fun reached => and_congr_right fun _ => ?_
  cases reached with
  | false => simp
  | true =>
    cases unmarshalOutput info.pending with
    | error e => simp [Except.mapError]
    | ok output => simp [Except.mapError,bind_ok_iff]

theorem optimisticBlocks_append (h : s.optimisticBlocks keccak256 heads t infos = .ok none) :
    s.optimisticBlocks keccak256 heads t (infos ++ rest) = .ok none := by
  induction infos with
  | nil => cases h
  | cons info infos ih =>
    obtain ⟨reached,hrd,h⟩ := optimisticBlocks_cons_none.mp h
    rw [cons_append,optimisticBlocks_cons_none]
    exact ⟨reached,hrd,fun ht => (h ht).imp_right ih⟩

theorem optimisticBlocks_heads (h : s.optimisticBlocks keccak256 heads t infos = .ok none) :
    heads ≠ [] := by
  rintro rfl
  induction infos with
  | nil => cases h
  | cons info infos ih =>
    obtain ⟨_,hrd,h⟩ := optimisticBlocks_cons_none.mp h
    cases hrd
    exact ih (h rfl).2

theorem getPreimageBytes_invalid_iff {p : Position} {n : UInt64}
    (hp : s.computeStep p = .ok (t,n)) :
    s.getPreimageBytes keccak256 p = .ok invalidTransition ↔ s.safeRootAt t = .ok none ∨
      ∃ prev,s.safeRootAt t = .ok (some prev) ∧ n ≠ 0 ∧ Stops s keccak256 prev t n.toNat := by
  -- the version byte tells states from the invalid transition
  have hsta : ∀ st : TransitionState,st.marshal ≠ invalidTransition :=
    fun st h => absurd (cons.inj h).1 (by decide)
  have hsup : ∀ prev,marshalSuper t prev ≠ .ok invalidTransition := by
    intro prev
    unfold marshalSuper
    cases prev.toSuper.mapError (SupervisorTraceError.toSuper t) with
    | error e => simp [Except.map]
    | ok super => exact fun h => absurd (cons.inj (Except.ok.inj h)).1 (by decide)
  by_cases hn : n = 0
  · simp [getPreimageBytes,hp,hn,bind_ok_iff,Option.exists,hsup]
  · simp [getPreimageBytes,hp,hn,bind_ok_iff,Option.exists,hsta,Stops]

theorem Stops.later {n : Nat} (hstops : Stops s keccak256 prev t n) (h : s.Consistent)
    (hlt : t < t') : s.safeRootAt t' = .ok none := by
  have hle : t + 1 ≤ t' := by
    rw [le_iff_toNat_le,toNat_succ_lt hlt]
    exact lt_iff_toNat_lt.mp hlt
  refine safeRootAt_none_later h hle ?_
  rcases hstops with hno | ⟨next,hnx,heads,hhds,_,_,hbs⟩
  · simp [safeRootAt,hno]
  have hlate : s.l1Head.number < next.crossSafeDerivedFrom.number := by
    by_contra hsf
    rw [safeHeads,if_neg hsf] at hhds
    cases hhds
    exact optimisticBlocks_heads hbs rfl
  simp [safeRootAt,hnx,hlate]

theorem Stops.more {n n' : Nat} (h : Stops s keccak256 prev t n) (hle : n ≤ n') :
    Stops s keccak256 prev t n' := by
  refine h.imp_right ?_
  rintro ⟨next,hnx,heads,hhds,bytes,hby,hbs⟩
  refine ⟨next,hnx,heads,hhds,bytes,hby,?_⟩
  rw [← Nat.add_sub_cancel' hle,take_add]
  exact optimisticBlocks_append hbs

theorem invalid_later (h : s.Consistent) {p q : Position} {n n' : UInt64}
    (hp : s.computeStep p = .ok (t,n)) (hq : s.computeStep q = .ok (t',n'))
    (horder : t < t' ∨ t = t' ∧ n ≤ n')
    (hinvalid : s.getPreimageBytes keccak256 p = .ok invalidTransition) :
    s.getPreimageBytes keccak256 q = .ok invalidTransition := by
  rw [getPreimageBytes_invalid_iff hq]
  rcases (getPreimageBytes_invalid_iff hp).mp hinvalid with hno | ⟨prev,hpv,hn,hstops⟩
  · refine .inl (safeRootAt_none_later h ?_ hno)
    rcases horder with hlt | ⟨rfl,_⟩
    · exact UInt64.le_of_lt hlt
    · exact UInt64.le_refl _
  rcases horder with hlt | ⟨rfl,hle⟩
  · exact .inl (hstops.later h hlt)
  refine .inr ⟨prev,hpv,?_,hstops.more (le_iff_toNat_le.mp hle)⟩
  rintro rfl
  exact hn (UInt64.le_zero_iff.mp hle)

theorem stepAt_mono {first last k k' : UInt64} (hk : k.toNat ≤ k'.toNat)
    (hfit : first.toNat + k'.toNat / 128 < 2 ^ 64) :
    (stepAt first last k).1 < (stepAt first last k').1 ∨
      (stepAt first last k).1 = (stepAt first last k').1 ∧
        (stepAt first last k).2 ≤ (stepAt first last k').2 := by
  have h := @toNat_time first k (by omega)
  have h' := toNat_time hfit
  simp only [stepAt,le_iff_toNat_le,h]
  split
  · rw [if_pos (by omega)]
    exact .inr ⟨rfl,Nat.le_refl _⟩
  split
  · refine .inl (lt_iff_toNat_lt.mpr ?_)
    dsimp only
    omega
  · rw [lt_iff_toNat_lt,← UInt64.toNat_inj,h,h']
    change _ ∨ _ ∧ k.toNat % 128 ≤ k'.toNat % 128
    omega

end

/-- The steps of a trace come in order, and after an invalid one all are invalid. -/
theorem invalid_absorbing (s : SupervisorSuperTraceProvider) (keccak256 : Bytes → Hash)
    (h : s.Consistent) (hpre : s.prestateTimestamp.toNat < 2 ^ 63) (hdepth : s.gameDepth.toNat < 64)
    (p q : Position) (i j : Nat) (hp : p.traceIndex s.gameDepth = .ok i)
    (hq : q.traceIndex s.gameDepth = .ok j) (hij : i < j) (hj : j < 2 ^ s.gameDepth.toNat) :
    ∃ t n t' n',s.computeStep p = .ok (t,n) ∧ s.computeStep q = .ok (t',n') ∧
      (t < t' ∨ t = t' ∧ n ≤ n') ∧
      (s.getPreimageBytes keccak256 p = .ok invalidTransition →
        s.getPreimageBytes keccak256 q = .ok invalidTransition) := by
  have hpow : 2 ^ s.gameDepth.toNat ≤ 2 ^ 63 := Nat.pow_le_pow_right (by decide) (by omega)
  have hp' := computeStep_of hp (by omega)
  have hq' := computeStep_of hq (by omega)
  have hi := @toNat_index i (by omega)
  have hj' := @toNat_index j (by omega)
  have hod := @stepAt_mono s.prestateTimestamp s.poststateTimestamp (ofNat i + 1) (ofNat j + 1)
    (by omega) (by omega)
  exact ⟨_,_,_,_,hp',hq',hod,invalid_later h hp' hq' hod⟩

theorem gap_consistent : gapProvider.Consistent := by
  refine ⟨fun t => ?_,fun t t' hle hno => ?_,fun t t' r r' _ hr _ => ?_⟩
  · simp only [gapProvider]
    split <;> simp
  · simp only [gapProvider] at hno ⊢
    split at hno
    · exact if_pos (Nat.le_trans ‹_› (le_iff_toNat_le.mp hle))
    · cases hno
  simp only [gapProvider] at hr
  split at hr
  · cases hr
  · cases hr
    exact UInt64.zero_le

/-- The step after timestamp 1 is invalid, and so is the end of the trace. -/
theorem invalid_absorbing_sample :
    gapProvider.getPreimageBytes (fun _ => .fill 32 0) ⟨9,511⟩ = .ok invalidTransition := by
  obtain ⟨_,_,_,_,_,_,_,h⟩ := invalid_absorbing gapProvider (fun _ => .fill 32 0) gap_consistent
    (by decide) (by decide) ⟨9,128⟩ ⟨9,511⟩ 128 511 rfl rfl (by decide) (by decide)
  exact h rfl

end OpStack.Fault
