import Mathlib.Order.Bounds.Basic
import OpStack.Sync.Start

namespace OpStack.Proofs.SyncHeads
open Eth Sync List

/-- The L1: its blocks on all branches, each known by its hash, and the branch that is canonical. -/
structure L1Tree where
  block : L1BlockRef → Prop
  canon : List L1BlockRef
  unique : ∀ {a b},block a → block b → a.hash = b.hash → a = b
  nonzero : ∀ {a},block a → a.hash ≠ .fill 32 0
  canon_block : ∀ {b},b ∈ canon → block b
  number : ∀ {k : Nat} {b},canon[k]? = some b → b.number.toNat = k
  linked : ∀ {k : Nat} {a b},canon[k]? = some a → canon[k+1]? = some b → b.parentHash = a.hash
  first : ∀ {a b},canon[0]? = some b → block a → b.parentHash ≠ a.hash

namespace L1Tree
variable {t : L1Tree} {a b : L1BlockRef}

theorem getElem?_number (h : b ∈ t.canon) : t.canon[b.number.toNat]? = some b := by
  obtain ⟨k,hk⟩ := mem_iff_getElem?.mp h
  rw [t.number hk]
  exact hk

theorem eq_of_hash (hb : b ∈ t.canon) (ha : t.block a) (h : a.hash = b.hash) : a = b :=
  t.unique ha (t.canon_block hb) h

theorem parent_mem (hb : b ∈ t.canon) (ha : t.block a) (h : b.parentHash = a.hash) :
    a ∈ t.canon := by
  obtain ⟨k,hk⟩ := mem_iff_getElem?.mp hb
  cases k with
  | zero => exact absurd h (t.first hk ha)
  | succ k =>
    have hlen := (List.getElem?_eq_some_iff.mp hk).1
    have hpv : t.canon[k]? = some t.canon[k] := getElem?_eq_getElem (by omega)
    have hmem := mem_of_getElem? hpv
    rw [t.eq_of_hash hmem ha (h ▸ t.linked hpv hk)]
    exact hmem

end L1Tree

/-- The L2 chain by height, from the finalized to the unsafe head, with its L1 origins: from a block
to the next, the origin stays or its number advances by one. -/
structure L2Segment (t : L1Tree) where
  first : Nat
  last : Nat
  block : Nat → L2BlockRef
  origin : Nat → L1BlockRef
  number : ∀ {k},first ≤ k → k ≤ last → (block k).number.toNat = k
  linked : ∀ {k},first ≤ k → k < last → (block (k + 1)).parentHash = (block k).hash
  origin_block : ∀ {k},first ≤ k → k ≤ last → t.block (origin k)
  origin_id : ∀ {k},first ≤ k → k ≤ last → (block k).l1Origin = (origin k).id
  advance : ∀ {k},first ≤ k → k < last → origin (k + 1) = origin k ∨
    (origin (k + 1)).number.toNat = (origin k).number.toNat + 1

namespace L2Segment
variable {t : L1Tree} (seg : L2Segment t)

def Canonical (k : Nat) : Prop := seg.origin k ∈ t.canon

def Ahead (k : Nat) : Prop := t.canon.length ≤ (seg.origin k).number.toNat

def Plausible (k : Nat) : Prop := seg.Canonical k ∨ seg.Ahead k

def OriginsLinked : Prop := ∀ k,seg.first ≤ k → k < seg.last →
  seg.origin (k + 1) = seg.origin k ∨ (seg.origin (k + 1)).parentHash = (seg.origin k).hash

def HighestPlausible (low u : Nat) : Prop :=
  IsGreatest {k | low ≤ k ∧ k ≤ seg.last ∧ ∀ j,low ≤ j → j ≤ k → seg.Plausible j} u

def HighestCanonical (u h : Nat) : Prop :=
  IsGreatest {k | seg.first ≤ k ∧ k ≤ u ∧ seg.Canonical k} h

/-- The first block of its epoch, more than `lookback` L1 blocks behind the origin of `h`. -/
def Confirmed (lookback h m : Nat) : Prop :=
  (seg.block m).sequenceNumber = 0 ∧
    (seg.origin m).number.toNat + lookback < (seg.origin h).number.toNat

def HighestConfirmed (lookback safe h m : Nat) : Prop :=
  IsGreatest {k | seg.first ≤ k ∧ k ≤ safe ∧ seg.Confirmed lookback h k} m

/-- The heads that the search is to find, where the old safe head is at height `safe`. -/
def RightHeads (lookback safe : Nat) (result : FindHeadsResult) : Prop :=
  ∃ u s h,result = ⟨seg.block u,seg.block s,seg.block seg.first⟩ ∧
    seg.HighestPlausible s u ∧ (seg.OriginsLinked → seg.HighestPlausible seg.first u) ∧
    seg.HighestCanonical u h ∧ seg.first ≤ s ∧ s ≤ u ∧ s ≤ safe ∧
    (s = seg.first ∨ seg.HighestConfirmed lookback safe h (s + 1))

variable {seg} {j k : Nat}

theorem origin_hash (hk : seg.first ≤ k) (hkl : k ≤ seg.last) :
    (seg.block k).l1Origin.hash = (seg.origin k).hash := by
  rw [seg.origin_id hk hkl]
  rfl

theorem origin_mono (hj : seg.first ≤ j) (hjk : j ≤ k) (hk : k ≤ seg.last) :
    (seg.origin j).number.toNat ≤ (seg.origin k).number.toNat := by
  induction k,hjk using Nat.le_induction with
  | base => exact Nat.le_refl _
  | succ m hjm ih =>
    apply (ih (by omega)).trans
    rcases seg.advance (k := m) (by omega) (by omega) with h | h
    · rw [h]
    · omega

theorem Ahead.mono (h : seg.Ahead j) (hj : seg.first ≤ j) (hjk : j ≤ k) (hk : k ≤ seg.last) :
    seg.Ahead k := Nat.le_trans h (origin_mono hj hjk hk)

theorem Ahead.not_canonical (h : seg.Ahead k) : ¬ seg.Canonical k := by
  intro hc
  have hlen := (List.getElem?_eq_some_iff.mp (t.getElem?_number hc)).1
  unfold Ahead at h
  omega

theorem canonical_of_linked (hl : seg.OriginsLinked) (hj : seg.first ≤ j) (hjk : j ≤ k)
    (hk : k ≤ seg.last) (hc : seg.Canonical k) : seg.Canonical j := by
  induction k,hjk using Nat.le_induction with
  | base => exact hc
  | succ m hjm ih =>
    apply ih (by omega)
    rcases hl m (by omega) (by omega) with h | h
    · unfold Canonical at hc ⊢
      rwa [h] at hc
    · exact t.parent_mem hc (seg.origin_block (by omega) (by omega)) h

structure UnsafeFrom (seg : L2Segment t) (low u : Nat) : Prop where
  le : u ≤ seg.last
  covered : ∀ j,low ≤ j → j ≤ u → seg.Plausible j
  stop : u = seg.last ∨ ¬ seg.Plausible (u + 1)

/-- The highest block with a canonical origin, as far as the blocks from `low` on tell; from there
on down all origins are canonical. -/
structure TopCanonical (seg : L2Segment t) (low h : Nat) : Prop where
  low_le : low ≤ h
  le : h ≤ seg.last
  canonical : ∀ j,low ≤ j → j ≤ h → seg.Canonical j
  above : ∀ j,h < j → j ≤ seg.last → ¬ seg.Canonical j

variable {low u h : Nat}

theorem UnsafeFrom.cons (hu : seg.UnsafeFrom (k + 1) u) (hk : seg.Plausible k) :
    seg.UnsafeFrom k u := by
  refine ⟨hu.le,?_,hu.stop⟩
  intro j hj hju
  by_cases hjk : j = k
  · exact hjk ▸ hk
  · exact hu.covered j (by omega) hju

theorem TopCanonical.cons (hh : seg.TopCanonical (k + 1) h) (hk : seg.Canonical k) :
    seg.TopCanonical k h := by
  refine ⟨by have := hh.low_le; omega,hh.le,?_,hh.above⟩
  intro j hj hjh
  by_cases hjk : j = k
  · exact hjk ▸ hk
  · exact hh.canonical j (by omega) hjh

theorem UnsafeFrom.highestPlausible (hu : seg.UnsafeFrom low u) (hlow : low ≤ u) :
    seg.HighestPlausible low u := by
  refine ⟨⟨hlow,hu.le,hu.covered⟩,?_⟩
  rintro k ⟨-,hk,hplaus⟩
  rcases hu.stop with hls | hsp
  · omega
  · by_contra hlt
    exact hsp (hplaus (u + 1) (by omega) (by omega))

theorem TopCanonical.le_unsafe (hh : seg.TopCanonical low h) (hu : seg.UnsafeFrom low u)
    (hlow : low ≤ u) : h ≤ u := by
  rcases hu.stop with hls | hsp
  · exact hls ▸ hh.le
  · by_contra hlt
    exact hsp (.inl (hh.canonical (u + 1) (by omega) (by omega)))

theorem TopCanonical.highestCanonical (hh : seg.TopCanonical low h) (hfirst : seg.first ≤ low)
    (hhu : h ≤ u) (hu : u ≤ seg.last) : seg.HighestCanonical u h := by
  refine ⟨⟨Nat.le_trans hfirst hh.low_le,hhu,hh.canonical h hh.low_le (Nat.le_refl h)⟩,?_⟩
  rintro k ⟨-,hk,hc⟩
  by_contra hlt
  exact hh.above k (by omega) (by omega) hc

/-- Where the origins are linked, nothing below a canonical origin has to be looked at. -/
theorem HighestPlausible.of_linked (hu : seg.HighestPlausible low u) (hfirst : seg.first ≤ low)
    (hc : seg.Canonical low) (hl : seg.OriginsLinked) : seg.HighestPlausible seg.first u := by
  obtain ⟨⟨hlow,hle,hplaus⟩,hgreatest⟩ := hu
  refine ⟨⟨by omega,hle,?_⟩,?_⟩
  · intro j hj hju
    by_cases hjl : low ≤ j
    · exact hplaus j hjl hju
    · exact .inl (canonical_of_linked hl hj (by omega) (by omega) hc)
  · rintro k ⟨-,hk,hkplaus⟩
    by_contra hlt
    exact hlt (hgreatest ⟨by omega,hk,fun j hj => hkplaus j (by omega)⟩)

theorem rightHeads_of {lookback safe : Nat} (hfirst : seg.first ≤ low) (hsafe : low ≤ safe)
    (hlow : low ≤ u) (hu : seg.UnsafeFrom low u) (hh : seg.TopCanonical low h)
    (hend : low = seg.first ∨ seg.HighestConfirmed lookback safe h (low + 1)) :
    seg.RightHeads lookback safe ⟨seg.block u,seg.block low,seg.block seg.first⟩ := by
  have hplaus := hu.highestPlausible hlow
  have hc := hh.canonical low (Nat.le_refl low) hh.low_le
  have hcan := hh.highestCanonical hfirst (hh.le_unsafe hu hlow) hu.le
  exact ⟨u,low,h,rfl,hplaus,hplaus.of_linked hfirst hc,hcan,hfirst,hlow,hsafe,hend⟩

end L2Segment

end OpStack.Proofs.SyncHeads
