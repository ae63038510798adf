import OpStack.Rollup.Config

namespace OpStack.Derive
open Eth Rollup

inductive BlockByNumber where
  | found (b : L1BlockRef)
  | notFound
  | failed

inductive PipelineError where
  | eof
  | temporary
  | reset
  | critical
  | elSyncing
  | other
  deriving DecidableEq

/-- The answers of the L1 node during one call. `fetchReceipts` gives the update of the system
configuration by the receipts of a block. -/
structure L1Fetcher where
  blockByNumber : UInt64 → BlockByNumber
  blockByHash : Hash → Option L1BlockRef
  fetchReceipts : Hash → Option (SystemConfig → SystemConfig)

structure L1Traversal where
  block : L1BlockRef
  done : Bool
  sysCfg : SystemConfig

namespace L1Traversal

def nextL1Block (t : L1Traversal) : L1Traversal × Option L1BlockRef :=
  if t.done then (t,none) else ({ t with done := true },some t.block)

def advanceL1Block (l1 : L1Fetcher) (t : L1Traversal) : L1Traversal × Option PipelineError :=
  match l1.blockByNumber (t.block.number + 1) with
  | .notFound => (t,some .eof)
  | .failed => (t,some .temporary)
  | .found next =>
    if t.block.hash ≠ next.parentHash then (t,some .reset)
    else
      match l1.fetchReceipts next.hash with
      | none => (t,some .temporary)
      | some update => (⟨next,false,update t.sysCfg⟩,none)

theorem advanceL1Block_cases {l1 : L1Fetcher} {t t' : L1Traversal} {e : Option PipelineError}
    (h : t.advanceL1Block l1 = (t',e)) :
    (t' = t ∧ e ≠ none) ∨ (e = none ∧ ∃ next sysCfg,
      l1.blockByNumber (t.block.number + 1) = .found next ∧ t.block.hash = next.parentHash ∧
      t' = ⟨next,false,sysCfg⟩) := by
  unfold advanceL1Block at h
  split at h
  · cases h
    exact .inl ⟨rfl,nofun⟩
  · cases h
    exact .inl ⟨rfl,nofun⟩
  rename_i next hnx
  split at h
  · cases h
    exact .inl ⟨rfl,nofun⟩
  rename_i hpar
  split at h
  · cases h
    exact .inl ⟨rfl,nofun⟩
  · cases h
    exact .inr ⟨rfl,next,_,hnx,not_not.mp hpar,rfl⟩

def reset (base : L1BlockRef) (cfg : SystemConfig) : L1Traversal := ⟨base,false,cfg⟩

end L1Traversal

def verifyNewL1Origin (l1 : L1Fetcher) (unsafeOrigin newOrigin : L1BlockRef) :
    Option PipelineError :=
  if newOrigin.number = unsafeOrigin.number ∧ newOrigin ≠ unsafeOrigin then some .reset
  else if newOrigin.number = unsafeOrigin.number + 1 ∧
      newOrigin.parentHash ≠ unsafeOrigin.hash then some .reset
  else if unsafeOrigin.number + 1 < newOrigin.number then
    match l1.blockByNumber unsafeOrigin.number with
    | .found canonical => if canonical ≠ unsafeOrigin then some .reset else none
    | _ => some .temporary
  else none

end OpStack.Derive
