import OpStack.Supervisor.CrossSafe

namespace OpStack.Supervisor
open Lib Eth Interop

/-! Read handles. -/

structure ReadHandle where
  highestDerivedTimestamp : Option UInt64
  lowestInvalidatedDerivedTimestamp : Option UInt64
  highestSourceNum : Option UInt64
  lowestInvalidatedSourceNum : Option UInt64

inductive InvalidationRule where
  | derived (timestamp : UInt64)
  | source (number : UInt64)

namespace ReadHandle

def new : ReadHandle := ⟨none,none,none,none⟩

def raise (prev : Option UInt64) (x : UInt64) : Option UInt64 :=
  match prev with
  | none => some x
  | some y => if y < x then some x else some y

def lower (prev : Option UInt64) (x : UInt64) : Option UInt64 :=
  match prev with
  | none => some x
  | some y => if x < y then some x else some y

def dependOnDerivedTime (h : ReadHandle) (timestamp : UInt64) : ReadHandle :=
  { h with highestDerivedTimestamp := raise h.highestDerivedTimestamp timestamp }

def dependOnSourceBlock (h : ReadHandle) (blockNum : UInt64) : ReadHandle :=
  { h with highestSourceNum := raise h.highestSourceNum blockNum }

def apply (h : ReadHandle) : InvalidationRule → ReadHandle
  | .derived timestamp =>
    { h with lowestInvalidatedDerivedTimestamp :=
        lower h.lowestInvalidatedDerivedTimestamp timestamp }
  | .source number =>
    { h with lowestInvalidatedSourceNum := lower h.lowestInvalidatedSourceNum number }

def overlap : Option UInt64 → Option UInt64 → Bool
  | some hi,some lo => lo ≤ hi
  | _,_ => false

def isValid (h : ReadHandle) : Bool :=
  !overlap h.highestDerivedTimestamp h.lowestInvalidatedDerivedTimestamp &&
    !overlap h.highestSourceNum h.lowestInvalidatedSourceNum

end ReadHandle

/-! The update. -/

inductive Action where
  | read (q : Query)
  | dependOnSourceBlock (blockNum : UInt64)
  | dependOnDerivedTime (timestamp : UInt64)
  | isValid
  | updateCrossSafe (chain : ChainID) (l1View lastCrossDerived : BlockRef)
  | invalidateLocalSafe (chain : ChainID) (candidate : DerivedBlockRefPair)

def Action.Reply : Action → Type
  | .read q => q.Answer
  | .dependOnSourceBlock _ => Unit
  | .dependOnDerivedTime _ => Unit
  | .isValid => Bool
  | .updateCrossSafe _ _ _ => Option DBError
  | .invalidateLocalSafe _ _ => Option DBError

abbrev Acting := Dialogue Action Action.Reply

/-- `MustWithParent` panics where the parent is not the block before. -/
inductive UpdateError where
  | db (e : DBError)
  | invalidatedRead
  | undefinedScope
  | invalidParentBlock

namespace Acting

def reads {α : Type} : Dialogue Query Query.Answer α → Acting α
  | .done a => .done a
  | .ask q next => .ask (.read q) fun r => reads (next r)

def candidateCrossSafe (chain : ChainID) : Acting (DerivedBlockRefPair × Option DBError) :=
  .ask (.read (.candidateCrossSafe chain)) .done

def nextSource (chain : ChainID) (source : BlockID) : Acting (Except DBError BlockRef) :=
  .ask (.read (.nextSource chain source)) .done

def crossSafe (chain : ChainID) : Acting (Except DBError DerivedBlockSealPair) :=
  .ask (.read (.crossSafe chain)) .done

def previousCrossDerived (chain : ChainID) (derived : BlockID) :
    Acting (Except DBError BlockSeal) :=
  .ask (.read (.previousCrossDerived chain derived)) .done

def dependOnSourceBlock (blockNum : UInt64) : Acting Unit :=
  .ask (.dependOnSourceBlock blockNum) .done

def dependOnDerivedTime (timestamp : UInt64) : Acting Unit :=
  .ask (.dependOnDerivedTime timestamp) .done

def isValid : Acting Bool := .ask .isValid .done

def updateCrossSafe (chain : ChainID) (l1View lastCrossDerived : BlockRef) :
    Acting (Option DBError) :=
  .ask (.updateCrossSafe chain l1View lastCrossDerived) .done

def invalidateLocalSafe (chain : ChainID) (candidate : DerivedBlockRefPair) :
    Acting (Option DBError) :=
  .ask (.invalidateLocalSafe chain candidate) .done

end Acting

def BlockRef.isZero (r : BlockRef) : Bool := r = .zero

def withParent (b : BlockSeal) (parent : BlockSeal) : Option BlockRef :=
  if parent.id = .zero then some ⟨b.hash,b.number,.fill 32 0,b.timestamp⟩
  else if b.number ≠ parent.number + 1 ∧ b.number ≠ 0 then none
  else some ⟨b.hash,b.number,parent.hash,b.timestamp⟩

section
variable (linker : FullConfigSet) (orders : Orders) (chainID : ChainID)

def scopedCrossSafeReads : Acting (DerivedBlockRefPair × Option DBError) := do
  let (candidate,err) ← .candidateCrossSafe chainID
  match err with
  | some e => pure (candidate,some e)
  | none =>
    .dependOnSourceBlock candidate.source.number
    .dependOnDerivedTime candidate.derived.time
    let r ← .reads (crossSafeChecks linker orders chainID candidate).run
    match r with
    | .error e => pure (candidate,some e)
    | .ok _ => pure (candidate,none)

/-- A candidate that passes is promoted. With a handle that is no longer valid there is neither a
candidate nor an error. -/
def promote (candidate : DerivedBlockRefPair) (err : Option DBError) :
    Acting (DerivedBlockRefPair × Option DBError) :=
  match err with
  | some e => pure (candidate,some e)
  | none => do
    let valid ← .isValid
    if valid then
      let err ← .updateCrossSafe chainID candidate.source candidate.derived
      pure (candidate,err)
    else pure (⟨.zero,.zero⟩,none)

def scopedCrossSafeUpdate : Acting (DerivedBlockRefPair × Option DBError) := do
  let r ← scopedCrossSafeReads linker orders chainID
  promote chainID r.1 r.2

def bumpScope (candidate : DerivedBlockRefPair) : Acting (Option UpdateError) := do
  .dependOnSourceBlock (candidate.source.number + 1)
  match ← .nextSource chainID candidate.source.id with
  | .error e => pure (some (.db e))
  | .ok newScope =>
    match ← .crossSafe chainID with
    | .error e => pure (some (.db e))
    | .ok currentCrossSafe =>
      match ← .previousCrossDerived chainID currentCrossSafe.derived.id with
      | .error e => pure (some (.db e))
      | .ok parent =>
        match withParent currentCrossSafe.derived parent with
        | none => pure (some .invalidParentBlock)
        | some crossSafeRef =>
          let valid ← .isValid
          if valid then
            let err ← .updateCrossSafe chainID newScope crossSafeRef
            pure (err.map .db)
          else pure (some .invalidatedRead)

def conclude (candidate : DerivedBlockRefPair) (err : Option DBError) :
    Acting (Option UpdateError) :=
  match err with
  | none => do
    let valid ← .isValid
    pure (if valid then none else some .invalidatedRead)
  | some .conflict => do
    let err ← .invalidateLocalSafe chainID candidate
    pure (err.map .db)
  | some .outOfScope =>
    if BlockRef.isZero candidate.source then pure (some .undefinedScope)
    else bumpScope chainID candidate
  | some e => pure (some (.db e))

def crossSafeUpdate : Acting (Option UpdateError) := do
  let r ← scopedCrossSafeUpdate linker orders chainID
  conclude chainID r.1 r.2

end

/-! What happens around an update. -/

/-- Another component rewinds a chain: it invalidates the reads, changes the databases and releases
the registry. -/
inductive Event where
  | tryInvalidate (rules : List InvalidationRule)
  | change (db : Databases)
  | release

structure World where
  tick : Nat
  handle : ReadHandle
  invalidating : Option (List InvalidationRule)
  db : Databases

/-- A second invalidation is refused as long as the first is not released. -/
def World.happen (w : World) : Event → World
  | .tryInvalidate rules =>
    match w.invalidating with
    | some _ => w
    | none => { w with invalidating := some rules, handle := rules.foldl ReadHandle.apply w.handle }
  | .change db => { w with db := db }
  | .release => { w with invalidating := none }

structure Interleaving where
  events : Nat → List Event
  writes : Nat → Option DBError

def World.acquireHandle (invalidating : Option (List InvalidationRule)) (db : Databases) : World :=
  ⟨0,(invalidating.getD []).foldl ReadHandle.apply .new,invalidating,db⟩

def Interleaving.act (i : Interleaving) (a : Action) (w : World) : a.Reply × World :=
  let w := (i.events w.tick).foldl World.happen w
  let next := { w with tick := w.tick + 1 }
  match a with
  | .read q => (w.db.answer q,next)
  | .dependOnSourceBlock n => ((),{ next with handle := w.handle.dependOnSourceBlock n })
  | .dependOnDerivedTime t => ((),{ next with handle := w.handle.dependOnDerivedTime t })
  | .isValid => (w.handle.isValid,next)
  | .updateCrossSafe _ _ _ => (i.writes w.tick,next)
  | .invalidateLocalSafe _ _ => (i.writes w.tick,next)

abbrev Step := (a : Action) × a.Reply

/-- Whether the handle was valid at a check after which nothing was read. -/
def stillValid (armed : Bool) : Step → Bool
  | ⟨.read _,_⟩ => false
  | ⟨.isValid,valid⟩ => valid
  | ⟨.dependOnSourceBlock _,_⟩ => armed
  | ⟨.dependOnDerivedTime _,_⟩ => armed
  | ⟨.updateCrossSafe _ _ _,_⟩ => armed
  | ⟨.invalidateLocalSafe _ _,_⟩ => armed

def Step.isWrite : Step → Bool
  | ⟨.updateCrossSafe _ _ _,_⟩ => true
  | ⟨.invalidateLocalSafe _ _,_⟩ => true
  | _ => false

end OpStack.Supervisor
