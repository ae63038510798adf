import OpStack.Lib.Search
import OpStack.Supervisor.CrossSafe

namespace OpStack.Supervisor.FromDA
open Lib Eth Interop

inductive LinkError where
  | future | skipped | notExact | conflict | awaitReplacementBlock | dataCorruption | outOfOrder
  | ineffective | previousToFirst | invalidateMismatch | alreadyInvalidating
  deriving DecidableEq

abbrev Revision := UInt64

def revisionAny : Revision := 0xffffffffffffffff

/-- The upper bit is reserved. -/
def Revision.number (r : Revision) : UInt64 := r &&& 0x7fffffffffffffff

def Revision.cmp (r : Revision) (blockNum : UInt64) : Ordering :=
  if r = revisionAny then .eq else compare r.number blockNum

def noHash : Hash := .fill 32 0

def blockSealFromRef (b : BlockRef) : BlockSeal := ⟨b.hash,b.number,b.time⟩

def forceWithParent (b : BlockSeal) (parent : BlockSeal) : BlockRef :=
  ⟨b.hash,b.number,parent.hash,b.timestamp⟩

structure LinkEntry where
  source : BlockSeal
  derived : BlockSeal
  revision : Revision
  invalidated : Bool

abbrev DB := List LinkEntry

namespace DB
variable (db : DB)

def readAt (i : Nat) : Except LinkError LinkEntry := orFail .future db[i]?

/-- The index of an entry, counted from the end in reverse. -/
def position (reverse : Bool) (i : Nat) : Nat := if reverse then db.length - 1 - i else i

def firstIndex (reverse : Bool) (cmpFn : LinkEntry → Ordering) : Nat :=
  search db.length fun i => db[db.position reverse i]?.any (cmpFn · != .lt)

def find (reverse acceptClosest : Bool) (cmpFn : LinkEntry → Ordering) :
    Except LinkError (Nat × LinkEntry) :=
  if db.length = 0 then .error .future
  else if db.firstIndex reverse cmpFn = db.length then
    .error (if reverse then .skipped else .future)
  else do
    let result := db.position reverse (db.firstIndex reverse cmpFn)
    let link ← db.readAt result
    if cmpFn link = .eq then .ok (result,link)
    else if db.firstIndex reverse cmpFn = 0 then .error (if reverse then .future else .skipped)
    else if acceptClosest then .ok (result,link)
    else .error .notExact

def derivedNumToFirstSource (derivedNum : UInt64) (revision : Revision) :=
  db.find false false fun link => (revision.cmp link.revision.number).swap.then
    (compare link.derived.number derivedNum)

def derivedNumToLastSource (derivedNum : UInt64) (revision : Revision) :=
  db.find true false fun link => (revision.cmp link.revision.number).then
    (compare derivedNum link.derived.number)

def sourceNumToFirstDerived (sourceNum : UInt64) :=
  db.find false false fun link => compare link.source.number sourceNum

def sourceNumToLastDerived (sourceNum : UInt64) :=
  db.find true false fun link => compare sourceNum link.source.number

def lookup (source derived : UInt64) :=
  db.find true false fun link => (compare source link.source.number).then
    (compare derived link.derived.number)

def lookupOrAfter (source derived : UInt64) :=
  db.find false true fun link => (compare link.source.number source).then
    (compare link.derived.number derived)

def latest : Except LinkError LinkEntry := orFail .future db.getLast?

def last : Except LinkError DerivedBlockSealPair := do
  let link ← db.latest
  if link.invalidated then .error .awaitReplacementBlock else .ok ⟨link.source,link.derived⟩

def lastRevision : Except LinkError Revision := do
  let link ← db.latest
  .ok link.revision

def previousSource (source : BlockID) : Except LinkError BlockSeal := do
  let (i,self) ← db.sourceNumToFirstDerived source.number
  if self.source.id ≠ source then .error .conflict
  else if i = 0 then
    if self.source.number = 0 then .ok ⟨noHash,0,0⟩ else .error .previousToFirst
  else do
    let prev ← db.readAt (i - 1)
    .ok prev.source

section addLink
variable (source derived : BlockRef) (invalidated : Hash) (revision : Revision) (last : LinkEntry)

def checkRevision : Except LinkError Unit :=
  if revision = revisionAny then .ok ()
  else if invalidated = noHash then
    if last.revision ≠ revision ∧ derived.number ≠ revision.number then .error .dataCorruption
    else .ok ()
  else if derived.hash = invalidated then
    if last.revision = revision then .error .conflict
    else if derived.number ≠ revision.number then .error .dataCorruption
    else .ok ()
  else .ok ()

/-- The block that a link of the same height meets: the one it invalidates, if any, or itself. -/
def known : Hash := if invalidated ≠ noHash then invalidated else derived.hash

/-- The L2 chain has no gaps. A block that is invalidated or replaced may be an older one. -/
def checkDerived : Except LinkError Unit :=
  if last.derived.number = derived.number then
    if last.derived.hash ≠ known derived invalidated then .error .conflict else .ok ()
  else if last.derived.number + 1 = derived.number then
    if last.derived.hash ≠ derived.parentHash then .error .conflict else .ok ()
  else if last.derived.number + 1 < derived.number then .error .future
  else if invalidated ≠ noHash then do
    let (_,v) ← db.derivedNumToLastSource derived.number last.revision
    if v.derived.hash ≠ invalidated then .error .invalidateMismatch else .ok ()
  else .error .outOfOrder

def checkSource : Except LinkError Unit :=
  if last.source.number = source.number then
    if last.source.hash ≠ source.hash then .error .conflict else .ok ()
  else if last.source.number + 1 = source.number then
    if last.source.hash ≠ source.parentHash then .error .conflict else .ok ()
  else if last.source.number + 1 < source.number then .error .future
  else if last.derived.hash = derived.hash then do
    let (_,got) ← db.lookup source.number derived.number
    .error (if got.source.hash ≠ source.hash then .conflict else .ineffective)
  else .error .outOfOrder

def Invalidates : Prop := invalidated ≠ noHash ∧ derived.hash = invalidated

instance : Decidable (Invalidates derived invalidated) := inferInstanceAs (Decidable (_ ∧ _))

def link : LinkEntry :=
  ⟨blockSealFromRef source,blockSealFromRef derived,revision,Invalidates derived invalidated⟩

def newEntry : Except LinkError (Option LinkEntry) :=
  match db.getLast? with
  | none =>
    if Invalidates derived invalidated then .error .conflict
    else .ok (some (link source derived invalidated (if revision = revisionAny then 0 else revision)))
  | some last =>
    if last.invalidated then .error .awaitReplacementBlock
    else do
      checkRevision derived invalidated revision last
      if last.source.number + 1 = source.number ∧ last.derived.number + 1 = derived.number then
        .error .outOfOrder
      else if last.derived.id = derived.id ∧ last.source.id = source.id then .ok none
      else do
        db.checkDerived derived invalidated last
        db.checkSource source derived last
        .ok (some (link source derived invalidated
          (if revision = revisionAny then last.revision else revision)))

def reading {α β : Type} (x : Except LinkError α) (f : α → DB × Except LinkError β) :
    DB × Except LinkError β :=
  match x with
  | .error e => (db,.error e)
  | .ok a => f a

def addLink : DB × Except LinkError Unit :=
  db.reading (db.newEntry source derived invalidated revision) fun
    | none => (db,.ok ())
    | some link => (db ++ [link],.ok ())

end addLink

def addDerived (source derived : BlockRef) (revision : Revision) : DB × Except LinkError Unit :=
  db.addLink source derived noHash revision

-- whether `TryInvalidate` succeeds
variable (inv : Bool)

def placeholder (invalidated : Hash) : Except LinkError (LinkEntry × BlockRef) :=
  if !inv then .error .alreadyInvalidating
  else do
    let last ← db.latest
    if !last.invalidated then .error .conflict
    else if last.derived.hash ≠ invalidated then .error .conflict
    else do
      let prevSource ← db.previousSource last.source.id
      .ok (last,forceWithParent last.source prevSource)

def replaceInvalidatedBlock (replacement : BlockRef) (invalidated : Hash) :
    DB × Except LinkError DerivedBlockRefPair :=
  db.reading (db.placeholder inv invalidated) fun (last,source) =>
    let (db,result) := addLink db.dropLast source replacement invalidated last.revision
    (db,result.map fun _ => ⟨source,replacement⟩)

def invalidationIndex (invalidated : DerivedBlockRefPair) : Except LinkError Nat :=
  if !inv then .error .alreadyInvalidating
  else do
    let (i,link) ← db.lookupOrAfter invalidated.source.number invalidated.derived.number
    if link.invalidated then .error .awaitReplacementBlock
    else if link.source.hash ≠ invalidated.source.hash then .error .conflict
    else if link.derived.hash ≠ invalidated.derived.hash ∧
        link.derived.number ≤ invalidated.derived.number then .error .conflict
    else .ok i

def rewindAndInvalidate (invalidated : DerivedBlockRefPair) : DB × Except LinkError Unit :=
  db.reading (db.invalidationIndex inv invalidated) fun i =>
    addLink (db.take i) invalidated.source invalidated.derived invalidated.derived.hash
      invalidated.derived.number

def rewind (target : DerivedBlockSealPair) (including : Bool) : DB × Except LinkError Unit :=
  if !inv then (db,.error .alreadyInvalidating)
  else db.reading (db.lookup target.source.number target.derived.number) fun (i,link) =>
    if link.source.hash ≠ target.source.hash then (db,.error .conflict)
    else if link.derived.hash ≠ target.derived.hash then (db,.error .conflict)
    else (db.take (if including then i else i + 1),.ok ())

def clear : DB × Except LinkError Unit :=
  if !inv then (db,.error .alreadyInvalidating) else ([],.ok ())

def rewindToSource (source : BlockID) : DB × Except LinkError Unit :=
  match db.sourceNumToLastDerived source.number with
  | .error e => if e = .skipped ∨ e = .previousToFirst then db.clear inv else (db,.error e)
  | .ok (_,link) =>
    if link.source.id ≠ source then (db,.error .conflict)
    else db.rewind inv ⟨link.source,link.derived⟩ false

def rewindToFirstDerived (v : BlockID) (revision : Revision) : DB × Except LinkError Unit :=
  db.reading (db.derivedNumToFirstSource v.number revision) fun (_,link) =>
    if link.derived.id ≠ v then (db,.error .conflict)
    else db.rewind inv ⟨link.source,link.derived⟩ false

end DB

inductive Call where
  | addDerived (source derived : BlockRef) (revision : Revision)
  | replaceInvalidatedBlock (replacement : BlockRef) (invalidated : Hash)
  | rewindAndInvalidate (invalidated : DerivedBlockRefPair)
  | rewind (target : DerivedBlockSealPair) (including : Bool)
  | rewindToSource (source : BlockID)
  | rewindToFirstDerived (v : BlockID) (revision : Revision)
  | clear

def Call.exec (inv : Bool) (db : DB) : Call → DB × Except LinkError Unit
  | .addDerived source derived revision => db.addDerived source derived revision
  | .replaceInvalidatedBlock replacement invalidated =>
    let (db,result) := db.replaceInvalidatedBlock inv replacement invalidated
    (db,result.map fun _ => ())
  | .rewindAndInvalidate invalidated => db.rewindAndInvalidate inv invalidated
  | .rewind target including => db.rewind inv target including
  | .rewindToSource source => db.rewindToSource inv source
  | .rewindToFirstDerived v revision => db.rewindToFirstDerived inv v revision
  | .clear => db.clear inv

/-- The entries after calls on a fresh database, each with whether `TryInvalidate` succeeds. -/
def run (calls : List (Bool × Call)) : DB :=
  calls.foldl (fun db (inv,call) => (call.exec inv db).1) []

end OpStack.Supervisor.FromDA
