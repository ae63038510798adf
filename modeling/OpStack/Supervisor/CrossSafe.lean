import OpStack.Interop.HazardCycle

namespace OpStack.Supervisor
open Lib Eth Interop

inductive DBError where
  | conflict
  | future
  | outOfScope
  | awaitReplacementBlock
  | other
  deriving DecidableEq

abbrev BlockRef := L1BlockRef

structure DerivedBlockRefPair where
  source : BlockRef
  derived : BlockRef
  deriving DecidableEq

structure DerivedBlockSealPair where
  source : BlockSeal
  derived : BlockSeal

inductive Query where
  | contains (chain : ChainID) (query : ContainsQuery)
  | crossDerivedToSource (chain : ChainID) (derived : BlockID)
  | openBlock (chain : ChainID) (blockNum : UInt64)
  | candidateCrossSafe (chain : ChainID)
  | nextSource (chain : ChainID) (source : BlockID)
  | crossSafe (chain : ChainID)
  | previousCrossDerived (chain : ChainID) (derived : BlockID)

/-- The number and timestamp of a block that contains a log are those asked for, so the answer is
its hash. A candidate may come with an error. -/
def Query.Answer : Query → Type
  | .contains _ _ => Except DBError Hash
  | .crossDerivedToSource _ _ => Except DBError BlockSeal
  | .openBlock _ _ => Except DBError (BlockRef × UInt32 × ExecMsgs)
  | .candidateCrossSafe _ => DerivedBlockRefPair × Option DBError
  | .nextSource _ _ => Except DBError BlockRef
  | .crossSafe _ => Except DBError DerivedBlockSealPair
  | .previousCrossDerived _ _ => Except DBError BlockSeal

abbrev Reading := Inquiry Query Query.Answer DBError

structure Databases where
  answer : (q : Query) → q.Answer

def Databases.read {α : Type} (db : Databases) (x : Reading α) : Except DBError α :=
  Inquiry.eval db.answer x

def outcome {α : Type} (x : Reading α) : Reading (Except DBError α) :=
  ExceptT.mk (x.run.bind fun r => .done (.ok r))

def contains (chain : ChainID) (query : ContainsQuery) : Reading BlockSeal := do
  let h ← ExceptT.mk (.ask (.contains chain query) .done)
  pure ⟨h,query.blockNum,query.timestamp⟩

def crossDerivedToSource (chain : ChainID) (derived : BlockID) : Reading BlockSeal :=
  ExceptT.mk (.ask (.crossDerivedToSource chain derived) .done)

def openBlock (chain : ChainID) (blockNum : UInt64) : Reading (BlockRef × UInt32 × ExecMsgs) :=
  ExceptT.mk (.ask (.openBlock chain blockNum) .done)

def candidateCrossSafe (chain : ChainID) : Reading (DerivedBlockRefPair × Option DBError) :=
  ExceptT.mk (.ask (.candidateCrossSafe chain) fun answer => .done (.ok answer))

/-! The hazards of a candidate. -/

def isCrossValidBlock (inL1Source : BlockID) (chain : ChainID) (derived : BlockID) :
    Reading Unit := do
  let initSource ← crossDerivedToSource chain derived
  if inL1Source.number < initSource.number then throw .outOfScope else pure ()

def checkChainCanExecute (linker : FullConfigSet) (chainID : ChainID) (block : BlockSeal)
    (execMsgs : ExecMsgs) : Except DBError Unit :=
  if execMsgs.all fun (_,m) =>
      linker.canExecute chainID block.timestamp m.chainID m.timestamp
  then .ok () else .error .conflict

def checkMessageWithCurrentTimestamp (entries : HazardEntries) (initChainID : ChainID)
    (includedIn : BlockSeal) : Except DBError Bool :=
  match entries.lookup initChainID with
  | some existing => if existing.id ≠ includedIn.id then .error .conflict else .ok true
  | none => .ok false

/-- The orders in which the maps are ranged over. Each visit to a block has its own. -/
structure Orders where
  messages : Nat → ExecMsgs → ExecMsgs
  frontier : HazardEntries → HazardEntries
  cycle : MapRanges
  messages_perm : ∀ k l, (messages k l).Perm l
  frontier_perm : ∀ l, (frontier l).Perm l

def Orders.stored : Orders where
  messages _ l := l
  frontier l := l
  cycle := ⟨fun _ _ l => l,fun _ _ l => .refl l⟩
  messages_perm _ l := .refl l
  frontier_perm l := .refl l

section
variable (linker : FullConfigSet) (inL1Source : BlockID)

def addMessage (candidate : BlockSeal) (m : ExecutingMessage)
    (s : HazardEntries × HazardEntries) : Reading (HazardEntries × HazardEntries) := do
  let includedIn ← contains m.chainID m.query
  if m.timestamp < candidate.timestamp then
    isCrossValidBlock inL1Source m.chainID includedIn.id
    pure s
  else if m.timestamp = candidate.timestamp then
    let exist ← ExceptT.mk (.done (checkMessageWithCurrentTimestamp s.1 m.chainID includedIn))
    if exist then pure s
    else pure ((m.chainID,includedIn) :: s.1,(m.chainID,includedIn) :: s.2)
  else throw .conflict

def addMessages (candidate : BlockSeal) : ExecMsgs → HazardEntries × HazardEntries →
    Reading (HazardEntries × HazardEntries)
  | [],s => pure s
  | (_,m)::rest,s => addMessage inL1Source candidate m s >>= addMessages candidate rest

def visitBlock (order : ExecMsgs → ExecMsgs) (chainID : ChainID) (candidate : BlockSeal)
    (s : HazardEntries × HazardEntries) : Reading (HazardEntries × HazardEntries) := do
  let (opened,_,execMsgs) ← openBlock chainID candidate.number
  if opened.id ≠ candidate.id then throw .conflict
  else
    ExceptT.mk (.done (checkChainCanExecute linker chainID candidate execMsgs))
    addMessages inL1Source candidate (order execMsgs) s

/-- `HazardSet.build`. The chain of a message is one of the linker's, and each of them is added at
most once. -/
def build (order : Nat → ExecMsgs → ExecMsgs) : Nat → Nat → HazardEntries → HazardEntries →
    Reading HazardEntries
  | 0,_,_,_ => throw .other
  | _+1,_,entries,[] => pure entries
  | fuel+1,step,entries,(chainID,candidate)::stack => do
    let s ← visitBlock linker inL1Source (order step) chainID candidate (entries,stack)
    build order fuel (step + 1) s.1 s.2

def crossSafeHazards (order : Nat → ExecMsgs → ExecMsgs) (chainID : ChainID)
    (candidate : BlockSeal) : Reading HazardEntries :=
  build linker inL1Source order (linker.chains.length + 2) 0 [] [(chainID,candidate)]

/-! The checks of the hazards. -/

def frontierCheck (chainID : ChainID) (hazardBlock : BlockSeal) : Reading Unit := do
  let initSource ← outcome (crossDerivedToSource chainID hazardBlock.id)
  match initSource with
  | .ok initSource =>
    if inL1Source.number < initSource.number then throw .outOfScope else pure ()
  | .error .future =>
    let (candidate,err) ← candidateCrossSafe chainID
    match err with
    | some .outOfScope => throw .future
    | some e => throw e
    | none =>
      if candidate.derived.number = hazardBlock.number ∧ candidate.derived.id ≠ hazardBlock.id then
        throw .conflict
      else if inL1Source.number < candidate.source.number then throw .outOfScope
      else pure ()
  | .error e => throw e

def hazardSafeFrontierChecks : HazardEntries → Reading Unit
  | [] => pure ()
  | (chainID,hazardBlock)::rest => do
    frontierCheck inL1Source chainID hazardBlock
    hazardSafeFrontierChecks rest

def gatherLogs (inTimestamp : UInt64) : HazardEntries → Reading (List ChainLogs)
  | [] => pure []
  | (chainID,hazardBlock)::rest => do
    let (bl,logCount,msgs) ← openBlock chainID hazardBlock.number
    if bl.id ≠ hazardBlock.id then throw .other
    else if msgs.any fun (logIdx,_) => logCount ≤ logIdx then throw .conflict
    else
      let logs ← gatherLogs inTimestamp rest
      pure (⟨chainID,logCount,msgs.filter fun (_,m) => m.timestamp = inTimestamp⟩::logs)

def ofHazardError : HazardError → DBError
  | .conflict => .conflict
  | .unknownChain => .other
  | .other => .other

def hazardCycleChecks (ranges : MapRanges) (inTimestamp : UInt64) (hazards : HazardEntries) :
    Reading Unit := do
  let logs ← gatherLogs inTimestamp (ranges.shuffle _ 0 hazards)
  let g ← ExceptT.mk (.done ((buildGraph ranges hazards logs).mapError ofHazardError))
  match checkGraph ranges logs g with
  | none => pure ()
  | some e => throw (ofHazardError e)

def blockSealFromRef (r : BlockRef) : BlockSeal := ⟨r.hash,r.number,r.time⟩

def crossSafeChecks (orders : Orders) (chainID : ChainID) (candidate : DerivedBlockRefPair) :
    Reading Unit := do
  let hazards ← crossSafeHazards linker candidate.source.id orders.messages chainID
    (blockSealFromRef candidate.derived)
  hazardSafeFrontierChecks candidate.source.id (orders.frontier hazards)
  hazardCycleChecks orders.cycle candidate.derived.time hazards

end

inductive Decision where
  | pass
  | conflict
  | outOfScope
  | future
  | other
  deriving DecidableEq

def decisionOf : Except DBError Unit → Decision
  | .ok _ => .pass
  | .error .conflict => .conflict
  | .error .outOfScope => .outOfScope
  | .error .future => .future
  | .error .awaitReplacementBlock => .other
  | .error .other => .other

end OpStack.Supervisor
