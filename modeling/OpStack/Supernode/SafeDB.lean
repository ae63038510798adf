import OpStack.Eth.Types

namespace OpStack.Supernode
open Eth

structure Entry where
  l1 : BlockID
  l2 : BlockID

/-- The entries from the last L1 number, which is the key, down. -/
abbrev SafeDB := List Entry

namespace SafeDB
variable (db : SafeDB)

def set (e : Entry) : SafeDB :=
  db.filter (e.l1.number < ·.l1.number) ++ e::db.filter (·.l1.number < e.l1.number)

def safeHeadUpdated (safeHead : L2BlockRef) (l1Head : BlockID) : SafeDB :=
  SafeDB.set db ⟨l1Head,safeHead.id⟩

-- Iterators leave out the largest key, which no L1 block has.
def safeHeadReset (safeHead : L2BlockRef) : SafeDB :=
  match db.reverse.find? fun e =>
    safeHead.l1Origin.number ≤ e.l1.number ∧ safeHead.number ≤ e.l2.number with
  | none => db
  | some e =>
    let kept := db.filter (·.l1.number < e.l1.number)
    let hasPrevEntry := db.any (·.l1.number < e.l1.number)
    if hasPrevEntry then set kept ⟨e.l1,safeHead.id⟩ else kept

def safeHeadAtL1 (l1BlockNum : UInt64) : Option Entry := db.find? (·.l1.number < l1BlockNum + 1)

inductive L1AtSafeHeadError where
  | notFound
  | unavailable

def walkBack (genesisL1 target : UInt64) (cursor : BlockID) : Except L1AtSafeHeadError BlockID :=
  if cursor.number ≤ 0 ∨ cursor.number ≤ genesisL1 then .error .unavailable
  else
    match _h : db.safeHeadAtL1 (cursor.number - 1) with
    | none => .error .unavailable
    | some prev => if target ≤ prev.l2.number then walkBack genesisL1 target prev.l1 else .ok cursor
termination_by cursor.number.toNat
decreasing_by simpa [UInt64.lt_iff_toNat_lt] using List.find?_some _h

def l1AtSafeHead (genesisL1 genesisL2 target : BlockID) : Except L1AtSafeHeadError BlockID :=
  if target = genesisL2 then .ok BlockID.zero
  else
    match db.safeHeadAtL1 (18446744073709551615 - 1) with
    | none => .error .notFound
    | some latest =>
      if latest.l2.number < target.number then .error .notFound
      else db.walkBack genesisL1.number target.number latest.l1

end SafeDB
end OpStack.Supernode
