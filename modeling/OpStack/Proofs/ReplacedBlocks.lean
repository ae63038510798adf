import Mathlib.Data.List.Chain
import OpStack.Proofs.Config
import OpStack.Supervisor.FromDA

namespace OpStack.Supervisor.FromDA
open Lib Eth Proofs.Config List Interop DB Nat

namespace DB

section checks
variable (db : DB) (source derived : BlockRef) (invalidated : Hash) (revision : Revision)
  (last : LinkEntry)

/-- The revision of a link after the last entry. Only an invalidation has to change it. -/
def RevisionFits : Prop :=
  revision = revisionAny ∨
    (invalidated = noHash ∧ (last.revision = revision ∨ derived.number = revision.number)) ∨
    (invalidated ≠ noHash ∧
      (derived.hash = invalidated → last.revision ≠ revision ∧ derived.number = revision.number))

/-- The L2 block of a link is that of the last entry, its child, or an older one that is known and is
invalidated. -/
def DerivedFits : Prop :=
  (last.derived.number = derived.number ∧ last.derived.hash = known derived invalidated) ∨
  (last.derived.number + 1 = derived.number ∧ last.derived.hash = derived.parentHash) ∨
  (last.derived.number ≠ derived.number ∧ derived.number < last.derived.number + 1 ∧
    invalidated ≠ noHash ∧ ∃ i v,db.derivedNumToLastSource derived.number last.revision = .ok (i,v) ∧
      v.derived.hash = invalidated)

def SourceFits : Prop :=
  (last.source.number = source.number ∧ last.source.hash = source.hash) ∨
  (last.source.number + 1 = source.number ∧ last.source.hash = source.parentHash)

def Repeats : Prop := last.derived.id = derived.id ∧ last.source.id = source.id

structure Accepts : Prop where
  valid : last.invalidated = false
  revision : RevisionFits derived invalidated revision last
  single : ¬ (last.source.number + 1 = source.number ∧ last.derived.number + 1 = derived.number)
  link : Repeats source derived last ∨
    (db.DerivedFits derived invalidated last ∧ SourceFits source last)

def Admits : Prop :=
  match db.getLast? with
  | none => ¬ Invalidates derived invalidated
  | some last => db.Accepts source derived invalidated revision last

def revisionOr : Revision :=
  if revision = revisionAny then db.getLast?.elim 0 (·.revision) else revision

variable {db source derived invalidated revision last}

theorem checkRevision_ok_iff : checkRevision derived invalidated revision last = .ok () ↔
    RevisionFits derived invalidated revision last := by
  unfold checkRevision RevisionFits
  split_ifs with hany hreg hbump hinv hrev hnum
  · simp [hany]
  · simp [hany,hreg,hbump]
  · simp only [hany,hreg,true_and,ne_eq,not_true_eq_false,false_and,or_false,false_or,true_iff]
    exact not_and_or.mp hbump |>.imp not_not.mp not_not.mp
  · simp [hany,hreg,hinv,hrev]
  · simp [hany,hreg,hinv,hnum]
  · simp [hany,hreg,hrev,not_not.mp hnum]
  · simp [hreg,hinv]

theorem checkDerived_ok_iff : db.checkDerived derived invalidated last = .ok () ↔
    db.DerivedFits derived invalidated last := by
  unfold checkDerived DerivedFits
  split_ifs with hsm hhs hnx hpar hfar hinv
  · simp [hsm,hhs]
  · simp [hsm,not_not.mp hhs]
  · simp [hsm,hnx,hpar]
  · simp [hnx,not_not.mp hpar]
  · simp [hsm,hnx,UInt64.not_lt.mpr (UInt64.le_of_lt hfar)]
  · have hlt := UInt64.lt_of_le_of_ne (UInt64.not_lt.mp hfar) (Ne.symm hnx)
    simp only [hsm,hnx,hlt,hinv,false_and,false_or,true_and,ne_eq]
    cases db.derivedNumToLastSource derived.number last.revision with
    | error e => simp
    | ok r =>
      obtain ⟨i,v⟩ := r
      simp
  · simp [hsm,hnx,hinv]

theorem checkSource_ok_iff :
    db.checkSource source derived last = .ok () ↔ SourceFits source last := by
  unfold checkSource SourceFits
  split_ifs with hsm hhs hnx hpar hfar hder
  · simp [hsm,hhs]
  · simp [hsm,not_not.mp hhs]
  · simp [hsm,hpar]
  · simp [hnx,not_not.mp hpar]
  · simp [hsm,hnx]
  · simp only [hsm,hnx,false_and,or_self,iff_false]
    cases db.lookup source.number derived.number with
    | error e => nofun
    | ok r => nofun
  · simp [hsm,hnx]

theorem andThen_ok_iff {α : Type} {x : Except LinkError Unit} {y : Except LinkError α} {a : α} :
    (x >>= fun _ => y) = .ok a ↔ x = .ok () ∧ y = .ok a := by
  cases x with
  | error e => exact iff_of_false nofun nofun
  | ok u => exact ⟨fun h => ⟨rfl,h⟩,And.right⟩

theorem newEntry_some_iff (hlast : db.getLast? = some last) {e : Option LinkEntry} :
    db.newEntry source derived invalidated revision = .ok e ↔
      db.Accepts source derived invalidated revision last ∧
        ((Repeats source derived last ∧ e = none) ∨ (¬ Repeats source derived last ∧
          e = some (link source derived invalidated
            (if revision = revisionAny then last.revision else revision)))) := by
  unfold newEntry
  rw [hlast]
  dsimp only
  split
  · rename_i hinv
    exact iff_of_false nofun fun h => by simp [h.1.valid] at hinv
  rename_i hinv
  have hva : last.invalidated = false := by simpa using hinv
  rw [andThen_ok_iff,checkRevision_ok_iff]
  split
  · rename_i hboth
    exact iff_of_false (fun h => nomatch h.2) fun h => h.1.single hboth
  rename_i hsingle
  split
  · rename_i hrpt
    constructor
    · rintro ⟨hrev,heq⟩
      cases heq
      exact ⟨⟨hva,hrev,hsingle,.inl hrpt⟩,.inl ⟨hrpt,rfl⟩⟩
    rintro ⟨hacc,⟨-,rfl⟩ | ⟨hnew,-⟩⟩
    · exact ⟨hacc.revision,rfl⟩
    · exact absurd hrpt hnew
  rename_i hnew
  rw [andThen_ok_iff,andThen_ok_iff,checkDerived_ok_iff,checkSource_ok_iff]
  constructor
  · rintro ⟨hrev,hder,hsrc,heq⟩
    cases heq
    exact ⟨⟨hva,hrev,hsingle,.inr ⟨hder,hsrc⟩⟩,.inr ⟨hnew,rfl⟩⟩
  rintro ⟨hacc,⟨hrpt,-⟩ | ⟨-,rfl⟩⟩
  · exact absurd hrpt hnew
  · obtain ⟨hder,hsrc⟩ := hacc.link.resolve_left hnew
    exact ⟨hacc.revision,hder,hsrc,rfl⟩

theorem addLink_cases : (¬ db.Admits source derived invalidated revision ∧
      ∃ e,db.addLink source derived invalidated revision = (db,.error e)) ∨
    (db.Admits source derived invalidated revision ∧
      (∃ last,db.getLast? = some last ∧ Repeats source derived last) ∧
      db.addLink source derived invalidated revision = (db,.ok ())) ∨
    (db.Admits source derived invalidated revision ∧
      (∀ last,db.getLast? = some last → ¬ Repeats source derived last) ∧
      db.addLink source derived invalidated revision =
        (db ++ [link source derived invalidated (db.revisionOr revision)],.ok ())) := by
  unfold addLink Admits revisionOr
  cases hls : db.getLast? with
  | none =>
    by_cases hinv : Invalidates derived invalidated
    · simp [newEntry,hls,hinv,reading]
    · simp [newEntry,hls,hinv,reading]
  | some last =>
    by_cases hacc : db.Accepts source derived invalidated revision last
    · by_cases hrpt : Repeats source derived last
      · rw [(newEntry_some_iff hls).mpr ⟨hacc,.inl ⟨hrpt,rfl⟩⟩]
        exact .inr (.inl ⟨hacc,⟨last,rfl,hrpt⟩,rfl⟩)
      rw [(newEntry_some_iff hls).mpr ⟨hacc,.inr ⟨hrpt,rfl⟩⟩]
      refine .inr (.inr ⟨hacc,?_,rfl⟩)
      rintro _ ⟨⟩
      exact hrpt
    · cases hen : db.newEntry source derived invalidated revision with
      | error e => exact .inl ⟨hacc,e,rfl⟩
      | ok e => exact absurd ((newEntry_some_iff hls).mp hen).1 hacc

end checks

variable {db : DB} {inv : Bool}

theorem find_spec {reverse acceptClosest : Bool} {cmpFn : LinkEntry → Ordering} {i : Nat}
    {link : LinkEntry} (h : db.find reverse acceptClosest cmpFn = .ok (i,link)) :
    i = db.position reverse (db.firstIndex reverse cmpFn) ∧ db[i]? = some link ∧
      (acceptClosest = false → cmpFn link = .eq) := by
  unfold find at h
  rw [ite_eq_iff] at h
  obtain ⟨-,h⟩ | ⟨-,h⟩ := h
  · cases h
  rw [ite_eq_iff] at h
  obtain ⟨-,h⟩ | ⟨-,h⟩ := h
  · cases h
  obtain ⟨link',hrd,h⟩ := of_bind_ok h
  have hget := of_orFail_ok hrd
  rw [ite_eq_iff] at h
  obtain ⟨heq,h⟩ | ⟨-,h⟩ := h
  · cases h
    exact ⟨rfl,hget,fun _ => heq⟩
  rw [ite_eq_iff] at h
  obtain ⟨-,h⟩ | ⟨-,h⟩ := h
  · cases h
  cases acceptClosest with
  | false => cases h
  | true =>
    cases h
    exact ⟨rfl,hget,nofun⟩

def Cuts (db : DB) (x : DB × Except LinkError Unit) : Prop :=
  (∃ e,x = (db,.error e)) ∨ ∃ i,x = (db.take i,.ok ())

theorem rewind_cuts {target : DerivedBlockSealPair} {including : Bool} :
    Cuts db (db.rewind inv target including) := by
  unfold rewind
  split
  · exact .inl ⟨_,rfl⟩
  cases db.lookup target.source.number target.derived.number with
  | error e => exact .inl ⟨e,rfl⟩
  | ok found =>
    dsimp only [reading]
    split
    · exact .inl ⟨_,rfl⟩
    split
    · exact .inl ⟨_,rfl⟩
    · exact .inr ⟨_,rfl⟩

theorem clear_cuts : Cuts db (db.clear inv) := by
  unfold clear
  split
  · exact .inl ⟨_,rfl⟩
  · exact .inr ⟨0,rfl⟩

theorem rewindToSource_cuts {source : BlockID} : Cuts db (db.rewindToSource inv source) := by
  unfold rewindToSource
  split
  · split
    · exact clear_cuts
    · exact .inl ⟨_,rfl⟩
  split
  · exact .inl ⟨_,rfl⟩
  · exact rewind_cuts

theorem rewindToFirstDerived_cuts {v : BlockID} {revision : Revision} :
    Cuts db (db.rewindToFirstDerived inv v revision) := by
  unfold rewindToFirstDerived
  cases db.derivedNumToFirstSource v.number revision with
  | error e => exact .inl ⟨e,rfl⟩
  | ok found =>
    dsimp only [reading]
    split
    · exact .inl ⟨_,rfl⟩
    · exact rewind_cuts

theorem invalidationIndex_found {pair : DerivedBlockRefPair} {i : Nat}
    (h : db.invalidationIndex inv pair = .ok i) :
    ∃ link,db.lookupOrAfter pair.source.number pair.derived.number = .ok (i,link) := by
  unfold invalidationIndex at h
  split at h
  · cases h
  obtain ⟨⟨j,link⟩,hfd,h⟩ := of_bind_ok h
  dsimp only at h
  split at h
  · cases h
  split at h
  · cases h
  split at h
  · cases h
  · cases h
    exact ⟨link,hfd⟩

theorem placeholder_ok {invalidated : Hash} {last : LinkEntry} {source : BlockRef}
    (h : db.placeholder inv invalidated = .ok (last,source)) :
    db.getLast? = some last ∧ last.invalidated = true ∧ last.derived.hash = invalidated ∧
      ∃ prev,db.previousSource last.source.id = .ok prev ∧
        source = forceWithParent last.source prev := by
  unfold placeholder at h
  split at h
  · cases h
  obtain ⟨last',hls,h⟩ := of_bind_ok h
  split at h
  · cases h
  split at h
  · cases h
  rename_i hinv hhs
  obtain ⟨prev,hpv,h⟩ := of_bind_ok h
  cases h
  exact ⟨of_orFail_ok hls,by simpa using hinv,not_not.mp hhs,prev,hpv,rfl⟩

end DB

open DB

/-- A call that returns an error has changed nothing. -/
def KeepsOnError (inv : Bool) (db : DB) (call : Call) : Prop :=
  ∀ e,(call.exec inv db).2 = .error e → (call.exec inv db).1 = db

/-- The entries that a call keeps before it adds its link admit the link. -/
def Placeable (inv : Bool) (db : DB) : Call → Prop
  | .rewindAndInvalidate pair => ∀ i,db.invalidationIndex inv pair = .ok i →
    Admits (db.take i) pair.source pair.derived pair.derived.hash pair.derived.number
  | .replaceInvalidatedBlock replacement invalidated => ∀ last source,
    db.placeholder inv invalidated = .ok (last,source) →
    Admits db.dropLast source replacement invalidated last.revision
  | _ => True

theorem DB.Cuts.keepsOnError {inv : Bool} {db : DB} {call : Call}
    (h : Cuts db (call.exec inv db)) : KeepsOnError inv db call := by
  intro e he
  rcases h with ⟨_,heq⟩ | ⟨_,heq⟩
  · rw [heq]
  · simp [heq] at he

theorem keepsOnError_addLink {db kept : DB} {source derived : BlockRef} {invalidated : Hash}
    {revision : Revision} (hkept : kept ≠ db) :
    (∀ e,(kept.addLink source derived invalidated revision).2 = .error e →
      (kept.addLink source derived invalidated revision).1 = db) ↔
      kept.Admits source derived invalidated revision := by
  rcases @addLink_cases kept source derived invalidated revision with
    ⟨hno,e,her⟩ | ⟨hadm,-,hok⟩ | ⟨hadm,-,hok⟩
  · refine iff_of_false (fun h => hkept ?_) hno
    simpa [her] using h e
  · exact iff_of_true (by simp [hok]) hadm
  · exact iff_of_true (by simp [hok]) hadm

/-- Exactly the calls that truncate the database before their link is refused leave it changed. -/
theorem keepsOnError_iff (inv : Bool) (db : DB) (call : Call) :
    KeepsOnError inv db call ↔ Placeable inv db call := by
  unfold KeepsOnError
  cases call with
  | addDerived source derived revision =>
    refine iff_of_true (fun e he => ?_) trivial
    simp only [Call.exec,addDerived] at he ⊢
    rcases @addLink_cases db source derived noHash revision with
      ⟨-,e',her⟩ | ⟨-,-,hok⟩ | ⟨-,-,hok⟩
    · rw [her]
    · simp [hok] at he
    · simp [hok] at he
  | replaceInvalidatedBlock replacement invalidated =>
    simp only [Call.exec,replaceInvalidatedBlock,Placeable]
    cases hpl : db.placeholder inv invalidated with
    | error e => exact iff_of_true (fun _ _ => rfl) nofun
    | ok place =>
      obtain ⟨last,source⟩ := place
      have hmap : ∀ x : Except LinkError Unit,
          (x.map fun _ => (⟨source,replacement⟩ : DerivedBlockRefPair)).map (fun _ => ()) = x := by
        intro x
        cases x with
        | error e => rfl
        | ok u => rfl
      have hkp : db.dropLast ≠ db := by
        intro h
        have := congrArg length h
        have := length_pos_of_mem (mem_of_getLast? (placeholder_ok hpl).1)
        rw [length_dropLast] at *
        omega
      simp only [reading,hmap]
      refine (keepsOnError_addLink hkp).trans ⟨?_,fun h => h last source rfl⟩
      rintro h _ _ ⟨⟩
      exact h
  | rewindAndInvalidate pair =>
    simp only [Call.exec,rewindAndInvalidate,Placeable]
    cases hidx : db.invalidationIndex inv pair with
    | error e => exact iff_of_true (fun _ _ => rfl) nofun
    | ok i =>
      obtain ⟨link,hfd⟩ := invalidationIndex_found hidx
      have hlt := (List.getElem?_eq_some_iff.mp (find_spec hfd).2.1).1
      have hkp : db.take i ≠ db := by
        intro h
        have := congrArg length h
        rw [length_take] at this
        omega
      refine (keepsOnError_addLink hkp).trans ⟨?_,fun h => h i rfl⟩
      rintro h _ ⟨⟩
      exact h
  | rewind target including => exact iff_of_true rewind_cuts.keepsOnError trivial
  | rewindToSource source => exact iff_of_true rewindToSource_cuts.keepsOnError trivial
  | rewindToFirstDerived v revision =>
    exact iff_of_true rewindToFirstDerived_cuts.keepsOnError trivial
  | clear => exact iff_of_true clear_cuts.keepsOnError trivial

def l1Block (n : UInt64) : BlockRef := ⟨hashOf (n.toNat + 1),n,hashOf n.toNat,n⟩

def l2Block (n : UInt64) : BlockRef := ⟨hashOf (n.toNat + 101),n,hashOf (n.toNat + 100),n⟩

/-- The second L2 block, derived from L1 block `n` as the first one, is invalidated. -/
def invalidatedSecond (n : UInt64) : List (Bool × Call) :=
  [(true,.addDerived (l1Block n) (l2Block 0) revisionAny),
    (true,.addDerived (l1Block n) (l2Block 1) revisionAny),
    (true,.rewindAndInvalidate ⟨l1Block n,l2Block 1⟩)]

/-- A replacement that stands on another parent is refused, and the placeholder is gone. -/
theorem refused_replacement_truncates :
    let call := Call.replaceInvalidatedBlock ⟨hashOf 200,1,hashOf 199,1⟩ (l2Block 1).hash
    ((run (invalidatedSecond 0)).map (·.invalidated) = [false,true]) ∧
      (call.exec true (run (invalidatedSecond 0))).2 = .error .conflict ∧
      (call.exec true (run (invalidatedSecond 0))).1.map (·.invalidated) = [false] ∧
      ¬ KeepsOnError true (run (invalidatedSecond 0)) call := by
  intro call
  have hkeeps : (run (invalidatedSecond 0)).map (·.invalidated) = [false,true] := by decide +kernel
  have her : (call.exec true (run (invalidatedSecond 0))).2 = .error .conflict := by decide +kernel
  have hlost : (call.exec true (run (invalidatedSecond 0))).1.map (·.invalidated) = [false] := by
    decide +kernel
  refine ⟨hkeeps,her,hlost,?_⟩
  intro h
  simp [h _ her,hkeeps] at hlost

/-! The replacement of a block that was invalidated. -/

def Call.Below : Call → Prop
  | .addDerived source _ _ => source.number.toNat < 2 ^ 63
  | .rewindAndInvalidate pair =>
    pair.source.number.toNat < 2 ^ 63 ∧ pair.derived.number ≠ revisionAny
  | _ => True

def Step (db db' : DB) : Prop :=
  ∃ inv,∃ call : Call,call.Below ∧ (call.exec inv db).1 = db'

def Before (a b : LinkEntry) : Prop :=
  a.source.number ≤ b.source.number ∧
    (a.source.number = b.source.number → a.source.hash = b.source.hash)

structure Sourced (db : DB) : Prop where
  ordered : db.IsChain Before
  below : ∀ e ∈ db,e.source.number.toNat < 2 ^ 63

section
variable {db kept : DB} {source derived : BlockRef} {invalidated : Hash} {revision : Revision}
  {inv : Bool} {pair : DerivedBlockRefPair}

variable {ph a e b : LinkEntry} {db' : DB} {k : Nat} {last : LinkEntry} {j : Nat}

theorem DB.Admits.of_last (h : db.Admits source derived invalidated revision)
    (hlast : db.getLast? = some last) : db.Accepts source derived invalidated revision last := by
  simpa [Admits,hlast] using h

theorem Sourced.shorter (h : Sourced db) (hkept : kept <+: db) : Sourced kept := by
  obtain ⟨rest,rfl⟩ := hkept
  exact ⟨h.ordered.left_of_append,fun e he => h.below e (mem_append_left rest he)⟩

theorem Before.trans {c : LinkEntry} (hab : Before a b) (hbc : Before b c) : Before a c := by
  refine ⟨UInt64.le_trans hab.1 hbc.1,fun heq => ?_⟩
  have hsm := UInt64.le_antisymm hab.1 (heq ▸ hbc.1)
  rw [hab.2 hsm,hbc.2 (hsm ▸ heq)]

instance : Trans Before Before Before := ⟨Before.trans⟩

theorem Before.of_fits (hlast : last.source.number.toNat < 2 ^ 63)
    (hfits : SourceFits source last) (he : e.source = blockSealFromRef source) : Before last e := by
  unfold Before
  rw [he]
  rcases hfits with ⟨hnumber,hhs⟩ | ⟨hnumber,-⟩
  · exact ⟨UInt64.le_of_eq hnumber,fun _ => hhs⟩
  have hsu : source.number.toNat = last.source.number.toNat + 1 := by
    rw [← hnumber,UInt64.toNat_add]
    exact mod_eq_of_lt (by change _ + 1 < _; omega)
  refine ⟨UInt64.le_iff_toNat_le.mpr (by change _ ≤ source.number.toNat; omega),fun heq => ?_⟩
  have := congrArg UInt64.toNat heq
  change _ = source.number.toNat at this
  omega

theorem Sourced.add (h : Sourced db) (he : e.source = blockSealFromRef source)
    (hbelow : source.number.toNat < 2 ^ 63)
    (hfits : ∀ last,db.getLast? = some last → SourceFits source last) : Sourced (db ++ [e]) := by
  constructor
  · refine isChain_append.mpr ⟨h.ordered,.singleton _,fun last hls b hb => ?_⟩
    cases hb
    exact .of_fits (h.below last (mem_of_getLast? hls)) (hfits last hls) he
  intro a ha
  rcases mem_append.mp ha with ha | ha
  · exact h.below a ha
  cases mem_singleton.mp ha
  rw [he]
  exact hbelow

theorem addLink_sourced (h : Sourced db) (hbelow : source.number.toNat < 2 ^ 63) :
    Sourced (db.addLink source derived invalidated revision).1 := by
  rcases @addLink_cases db source derived invalidated revision with
    ⟨-,e,heq⟩ | ⟨-,-,heq⟩ | ⟨hadm,hnew,heq⟩
  · rw [heq]
    exact h
  · rw [heq]
    exact h
  rw [heq]
  refine h.add rfl hbelow fun last hls => ?_
  exact ((hadm.of_last hls).link.resolve_left (hnew last hls)).2

theorem Sourced.cut {x : DB × Except LinkError Unit} (h : Sourced db) (hcuts : Cuts db x) :
    Sourced x.1 := by
  rcases hcuts with ⟨_,rfl⟩ | ⟨_,rfl⟩
  · exact h
  · exact h.shorter ( take_prefix _ _)

theorem Sourced.step (h : Sourced db) (hstep : Step db db') : Sourced db' := by
  obtain ⟨inv,call,hbe,rfl⟩ := hstep
  cases call with
  | addDerived source derived revision => exact addLink_sourced h hbe
  | replaceInvalidatedBlock replacement invalidated =>
    simp only [Call.exec,replaceInvalidatedBlock]
    cases hpl : db.placeholder inv invalidated with
    | error e => exact h
    | ok place =>
      obtain ⟨hls,-,-,prev,-,hsrc⟩ := placeholder_ok hpl
      refine addLink_sourced (h.shorter ( dropLast_prefix db)) ?_
      rw [hsrc]
      exact h.below _ (mem_of_getLast? hls)
  | rewindAndInvalidate pair =>
    simp only [Call.exec,rewindAndInvalidate]
    cases db.invalidationIndex inv pair with
    | error e => exact h
    | ok i => exact addLink_sourced (h.shorter ( take_prefix _ _)) hbe.1
  | rewind target including => exact h.cut rewind_cuts
  | rewindToSource source => exact h.cut rewindToSource_cuts
  | rewindToFirstDerived v revision => exact h.cut rewindToFirstDerived_cuts
  | clear => exact h.cut clear_cuts

theorem reached_sourced (h : Reaches Step [] db) : Sourced db :=
  h.invariant ⟨.nil,nofun⟩ fun _ _ hdb hstep => hdb.step hstep

/-- After any calls, failed ones too, the sources never go back and name one block at each number. -/
theorem sources_ordered (h : Reaches Step [] db) : db.Pairwise fun a b =>
    a.source.number ≤ b.source.number ∧
      (a.source.number = b.source.number → a.source.hash = b.source.hash) :=
  (reached_sourced h).ordered.pairwise

/-- The second L2 block is derived from the L1 block after that of the first one. -/
def laterSource : List (Bool × Call) :=
  [(true,.addDerived (l1Block 5) (l2Block 0) revisionAny),
    (true,.addDerived (l1Block 6) (l2Block 0) revisionAny),
    (true,.addDerived (l1Block 6) (l2Block 1) revisionAny)]

theorem laterSource_reaches : Reaches Step [] (run laterSource) := by
  have hfive : (l1Block 5).number.toNat < 2 ^ 63 := by decide
  have hsix : (l1Block 6).number.toNat < 2 ^ 63 := by decide
  exact .tail (.tail (.tail .refl ⟨true,_,by exact hfive,rfl⟩) ⟨true,_,by exact hsix,rfl⟩)
    ⟨true,_,by exact hsix,rfl⟩

theorem sources_ordered_sample :
    (run laterSource).map (fun e => e.source.number) = [5,6,6] ∧
      (run laterSource).Pairwise fun a b => a.source.number ≤ b.source.number ∧
        (a.source.number = b.source.number → a.source.hash = b.source.hash) :=
  ⟨by decide +kernel,sources_ordered laterSource_reaches⟩

def placed (kept : DB) (pair : DerivedBlockRefPair) : DB :=
  kept ++ [link pair.source pair.derived pair.derived.hash pair.derived.number]

structure Places (kept : DB) (pair : DerivedBlockRefPair) (last : LinkEntry) : Prop where
  hash : pair.derived.hash ≠ noHash
  number : pair.derived.number ≠ revisionAny
  getLast : kept.getLast? = some last
  accepts : kept.Accepts pair.source pair.derived pair.derived.hash pair.derived.number last
  new : ¬ Repeats pair.source pair.derived last

/-- The entries that are kept do not come as far as the block. -/
theorem invalidationIndex_after {i : Nat}
    (h : db.invalidationIndex inv pair = .ok i) (hlast : (db.take i).getLast? = some last) :
    (compare last.source.number pair.source.number).then
      (compare last.derived.number pair.derived.number) = .lt := by
  obtain ⟨link,hfd⟩ := invalidationIndex_found h
  have hi := (find_spec hfd).1
  have hpos : i ≠ 0 := fun hz => by simp [hz] at hlast
  have hget : db[i - 1]? = some last := by
    have hlt := (List.getElem?_eq_some_iff.mp (find_spec hfd).2.1).1
    rw [getLast?_take,if_neg hpos,getElem?_eq_getElem (by omega),Option.some_or] at hlast
    rw [getElem?_eq_getElem (by omega),hlast]
  have hbef := search_before (k := i - 1) ((Nat.sub_add_cancel (by omega)).trans hi)
  simpa [position,hget] using hbef

theorem not_repeats (h : (compare last.source.number source.number).then
    (compare last.derived.number derived.number) = .lt) : ¬ Repeats source derived last := by
  intro hrpt
  have hder : last.derived.number = _ := congrArg BlockID.number hrpt.1
  have hsrc : last.source.number = _ := congrArg BlockID.number hrpt.2
  simp [hder,hsrc,L1BlockRef.id] at h

theorem rewindAndInvalidate_kept (h : db.rewindAndInvalidate inv pair = (db',.ok ())) :
    ∃ i,db.invalidationIndex inv pair = .ok i ∧
      addLink (db.take i) pair.source pair.derived pair.derived.hash pair.derived.number =
        (db',.ok ()) := by
  unfold rewindAndInvalidate at h
  cases hidx : db.invalidationIndex inv pair with
  | error e => simp [hidx,reading] at h
  | ok i => exact ⟨i,rfl,by simpa [hidx,reading] using h⟩

theorem rewindAndInvalidate_places (h : db.rewindAndInvalidate inv pair = (db',.ok ()))
    (hhash : pair.derived.hash ≠ noHash) (hany : pair.derived.number ≠ revisionAny) :
    ∃ kept last,kept <+: db ∧ Places kept pair last ∧ db' = placed kept pair := by
  obtain ⟨i,hidx,h⟩ := rewindAndInvalidate_kept h
  rcases @addLink_cases (db.take i) pair.source pair.derived pair.derived.hash pair.derived.number
    with ⟨-,e,heq⟩ | ⟨-,⟨last,hls,hrpt⟩,-⟩ | ⟨hadm,-,heq⟩
  · cases heq.symm.trans h
  · exact absurd hrpt (not_repeats (invalidationIndex_after hidx hls))
  cases hls : (db.take i).getLast? with
  | none => simp [Admits,hls,Invalidates,hhash] at hadm
  | some last =>
    cases heq.symm.trans h
    refine ⟨_,last, take_prefix _ _,⟨hhash,hany,hls,hadm.of_last hls,?_⟩,?_⟩
    · exact not_repeats (invalidationIndex_after hidx hls)
    · rw [revisionOr,if_neg hany]
      rfl

theorem Sourced.before (h : Sourced db) (hjk : j ≤ k)
    (ha : db[j]? = some a) (hb : db[k]? = some b) : Before a b := by
  obtain ⟨-,rfl⟩ := List.getElem?_eq_some_iff.mp ha
  obtain ⟨-,rfl⟩ := List.getElem?_eq_some_iff.mp hb
  obtain hlt | rfl := lt_or_eq_of_le hjk
  · exact pairwise_iff_getElem.mp h.ordered.pairwise _ _ _ _ hlt
  · exact ⟨UInt64.le_refl _,fun _ => rfl⟩

theorem Sourced.before_last (h : Sourced db)
    (hph : db.getLast? = some ph) (ha : db[k]? = some a) : Before a ph := by
  have hk := (List.getElem?_eq_some_iff.mp ha).1
  exact h.before (by omega) ha (getLast?_eq_getElem? ▸ hph)

theorem Sourced.last_source (h : Sourced db)
    (hph : db.getLast? = some ph) (hjk : j ≤ k) (ha : db[j]? = some a) (hb : db[k]? = some b)
    (hnumber : a.source.number = ph.source.number) : b.source.number = ph.source.number :=
  UInt64.le_antisymm (h.before_last hph hb).1 (hnumber ▸ (h.before hjk ha hb).1)

theorem find_first (cmpFn : LinkEntry → Ordering)
    (hlast : db.getLast? = some last) (hge : cmpFn last ≠ .lt) :
    ∃ i self,db[i]? = some self ∧ cmpFn self ≠ .lt ∧
      (∀ k e,k + 1 = i → db[k]? = some e → cmpFn e = .lt) ∧
      (cmpFn self = .eq → db.find false false cmpFn = .ok (i,self)) := by
  have hpos := length_pos_of_mem (mem_of_getLast? hlast)
  have hf : ∀ j e,db[j]? = some e → db[db.position false j]?.any (cmpFn · != .lt) =
      (cmpFn e != .lt) := fun j e he => by simp [position,he]
  have hne : db.firstIndex false cmpFn ≠ db.length := by
    intro heq
    have hbef := search_before (k := db.length - 1) ((Nat.sub_add_cancel hpos).trans heq.symm)
    exact hge (by simpa using (hf _ last (getLast?_eq_getElem? ▸ hlast)).symm.trans hbef)
  have hi : db.firstIndex false cmpFn < db.length := lt_of_le_of_ne search_le hne
  have hsl := getElem?_eq_getElem hi
  refine ⟨_,_,hsl,?_,fun k e hk he => ?_,fun heq => ?_⟩
  · simpa using (hf _ _ hsl).symm.trans (search_accepts hi)
  · simpa using (hf k e he).symm.trans (search_before hk)
  have hrd : db.readAt (db.firstIndex false cmpFn) = .ok _ := congrArg (orFail _) hsl
  rw [find,if_neg (ne_of_gt hpos),if_neg hne]
  simp [position,hrd,heq]

theorem find_source (h : Sourced db) (hph : db.getLast? = some ph) :
    ∃ i self,db.sourceNumToFirstDerived ph.source.number = .ok (i,self) ∧
      db[i]? = some self ∧ self.source.id = ph.source.id ∧
      ∀ k e,k + 1 = i → db[k]? = some e → e.source.number ≠ ph.source.number := by
  obtain ⟨i,self,hsl,hge,hbe,hfd⟩ :=
    find_first (fun link => compare link.source.number ph.source.number) hph (by simp)
  have hbef := h.before_last hph hsl
  have hnumber : self.source.number = ph.source.number := by
    refine UInt64.le_antisymm hbef.1 (UInt64.not_lt.mp fun hlt => hge ?_)
    exact compareOfLessAndEq_eq_lt.mpr hlt
  refine ⟨i,self,hfd (by simp [hnumber]),hsl,?_,fun k e hk he heq => ?_⟩
  · simp [BlockSeal.id,hbef.2 hnumber,hnumber]
  · have hlt := hbe k e hk he
    simp [heq] at hlt

theorem previousSource_cases (h : Sourced (kept ++ [ph])) :
    ∃ first,(kept ++ [ph]).head? = some first ∧ ((first.source.number = ph.source.number ∧
        previousSource (kept ++ [ph]) ph.source.id =
          if ph.source.number = 0 then .ok ⟨noHash,0,0⟩ else .error .previousToFirst) ∨
      (first.source.number ≠ ph.source.number ∧ ∃ prev,
        previousSource (kept ++ [ph]) ph.source.id = .ok prev ∧
        ∀ last,kept.getLast? = some last → last.source.number ≠ ph.source.number →
          prev = last.source)) := by
  have hph : (kept ++ [ph]).getLast? = some ph := by simp
  obtain ⟨i,self,hfd,hsl,hid,hbef⟩ := find_source h hph
  have hnumber : self.source.number = ph.source.number := congrArg BlockID.number hid
  have hi := (List.getElem?_eq_some_iff.mp hsl).1
  change sourceNumToFirstDerived _ ph.source.id.number = _ at hfd
  cases i with
  | zero =>
    refine ⟨self,head?_eq_getElem? ▸ hsl,.inl ⟨hnumber,?_⟩⟩
    simp [previousSource,hfd,hid,hnumber]
  | succ k =>
    obtain ⟨prev,hprev⟩ : ∃ e,(kept ++ [ph])[k]? = some e := ⟨_,getElem?_eq_getElem (by omega)⟩
    obtain ⟨first,hfst⟩ : ∃ e,(kept ++ [ph])[0]? = some e := ⟨_,getElem?_eq_getElem (by omega)⟩
    refine ⟨first,head?_eq_getElem? ▸ hfst,.inr ⟨fun heq => ?_,prev.source,?_,?_⟩⟩
    · exact hbef k prev rfl hprev (h.last_source hph (zero_le k) hfst hprev heq)
    · simp [previousSource,hfd,hid,readAt,hprev]
    intro last hls hother
    have hpos := length_pos_of_mem (mem_of_getLast? hls)
    have hget : (kept ++ [ph])[kept.length - 1]? = some last := by
      rw [getElem?_append_left (by omega),← getLast?_eq_getElem?,hls]
    have hk : k + 1 = kept.length := by
      by_contra hne
      rw [length_append,length_singleton] at hi
      exact hother (h.last_source hph (by omega) hsl hget hnumber)
    rw [← hk,Nat.add_sub_cancel,hprev] at hget
    exact congrArg LinkEntry.source (Option.some.inj hget)

/-- The replacement takes the place of the invalidated block, under its revision. -/
def Replaces (db : DB) (pair : DerivedBlockRefPair) (replacement : BlockRef) : Prop :=
  let after := db.replaceInvalidatedBlock true replacement pair.derived.hash
  after.2.isOk = true ∧ after.1.dropLast = db.dropLast ∧
    after.1.last = .ok ⟨blockSealFromRef pair.source,blockSealFromRef replacement⟩ ∧
    after.1.lastRevision = .ok pair.derived.number

/-- The database has a source before that of the block, unless it is the first of all. -/
def HasPrevious (db : DB) (pair : DerivedBlockRefPair) : Prop :=
  pair.source.number = 0 ∨ ∀ first,db.head? = some first → first.source.number ≠ pair.source.number

theorem placeholder_placed (hhash : pair.derived.hash ≠ noHash) :
    (placed kept pair).placeholder true pair.derived.hash =
      ((placed kept pair).previousSource (blockSealFromRef pair.source).id >>= fun prev =>
        .ok (link pair.source pair.derived pair.derived.hash pair.derived.number,
          forceWithParent (blockSealFromRef pair.source) prev)) := by
  have hls : (placed kept pair).latest = .ok _ := congrArg (orFail _) getLast?_concat
  rw [placeholder,hls]
  simp [link,Invalidates,blockSealFromRef,hhash]

theorem not_replaces {replacement : BlockRef}
    (h : ∀ place,db.placeholder true pair.derived.hash ≠ .ok place) :
    ¬ Replaces db pair replacement := by
  unfold Replaces replaceInvalidatedBlock
  cases hpl : db.placeholder true pair.derived.hash with
  | error e => exact fun hreplaces => nomatch hreplaces.1
  | ok place => exact absurd hpl (h place)

theorem rewindAndInvalidate_noHash (hok : db.rewindAndInvalidate inv pair = (db',.ok ()))
    (hhash : pair.derived.hash = noHash) (he : db'.getLast? = some e) : e.invalidated = false := by
  obtain ⟨i,-,hok⟩ := rewindAndInvalidate_kept hok
  rcases @addLink_cases (db.take i) pair.source pair.derived pair.derived.hash pair.derived.number
    with ⟨-,_,heq⟩ | ⟨hadm,-,heq⟩ | ⟨-,-,heq⟩
  · cases heq.symm.trans hok
  · cases heq.symm.trans hok
    exact (hadm.of_last he).valid
  cases heq.symm.trans hok
  cases getLast?_concat.symm.trans he
  simp [link,Invalidates,hhash]

section replacement
variable {last : LinkEntry} {prev : BlockSeal} {replacement : BlockRef}
  (hnumber : replacement.number = pair.derived.number)
  (hparent : replacement.parentHash = pair.derived.parentHash)
  (hother : replacement.hash ≠ pair.derived.hash) (h : Places kept pair last)
  (hprev : last.source.number ≠ pair.source.number → prev = last.source)
include hnumber hparent hother h hprev

theorem replacement_accepted :
    kept.Accepts (forceWithParent (blockSealFromRef pair.source) prev) replacement
      pair.derived.hash pair.derived.number last ∧
      ¬ Repeats (forceWithParent (blockSealFromRef pair.source) prev) replacement last := by
  have hhs := h.hash
  obtain ⟨hder,hsrc⟩ := h.accepts.link.resolve_left h.new
  refine ⟨⟨h.accepts.valid,.inr (.inr ⟨hhs,fun heq => absurd heq hother⟩),?_,.inr ⟨?_,?_⟩⟩,?_⟩
  · rw [hnumber]
    exact h.accepts.single
  · simp only [DerivedFits,known,hhs,hnumber,hparent,ne_eq]
      at hder ⊢
    exact hder
  · refine hsrc.imp_right fun ⟨hnx,_⟩ => ⟨hnx,?_⟩
    rw [hprev fun heq => by simp [← heq] at hnx]
    rfl
  rintro ⟨hsm,-⟩
  have hls : last.derived.number = pair.derived.number :=
    (congrArg BlockID.number hsm).trans hnumber
  rcases hder with ⟨-,hkn⟩ | ⟨hnx,-⟩ | ⟨hne,-⟩
  · rw [known,if_pos hhs] at hkn
    exact hother ((congrArg BlockID.hash hsm).symm.trans hkn)
  · simp [hls] at hnx
  · exact hne hls

theorem replaces_of_previous
    (hfound : (placed kept pair).previousSource (blockSealFromRef pair.source).id = .ok prev) :
    Replaces (placed kept pair) pair replacement := by
  obtain ⟨hacc,hnew⟩ := replacement_accepted hnumber hparent hother h hprev
  have hen := (newEntry_some_iff h.getLast).mpr ⟨hacc,.inr ⟨hnew,rfl⟩⟩
  have hdr : (placed kept pair).dropLast = kept := dropLast_concat
  have hva : ¬ Invalidates replacement pair.derived.hash := fun h => hother h.2
  rw [if_neg h.number] at hen
  change kept.newEntry _ _ _ (link pair.source pair.derived pair.derived.hash _).revision = _
    at hen
  unfold Replaces replaceInvalidatedBlock
  rw [placeholder_placed h.hash,hfound]
  simp only [reading,ok_bind,hdr,addLink,hen]
  refine ⟨rfl,dropLast_concat,?_,?_⟩
  · simp [DB.last,latest,link,hva]
    rfl
  · simp [lastRevision,latest,link]

end replacement

/-- Exactly the blocks that are not of the first source can be replaced. -/
theorem replaces_iff {replacement : BlockRef} (h : Reaches Step [] db)
    (hbelow : (Call.rewindAndInvalidate pair).Below)
    (hok : db.rewindAndInvalidate inv pair = (db',.ok ()))
    (hnumber : replacement.number = pair.derived.number)
    (hparent : replacement.parentHash = pair.derived.parentHash)
    (hother : replacement.hash ≠ pair.derived.hash) :
    Replaces db' pair replacement ↔ pair.derived.hash ≠ noHash ∧ HasPrevious db pair := by
  have hsourced := (reached_sourced h).step ⟨inv,_,hbelow,congrArg Prod.fst hok⟩
  by_cases hhs : pair.derived.hash = noHash
  · refine iff_of_false (not_replaces fun place hpl => ?_) fun hcd => hcd.1 hhs
    obtain ⟨hls,hinvalidated,-⟩ := placeholder_ok hpl
    simp [rewindAndInvalidate_noHash hok hhs hls] at hinvalidated
  obtain ⟨kept,last,hkp,hplaces,rfl⟩ := rewindAndInvalidate_places hok hhs hbelow.2
  obtain ⟨first,hfst,hcs⟩ := previousSource_cases hsourced
  have hhd : db.head? = some first := by
    obtain ⟨rest,rfl⟩ := hkp
    cases kept with
    | nil => cases hplaces.getLast
    | cons e kept => exact hfst
  rcases hcs with ⟨hsm,hfd⟩ | ⟨hne,prev,hfd,hprev⟩
  · by_cases hz : pair.source.number = 0
    · refine iff_of_true ?_ ⟨hhs,.inl hz⟩
      refine replaces_of_previous hnumber hparent hother hplaces (fun hne => absurd ?_ hne)
        (hfd.trans (if_pos hz))
      have hbef := (isChain_append.mp hsourced.ordered).2.2 last hplaces.getLast _ rfl
      exact UInt64.le_antisymm hbef.1 (hz ▸ UInt64.le_iff_toNat_le.mpr (zero_le _))
    refine iff_of_false (not_replaces fun place hpl => ?_) fun hcd =>
      hcd.2.elim hz fun h => h first hhd hsm
    obtain ⟨last',source'⟩ := place
    obtain ⟨hls',-,-,prev,hprev,-⟩ := placeholder_ok hpl
    cases getLast?_concat.symm.trans hls'
    cases (hfd.trans (if_neg hz)).symm.trans hprev
  · refine iff_of_true ?_ ⟨hhs,.inr fun first' hfst' => ?_⟩
    · exact replaces_of_previous hnumber hparent hother hplaces (hprev last hplaces.getLast) hfd
    · cases hhd.symm.trans hfst'
      exact hne

end

def replacementSecond : BlockRef := ⟨hashOf 200,1,hashOf 101,1⟩

theorem second_replaced :
    let pair : DerivedBlockRefPair := ⟨l1Block 6,l2Block 1⟩
    Replaces ((run laterSource).rewindAndInvalidate true pair).1 pair replacementSecond := by
  intro pair
  have hok : ((run laterSource).rewindAndInvalidate true pair).2 = .ok () := by decide +kernel
  have hfst : ((run laterSource).map (·.source.number)).head? = some 5 := by decide +kernel
  refine (replaces_iff laterSource_reaches ⟨by decide,by decide⟩ (Prod.ext rfl hok) ?_ ?_ ?_).mpr
    ⟨by decide +kernel,.inr ?_⟩
  · rfl
  · rfl
  · decide +kernel
  intro first hhd
  rw [head?_map,hhd] at hfst
  have h5 : first.source.number = 5 := Option.some.inj hfst
  rw [h5]
  decide

/-- The block is derived from the first source of the database, which is not the first of all. -/
theorem first_source_not_replaced : ((run ((invalidatedSecond 5).take 2)).rewindAndInvalidate true
    ⟨l1Block 5,l2Block 1⟩).2 = .ok () ∧
    ¬ Replaces ((run ((invalidatedSecond 5).take 2)).rewindAndInvalidate true
      ⟨l1Block 5,l2Block 1⟩).1 ⟨l1Block 5,l2Block 1⟩ replacementSecond := by
  refine ⟨by decide +kernel,fun h => ?_⟩
  exact absurd h.1 (by decide +kernel)

end OpStack.Supervisor.FromDA
