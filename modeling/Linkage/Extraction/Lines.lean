import Linkage.Extraction.Entry
import Linkage.Instruction
import Std.Data.TreeMap
/-
Source lines of the entries of one method body.  Labels with a line change the
current line; entries without a line take the current one, and entries that
already have a line make it the current one.  A caught type belongs to the line
of its handler.
-/

namespace Linkage

/-- A label or an entry, in the order in which a body meets them. -/
inductive Position where
  | label (pc : Nat)
  | entry (index : Nat)
  deriving DecidableEq, Repr

/-- The entry of a caught type and the offset of its handler. -/
structure CatchPlace where
  index : Nat
  handlerPc : Nat
  deriving DecidableEq, Repr

/-- A line of a class file as a line number: 32 bits with a sign. -/
def lineNumber (line : Nat) : Int := Int.bmod (Int.ofNat line) 0x100000000

/-- The lines of a body by the offsets at which they start. -/
abbrev LineTable := Std.TreeMap Nat Nat

/-- The table of some line entries; the last entry for an offset counts. -/
def LineTable.ofEntries (entries : List LineEntry) : LineTable :=
  entries.foldl (fun table entry => table.insert entry.startPc entry.line) ∅

/-- The line that starts at an offset. -/
def LineTable.lineAt (table : LineTable) (pc : Nat) : Option Nat := table[pc]?

/-- The smallest line of some line entries. -/
def firstLine (entries : List LineEntry) : Option Nat :=
  entries.foldl (fun first entry =>
    match first with
    | some line => some (min line entry.line)
    | none => some entry.line) none

/-- Sets the line of an entry. -/
def setLine (entries : Array Entry) (index : Nat) (line : Int) : Array Entry :=
  entries.modify index (fun entry => entry.atLine line)

/-- Gives caught types whose handler has a line entry the line of the handler. -/
def placeCatches (table : LineTable) (catches : Array CatchPlace) (entries : Array Entry) :
    Array Entry :=
  catches.foldl (fun entries place =>
    match table.lineAt place.handlerPc with
    | some line => setLine entries place.index (lineNumber line)
    | none => entries) entries

/-- The entries of caught types whose handler has no line entry, by handler. -/
abbrev WaitingCatches := Std.TreeMap Nat (List Nat)

/-- The caught types that have to wait for the label of their handler. -/
def waitingCatches (table : LineTable) (catches : Array CatchPlace) : WaitingCatches :=
  catches.foldl (fun waiting place =>
    match table.lineAt place.handlerPc with
    | some _ => waiting
    | none =>
        waiting.insert place.handlerPc (place.index :: waiting.getD place.handlerPc [])) ∅

/-- The current line of a walk through a body, and the entries with their lines. -/
structure LineWalk where
  current : Int
  entries : Array Entry

/-- Goes on to the next position of a body.  A label without a line places the caught
types that wait for it. -/
def LineWalk.meet (table : LineTable) (waiting : WaitingCatches) (walk : LineWalk) :
    Position → LineWalk
  | .label pc =>
      match table.lineAt pc with
      | some line => { walk with current := lineNumber line }
      | none =>
          { walk with
            entries := (waiting.getD pc []).foldl
              (fun entries index => setLine entries index walk.current) walk.entries }
  | .entry index =>
      match walk.entries[index]? with
      | some entry =>
          if entry.line = -1 then
            { walk with entries := setLine walk.entries index walk.current }
          else { walk with current := entry.line }
      | none => walk

/-- The entries with their lines after a body; without a line table they stay as they
are. -/
def assignLines (lines : List LineEntry) (catches : Array CatchPlace)
    (positions : Array Position) (entries : Array Entry) : Array Entry :=
  match firstLine lines with
  | none => entries
  | some first =>
      let table := LineTable.ofEntries lines
      let start : LineWalk :=
        { current := lineNumber first, entries := placeCatches table catches entries }
      (positions.foldl (LineWalk.meet table (waitingCatches table catches)) start).entries

end Linkage
