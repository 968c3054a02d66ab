import Linkage.Instruction
import Std.Data.TreeSet
/-
The timeline of a method body: its labels, in order and without repeats, merged
with its instructions.  A label comes before the first instruction that does not
precede it.
-/

namespace Linkage

/-- A label or an instruction, in the order in which a body is walked. -/
inductive Moment where
  | label (pc : Nat)
  | run (instruction : Instruction)
  deriving DecidableEq, Repr

/-- Merges ascending labels with instructions, after what has been merged. -/
def mergeLabels (merged : Array Moment) :
    (labels : List Nat) → List Instruction → Array Moment
  | labels, [] => merged ++ labels.map Moment.label
  | labels, instruction :: rest =>
      mergeLabels
        ((merged ++ (labels.takeWhile (· ≤ instruction.offset)).map Moment.label).push
          (.run instruction))
        (labels.dropWhile (· ≤ instruction.offset)) rest

namespace Code

/-- The offsets that line table, handlers and local variables name.  Class files write a start
and a length with 16 bits each, so that no sum leaves the 32 bits that an offset has. -/
def labelOffsets (code : Code) : List Nat :=
  code.lines.map LineEntry.startPc
    ++ code.handlers.flatMap
      (fun handler => [handler.startPc, handler.endPc, handler.handlerPc])
    ++ code.locals.flatMap
      (fun entry => [entry.startPc, entry.startPc + entry.length])

/-- The labels in ascending order. -/
def labels (code : Code) : List Nat :=
  (Std.TreeSet.ofList code.labelOffsets).toList

/-- The timeline of a body. -/
def timeline (code : Code) : Array Moment :=
  mergeLabels #[] code.labels code.instructions

theorem mem_labels {code : Code} {pc : Nat} :
    pc ∈ code.labels ↔ pc ∈ code.labelOffsets := by
  simp [labels, Std.TreeSet.mem_toList, Std.TreeSet.mem_ofList]

end Code

end Linkage
