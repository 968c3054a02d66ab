import Linkage.Reference
/-
Entries: references as extraction records them.  Entries that the filters hide
are kept until the end, because lines and accessors still depend on them.
-/

namespace Linkage

/-- What extraction is asked to deliver. -/
structure ExtractOptions where
  /-- Keep references of a type to itself and to its member types. -/
  includeLocal : Bool := false
  kinds : KindSet := .all
  deriving DecidableEq, Repr

/-- Why accessor folding is interested in a reference. -/
inductive Trail where
  | plain
  /-- A use of a field by a synthetic member. -/
  | syntheticAccess
  /-- A static call, which may reach an accessor. -/
  | staticCall
  deriving DecidableEq, Repr

/-- A reference as a declaration or instruction makes it. -/
structure Draft where
  reference : Reference
  trail : Trail := .plain
  deriving DecidableEq, Repr

/-- A draft that accessor folding passes over. -/
def Draft.ofReference (reference : Reference) : Draft := { reference := reference }

@[simp] theorem Draft.reference_ofReference (reference : Reference) :
    (Draft.ofReference reference).reference = reference := rfl

/-- The type that references are recorded for. -/
structure Scope where
  name : String
  /-- What the names of its member types start with. -/
  memberStart : String := name ++ "$"
  memberStart_eq : memberStart = name ++ "$" := by rfl
  deriving DecidableEq, Repr

/-- A recorded reference with the type it was recorded for. -/
structure Entry where
  reference : Reference
  scope : Scope
  retained : Bool
  trail : Trail
  deriving DecidableEq, Repr

/-- The kinds that a reference from a type to one of its member types may have. -/
def memberTypeKinds : List ReferenceKind :=
  [.virtualCall, .override, .getField, .putField]

/-- Whether a reference leaves the scanned type.  References to the type itself and
to class initializers do not; references to member types only for some kinds. -/
def leavesScope (scope : Scope) (reference : Reference) : Bool :=
  if reference.typeName = scope.name
      ∨ reference.memberName = some classInitializerName then
    false
  else if reference.typeName.startsWith scope.memberStart then
    reference.kind ∈ memberTypeKinds
  else true

namespace ExtractOptions

/-- Whether a reference is delivered. -/
def considers (options : ExtractOptions) (scope : Scope) (reference : Reference) : Bool :=
  options.kinds.contains reference.kind
    && (options.includeLocal || leavesScope scope reference)

/-- Records a draft for a scanned type. -/
def record (options : ExtractOptions) (scope : Scope) (draft : Draft) : Entry where
  reference := draft.reference
  scope := scope
  retained := options.considers scope draft.reference
  trail := draft.trail

end ExtractOptions

namespace Entry

def line (entry : Entry) : Int := entry.reference.line

def atLine (entry : Entry) (line : Int) : Entry :=
  { entry with reference := entry.reference.atLine line }

/-- The entry, no longer delivered. -/
def hidden (entry : Entry) : Entry := { entry with retained := false }

/-- What repeated entries share: the dependency and its line. -/
def repeatKey (entry : Entry) : Reference.Identity × Int :=
  (entry.reference.identity, entry.line)

end Entry

/-- The delivered references, without repeats of a dependency on one line. -/
def delivered (entries : List Entry) : List Reference :=
  (distinctBy Entry.repeatKey (entries.filter Entry.retained)).map Entry.reference

end Linkage
