import Linkage.Hierarchy
import Linkage.Reference
/-
Resolution of references against a universe, and the check of references
against the stubs of a minimum execution environment.
-/

namespace Linkage

/-- The outcome of resolving one reference. -/
inductive Resolution where
  | found (handle : MemberHandle)
  | notFound
  /-- The reference was marked as not resolvable and was left untouched. -/
  | skipped
  deriving DecidableEq, Repr

/-- How far a pass over references got. -/
structure BatchOutcome where
  processed : Nat
  cancelled : Bool
  deriving DecidableEq, Repr

namespace Resolution

/-- The types whose methods may take the descriptor of the call. -/
def polymorphicOwners : List String :=
  ["java.lang.invoke.MethodHandle", "java.lang.invoke.VarHandle"]

/-- The target of a call whose descriptor is the call's own: such methods match
by name alone. -/
def polymorphicTarget (known : Universe) (kind : ReferenceKind)
    (owner name descriptor : String) : Option MemberHandle :=
  if kind = .virtualCall ∧ owner ∈ polymorphicOwners then
    match known.lookup owner with
    | none => none
    | some decl =>
        if decl.methods.any
            (fun method => method.name = name && method.isSignaturePolymorphic) then
          some (.method owner name descriptor)
        else none
  else none

/-- The field that a use denotes; synthetic fields do not count. -/
def fieldTarget (known : Universe) (owner name : String) : Option MemberHandle :=
  match known.findField owner name with
  | none => none
  | some hit =>
      if hit.field.access.isSynthetic then none
      else some (.field hit.owner.qualifiedName hit.field.name)

/-- The method that a call denotes; synthetic methods do not count. -/
def methodTarget (known : Universe) (kind : ReferenceKind)
    (owner name descriptor : String) : Option MemberHandle :=
  match polymorphicTarget known kind owner name descriptor with
  | some handle => some handle
  | none =>
      match known.findMethod kind owner name descriptor with
      | none => none
      | some hit =>
          if hit.method.access.isSynthetic then none
          else some
            (.method hit.owner.qualifiedName hit.method.name hit.method.descriptor)

/-- The member that a reference denotes. -/
def target (known : Universe) (reference : Reference) : Option MemberHandle :=
  match reference.target with
  | .type => (known.lookup reference.typeName).map (fun _ => .type reference.typeName)
  | .field =>
      match reference.memberName with
      | none => none
      | some name => fieldTarget known reference.typeName name
  | .method =>
      match reference.memberName, reference.signature with
      | some name, some descriptor =>
          methodTarget known reference.kind reference.typeName name descriptor
      | _, _ => none

/-- The reference as resolution leaves it. -/
def apply (known : Universe) (reference : Reference) : Reference :=
  if reference.resolvable then reference.resolvedTo (target known reference)
  else reference

/-- The outcome of resolving a reference. -/
def outcome (known : Universe) (reference : Reference) : Resolution :=
  if reference.resolvable then
    match target known reference with
    | some handle => .found handle
    | none => .notFound
  else .skipped

/-- Resolves every reference; a pass that is cancelled beforehand changes none. -/
def applyAll (known : Universe) (cancelled : Bool) (references : List Reference) :
    List Reference × BatchOutcome :=
  if cancelled then (references, ⟨0, true⟩)
  else (references.map (apply known), ⟨references.length, false⟩)

/-- Whether an environment provides what a reference needs.  A type outside the
stubs, and any type as such, counts as provided, and so does everything when
there are no stubs. -/
def availableIn (stubs : Option Universe) (reference : Reference) : Bool :=
  match stubs with
  | none => true
  | some known =>
      match known.lookup reference.typeName, reference.target with
      | none, _ => true
      | some _, .type => true
      | some _, _ => (target known reference).isSome

end Resolution

end Linkage
