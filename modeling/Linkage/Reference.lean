import Linkage.Kind
import Linkage.Member
/-
References: recorded dependencies of one member on a type or member, with the
source line and the outcome of resolution.
-/

namespace Linkage

/-- The flag of an override or virtual call whose target is a default method. -/
def defaultMethodFlag : UInt32 := 1

/-- A recorded dependency of one member on a type or member. -/
structure Reference where
  kind : ReferenceKind
  flags : UInt32 := 0
  source : MemberHandle
  typeName : String
  memberName : Option String := none
  signature : Option String := none
  /-- The source line, `-1` while it is unknown. -/
  line : Int := -1
  resolved : Option MemberHandle := none
  resolvable : Bool := true
  attempted : Bool := false
  deriving DecidableEq, Repr

namespace Reference

def ofType (source : MemberHandle) (typeName : String) (kind : ReferenceKind) :
    Reference :=
  { kind, source, typeName }

/-- A dependency on a type that carries the generic signature naming it. -/
def ofSignature (source : MemberHandle) (typeName signature : String)
    (kind : ReferenceKind) : Reference :=
  { kind, source, typeName, signature := some signature }

def ofField (source : MemberHandle) (typeName name : String) (kind : ReferenceKind) :
    Reference :=
  { kind, source, typeName, memberName := some name }

def ofMethod (source : MemberHandle) (typeName name descriptor : String)
    (kind : ReferenceKind) (flags : UInt32) : Reference :=
  { kind, flags, source, typeName, memberName := some name,
    signature := some descriptor }

def hasFlag (reference : Reference) (flag : UInt32) : Bool :=
  reference.flags &&& flag != 0

def target (reference : Reference) : TargetSort := reference.kind.target

/-- Whether resolution found the target. -/
def isResolved (reference : Reference) : Bool := reference.resolved.isSome

/-- The reference on a given source line. -/
def atLine (reference : Reference) (line : Int) : Reference :=
  { reference with line }

@[simp] theorem kind_atLine (reference : Reference) (line : Int) :
    (reference.atLine line).kind = reference.kind := rfl

/-- The reference after a resolution attempt. -/
def resolvedTo (reference : Reference) (handle : Option MemberHandle) : Reference :=
  { reference with resolved := handle, attempted := true }

/-- Kind, source and textual target: what two references share when they record
the same dependency. -/
structure Identity where
  kind : ReferenceKind
  source : MemberHandle
  typeName : String
  memberName : Option String
  signature : Option String
  deriving DecidableEq, Hashable, Repr

def identity (reference : Reference) : Identity where
  kind := reference.kind
  source := reference.source
  typeName := reference.typeName
  memberName := reference.memberName
  signature := reference.signature

def text (reference : Reference) : String :=
  let target := match reference.resolved with
    | some handle => "\nResolved To: " ++ handle.text
    | none =>
        "\nUnresolved To: " ++ reference.typeName
          ++ (match reference.memberName with
            | some member => "#" ++ member
            | none => "")
          ++ (match reference.signature with
            | some signature => "#" ++ signature
            | none => "")
  "From: " ++ reference.source.text ++ target ++ "\nKind: " ++ reference.kind.text

/-- The target as written at the use site, such as `a.B#m(I)V`. -/
def targetText (reference : Reference) : String :=
  match reference.memberName with
  | none => reference.typeName
  | some member =>
      reference.typeName ++ "#" ++ member ++ reference.signature.getD ""

/-- The key of the method that a method reference points at. -/
def methodKey? (reference : Reference) : Option MethodKey :=
  match reference.target, reference.memberName, reference.signature with
  | .method, some name, some descriptor =>
      some { typeName := reference.typeName, name, descriptor }
  | _, _, _ => none

end Reference

end Linkage
