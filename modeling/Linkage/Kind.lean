/-
Kinds of dependency.  Each of the 31 kinds has a bit of its own, so that a set
of kinds is a bit vector, and points at a type, a field or a method.
-/

namespace Linkage

/-- The ways a member can depend on a type or member. -/
inductive ReferenceKind where
  | extendsType
  | implementsType
  | specialCall
  | staticCall
  | putField
  | putStaticField
  | fieldDeclaration
  | parameter
  | localVariableDeclaration
  | throws
  | checkcast
  | arrayAllocation
  | catchException
  | getField
  | getStaticField
  | instanceOf
  | interfaceCall
  | constructorCall
  | localVariable
  | passedParameter
  | returnType
  | virtualCall
  | constantPoolUse
  | instantiate
  | override
  | superConstructorCall
  | parameterizedType
  | parameterizedField
  | parameterizedMethod
  | parameterizedVariable
  | annotationUse
  deriving DecidableEq, Hashable, Repr

/-- What a reference points at. -/
inductive TargetSort where
  | type
  | field
  | method
  deriving DecidableEq, Repr

namespace ReferenceKind

/-- Every kind, in bit order. -/
def all : List ReferenceKind :=
  [extendsType, implementsType, specialCall, staticCall, putField, putStaticField,
    fieldDeclaration, parameter, localVariableDeclaration, throws, checkcast,
    arrayAllocation, catchException, getField, getStaticField, instanceOf,
    interfaceCall, constructorCall, localVariable, passedParameter, returnType,
    virtualCall, constantPoolUse, instantiate, override, superConstructorCall,
    parameterizedType, parameterizedField, parameterizedMethod,
    parameterizedVariable, annotationUse]

/-- The number of kinds, and so the width of a set of kinds. -/
abbrev count : Nat := 31

/-- The position of a kind's bit. -/
def bitIndex : ReferenceKind → Fin count
  | extendsType => 0
  | implementsType => 1
  | specialCall => 2
  | staticCall => 3
  | putField => 4
  | putStaticField => 5
  | fieldDeclaration => 6
  | parameter => 7
  | localVariableDeclaration => 8
  | throws => 9
  | checkcast => 10
  | arrayAllocation => 11
  | catchException => 12
  | getField => 13
  | getStaticField => 14
  | instanceOf => 15
  | interfaceCall => 16
  | constructorCall => 17
  | localVariable => 18
  | passedParameter => 19
  | returnType => 20
  | virtualCall => 21
  | constantPoolUse => 22
  | instantiate => 23
  | override => 24
  | superConstructorCall => 25
  | parameterizedType => 26
  | parameterizedField => 27
  | parameterizedMethod => 28
  | parameterizedVariable => 29
  | annotationUse => 30

def bit (kind : ReferenceKind) : Nat :=
  1 <<< kind.bitIndex.val

def target : ReferenceKind → TargetSort
  | specialCall | staticCall | interfaceCall | constructorCall | virtualCall
  | override | superConstructorCall => .method
  | putField | putStaticField | getField | getStaticField => .field
  | _ => .type

/-- The kind as reports and messages write it. -/
def text : ReferenceKind → String
  | extendsType => "EXTENDS"
  | implementsType => "IMPLEMENTS"
  | specialCall => "INVOKED_SPECIAL"
  | staticCall => "INVOKED_STATIC"
  | putField => "PUT_FIELD"
  | putStaticField => "PUT_STATIC_FIELD"
  | fieldDeclaration => "DECLARED_FIELD"
  | parameter => "PARAMETER"
  | localVariableDeclaration => "LOCAL_VAR_DECLARED"
  | throws => "THROWS"
  | checkcast => "CASTS"
  | arrayAllocation => "ALLOCATES_ARRAY"
  | catchException => "CATCHES_EXCEPTION"
  | getField => "GETS_FIELD"
  | getStaticField => "GETS_STATIC_FIELD"
  | instanceOf => "INSTANCEOF"
  | interfaceCall => "INTERFACE_METHOD"
  | constructorCall => "CONSTRUCTOR_METHOD"
  | localVariable => "LOCAL_VARIABLE"
  | passedParameter => "PASSED_PARAMETER"
  | returnType => "RETURN_TYPE"
  | virtualCall => "VIRTUAL_METHOD"
  | constantPoolUse => "CONSTANT_POOL"
  | instantiate => "INSTANTIATION"
  | override => "OVERRIDE"
  | superConstructorCall => "SUPER_CONSTRUCTORMETHOD"
  | parameterizedType => "DECLARED_PARAMETERIZED_TYPE"
  | parameterizedField => "DECLARED_PARAMETERIZED_FIELD"
  | parameterizedMethod => "DECLARED_PARAMETERIZED_METHOD"
  | parameterizedVariable => "DECLARED_PARAMETERIZED_VARIABLE"
  | annotationUse => "ANNOTATION_USE"

/-- The kind's identifier in stored references. -/
def identifier : ReferenceKind → String
  | extendsType => "EXTENDS"
  | implementsType => "IMPLEMENTS"
  | specialCall => "SPECIAL_CALL"
  | staticCall => "STATIC_CALL"
  | putField => "PUT_FIELD"
  | putStaticField => "PUT_STATIC_FIELD"
  | fieldDeclaration => "FIELD_DECLARATION"
  | parameter => "PARAMETER"
  | localVariableDeclaration => "LOCAL_VARIABLE_DECLARATION"
  | throws => "THROWS"
  | checkcast => "CHECKCAST"
  | arrayAllocation => "ARRAY_ALLOCATION"
  | catchException => "CATCH_EXCEPTION"
  | getField => "GET_FIELD"
  | getStaticField => "GET_STATIC_FIELD"
  | instanceOf => "INSTANCEOF"
  | interfaceCall => "INTERFACE_CALL"
  | constructorCall => "CONSTRUCTOR_CALL"
  | localVariable => "LOCAL_VARIABLE"
  | passedParameter => "PASSED_PARAMETER"
  | returnType => "RETURN_TYPE"
  | virtualCall => "VIRTUAL_CALL"
  | constantPoolUse => "CONSTANT_POOL_USE"
  | instantiate => "INSTANTIATE"
  | override => "OVERRIDE"
  | superConstructorCall => "SUPER_CONSTRUCTOR_CALL"
  | parameterizedType => "PARAMETERIZED_TYPE_DECLARATION"
  | parameterizedField => "PARAMETERIZED_FIELD_DECLARATION"
  | parameterizedMethod => "PARAMETERIZED_METHOD_DECLARATION"
  | parameterizedVariable => "PARAMETERIZED_VARIABLE"
  | annotationUse => "ANNOTATION_USE"

def ofIdentifier? (identifier : String) : Option ReferenceKind :=
  all.find? (fun kind => kind.identifier = identifier)

theorem mem_all (kind : ReferenceKind) : kind ∈ all := by
  cases kind <;> decide

end ReferenceKind

/-- A set of kinds, one bit for each. -/
structure KindSet where
  bits : BitVec ReferenceKind.count
  deriving DecidableEq, Repr

namespace KindSet

def none : KindSet := ⟨0#_⟩

def all : KindSet := ⟨BitVec.allOnes _⟩

/-- The set with the given bits; bits that belong to no kind are dropped. -/
def ofBits (bits : Nat) : KindSet := ⟨BitVec.ofNat _ bits⟩

def single (kind : ReferenceKind) : KindSet := ofBits kind.bit

def contains (kinds : KindSet) (kind : ReferenceKind) : Bool :=
  kinds.bits.getLsbD kind.bitIndex.val

/-- The kinds of either set. -/
def union (left right : KindSet) : KindSet := ⟨left.bits ||| right.bits⟩

def insert (kinds : KindSet) (kind : ReferenceKind) : KindSet :=
  kinds.union (single kind)

def ofList (kinds : List ReferenceKind) : KindSet :=
  kinds.foldl insert none

/-- Whether two sets share a kind. -/
def intersects (left right : KindSet) : Bool :=
  left.bits &&& right.bits != 0#_

def isEmpty (kinds : KindSet) : Bool := kinds.bits == 0#_

/-- The set less one kind. -/
def without (kinds : KindSet) (kind : ReferenceKind) : KindSet :=
  ⟨kinds.bits &&& ~~~(single kind).bits⟩

/-- The kinds of the set, in bit order. -/
def toList (kinds : KindSet) : List ReferenceKind :=
  ReferenceKind.all.filter kinds.contains

def text (kinds : KindSet) : String :=
  if kinds.isEmpty then "UNKNOWN_KIND"
  else String.intercalate " | " (kinds.toList.map ReferenceKind.text)

theorem mem_toList {kinds : KindSet} {kind : ReferenceKind} :
    kind ∈ kinds.toList ↔ kinds.contains kind = true := by
  simp [toList, ReferenceKind.mem_all]

@[simp] theorem contains_union (left right : KindSet) (kind : ReferenceKind) :
    (left.union right).contains kind = (left.contains kind || right.contains kind) := by
  simp [contains, union]

@[simp] theorem contains_none (kind : ReferenceKind) : none.contains kind = false := by
  cases kind <;> decide

@[simp] theorem contains_all (kind : ReferenceKind) : all.contains kind = true := by
  cases kind <;> decide

example : (ofList [.extendsType, .virtualCall]).text = "EXTENDS | VIRTUAL_METHOD" := by
  decide

end KindSet

end Linkage
