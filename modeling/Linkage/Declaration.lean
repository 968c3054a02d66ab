import Linkage.Instruction
import Linkage.Member
/-
Declarations: the structure of one class as its class file gives it.  Names
stay in internal form.
-/

namespace Linkage

structure ClassAccess where
  isPublic : Bool := false
  isInterface : Bool := false
  isAbstract : Bool := false
  isSynthetic : Bool := false
  isAnnotationType : Bool := false
  isEnum : Bool := false
  deriving DecidableEq, Repr

structure FieldAccess where
  isStatic : Bool := false
  isPrivate : Bool := false
  isSynthetic : Bool := false
  deriving DecidableEq, Repr

structure MethodAccess where
  isPublic : Bool := false
  isProtected : Bool := false
  isPrivate : Bool := false
  isStatic : Bool := false
  isAbstract : Bool := false
  isNative : Bool := false
  isSynthetic : Bool := false
  isBridge : Bool := false
  isVarargs : Bool := false
  deriving DecidableEq, Repr

/-- How a nested type is nested. -/
inductive NestedKind where
  | member
  | localType
  | anonymous
  deriving DecidableEq, Hashable, Repr

/-- A nested type as a class file lists it. -/
structure NestedType where
  name : String
  outerName : Option String
  kind : NestedKind
  deriving DecidableEq, Hashable, Repr

structure FieldDecl where
  name : String
  descriptor : String
  signature : Option String := none
  access : FieldAccess := {}
  annotations : List String := []
  deriving DecidableEq, Repr

structure MethodDecl where
  name : String
  descriptor : String
  signature : Option String := none
  access : MethodAccess := {}
  exceptions : List String := []
  annotations : List String := []
  code : Option Code := none
  deriving DecidableEq, Repr

namespace MethodDecl

/-- Name and descriptor, by which methods of a class are told apart. -/
def key (method : MethodDecl) : String × String := (method.name, method.descriptor)

def isConstructor (method : MethodDecl) : Bool :=
  method.name = constructorName

def isClassInitializer (method : MethodDecl) : Bool :=
  method.name = classInitializerName

/-- Whether an interface method has a body that classes inherit. -/
def isDefault (method : MethodDecl) : Bool :=
  !method.access.isAbstract && !method.access.isStatic && !method.access.isPrivate

/-- The start of the descriptor of a method that takes any arguments. -/
def polymorphicStart : String := "([Ljava/lang/Object;)"

/-- Whether calls of the method carry a descriptor of their own. -/
def isSignaturePolymorphic (method : MethodDecl) : Bool :=
  method.access.isNative && method.access.isVarargs
    && polymorphicStart.toList.isPrefixOf method.descriptor.toList

end MethodDecl

structure ClassDecl where
  name : String
  access : ClassAccess := {}
  majorVersion : Nat := 52
  superName : Option String := none
  interfaces : List String := []
  signature : Option String := none
  annotations : List String := []
  fields : List FieldDecl := []
  methods : List MethodDecl := []
  /-- The nested types that the class file lists, other than this class. -/
  nestedTypes : List NestedType := []
  /-- How this class is itself nested. -/
  nesting : Option NestedType := none
  /-- The position of the file among the scanned artifacts. -/
  artifact : Int := -1
  deriving DecidableEq, Repr

namespace ClassDecl

def qualifiedName (decl : ClassDecl) : String :=
  Linkage.qualifiedName decl.name

/-- The first declared method with a name and descriptor. -/
def findMethod (decl : ClassDecl) (name descriptor : String) : Option MethodDecl :=
  decl.methods.find? (fun method => method.name = name && method.descriptor = descriptor)

/-- The first declared field with a name. -/
def findField (decl : ClassDecl) (name : String) : Option FieldDecl :=
  decl.fields.find? (fun field => field.name = name)

/-- Whether class files of this version may give interface methods a body. -/
def supportsDefaultMethods (decl : ClassDecl) : Bool :=
  52 ≤ decl.majorVersion

theorem findMethod_name {decl : ClassDecl} {name descriptor : String}
    {method : MethodDecl} (h : decl.findMethod name descriptor = some method) :
    method.name = name ∧ method.descriptor = descriptor := by
  simpa using List.find?_some h

theorem findMethod_mem {decl : ClassDecl} {name descriptor : String}
    {method : MethodDecl} (h : decl.findMethod name descriptor = some method) :
    method ∈ decl.methods :=
  List.mem_of_find?_eq_some h

theorem findField_name {decl : ClassDecl} {name : String} {field : FieldDecl}
    (h : decl.findField name = some field) : field.name = name := by
  simpa using List.find?_some h

end ClassDecl

/-- A type that could not be read or extracted, with the reason. -/
structure TypeFailure where
  typeName : String
  message : String
  deriving DecidableEq, Repr

end Linkage
