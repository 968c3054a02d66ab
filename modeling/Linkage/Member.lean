import Linkage.Name
/-
Handles on types, fields and methods, their text, and the order in which
reports list them.
-/

namespace Linkage

/-- A type, or a field or method of a type.  Type names are qualified. -/
inductive MemberHandle where
  | type (name : String)
  | field (typeName name : String)
  | method (typeName name descriptor : String)
  deriving DecidableEq, Hashable, Repr

namespace MemberHandle

/-- The type that the member is, or is declared in. -/
def typeName : MemberHandle → String
  | type name => name
  | field typeName _ => typeName
  | method typeName _ _ => typeName

/-- The simple name of the member; the type name of a type. -/
def name : MemberHandle → String
  | type name => name
  | field _ name => name
  | method _ name _ => name

def text : MemberHandle → String
  | type name => name
  | field typeName name => typeName ++ "#" ++ name
  | method typeName name descriptor => typeName ++ "#" ++ name ++ descriptor

/-- Types come first, then fields, then methods; names decide within a sort. -/
def orderKey : MemberHandle → List String
  | type name => ["0", name]
  | field typeName name => ["1", typeName, name]
  | method typeName name descriptor => ["2", typeName, name, descriptor]

/-- Whether one handle comes strictly before another. -/
def before (left right : MemberHandle) : Bool :=
  (compare left.orderKey right.orderKey).isLT

/-- Handles in their order. -/
def sort (handles : List MemberHandle) : List MemberHandle :=
  sortByNames orderKey handles

theorem orderKey_injective {left right : MemberHandle}
    (h : left.orderKey = right.orderKey) : left = right := by
  cases left <;> cases right <;> simp_all [orderKey]

end MemberHandle

/-- The name that class files give to constructors. -/
def constructorName : String := "<init>"

/-- The name that class files give to class initializers. -/
def classInitializerName : String := "<clinit>"

/-- The value that identifies a method in sets of methods. -/
structure MethodKey where
  typeName : String
  name : String
  descriptor : String
  deriving DecidableEq, Hashable, Repr

namespace MethodKey

def isConstructor (key : MethodKey) : Bool :=
  key.name = constructorName

/-- Type, name and descriptor, in this order, decide. -/
def orderKey (key : MethodKey) : List String :=
  [key.typeName, key.name, key.descriptor]

/-- The distinct keys in their order. -/
def sortDistinct (keys : List MethodKey) : List MethodKey :=
  sortByNames orderKey (distinctBy id keys)

end MethodKey

end Linkage
