import Linkage.Declaration
import Linkage.Table
/-
Classes with their members indexed and their super types qualified, so that walks
along a hierarchy find both at once.
-/

namespace Linkage

/-- A class together with an index of what it declares. -/
structure IndexedClass where
  decl : ClassDecl
  /-- The qualified name. -/
  name : String := decl.qualifiedName
  /-- The qualified name of the super class. -/
  superName : Option String := decl.superName.map qualifiedName
  /-- The qualified names of the declared interfaces. -/
  interfaces : List String := mapOnce qualifiedName decl.interfaces
  methods : Std.HashMap (String × String) MethodDecl := indexBy MethodDecl.key decl.methods
  fields : Std.HashMap String FieldDecl := indexBy FieldDecl.name decl.fields
  name_eq : name = decl.qualifiedName := by rfl
  superName_eq : superName = decl.superName.map qualifiedName := by rfl
  interfaces_eq : interfaces = decl.interfaces.map qualifiedName := by simp
  methods_eq : methods = indexBy MethodDecl.key decl.methods := by rfl
  fields_eq : fields = indexBy FieldDecl.name decl.fields := by rfl

namespace IndexedClass

def of (decl : ClassDecl) : IndexedClass := { decl := decl }

/-- The first declared method with a name and descriptor. -/
def findMethod (type : IndexedClass) (name descriptor : String) : Option MethodDecl :=
  type.methods[(name, descriptor)]?

/-- The first declared field with a name. -/
def findField (type : IndexedClass) (name : String) : Option FieldDecl :=
  type.fields[name]?

@[simp] theorem decl_of (decl : ClassDecl) : (of decl).decl = decl := rfl

/-- A class has one index. -/
theorem of_decl (type : IndexedClass) : of type.decl = type := by
  obtain ⟨decl, name, superName, interfaces, methods, fields, rfl, rfl, hinterfaces, rfl, rfl⟩ :=
    type
  rw [← mapOnce_eq] at hinterfaces
  subst hinterfaces
  rfl

@[simp] theorem findMethod_eq (type : IndexedClass) (name descriptor : String) :
    type.findMethod name descriptor = type.decl.findMethod name descriptor := by
  rw [findMethod, type.methods_eq, getElem?_indexBy]
  rfl

@[simp] theorem findField_eq (type : IndexedClass) (name : String) :
    type.findField name = type.decl.findField name := by
  rw [findField, type.fields_eq, getElem?_indexBy]
  rfl

end IndexedClass

end Linkage
