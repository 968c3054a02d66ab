import Linkage.Kind
import Linkage.Universe
/-
Lookup along the type hierarchy.  Fields are found along the super classes,
methods in the order of the kind of call.  Hierarchies may be incomplete or
cyclic: every walk remembers the names that it has met, and ends because each
step meets a further type of the universe, or a further name that one writes.
-/

namespace Linkage

/-- A declared field with the class that declares it. -/
structure FoundField where
  owner : ClassDecl
  field : FieldDecl
  deriving DecidableEq, Repr

/-- A declared method with the class that declares it. -/
structure FoundMethod where
  owner : ClassDecl
  method : MethodDecl
  deriving DecidableEq, Repr

namespace Universe

/-- The classes met from a name upwards, up to a name that is unknown or was
met before. -/
def superClasses (known : Universe) (seen : Std.HashSet String) (next : Option String) :
    List IndexedClass :=
  match next with
  | none => []
  | some name =>
      if _hseen : name ∈ seen then []
      else
        match _hfound : known.find? name with
        | none => []
        | some type => type :: known.superClasses (seen.insert name) type.superName
termination_by (known.unseen seen).length
decreasing_by exact unseen_length_lt _hfound _hseen

/-- The proper super classes of a class, nearest first. -/
def properSuperClasses (known : Universe) (type : IndexedClass) : List IndexedClass :=
  known.superClasses (.ofList [type.name]) type.superName

/-- A class followed by its super classes. -/
def superClassPath (known : Universe) (type : IndexedClass) : List IndexedClass :=
  type :: known.properSuperClasses type

/-- The super classes that the known types write, each as it is written. -/
def writtenSupers (known : Universe) : List (Option String) :=
  known.byName.toList.map (fun entry => entry.2.decl.superName)

/-- Those that a walk by written names has not met yet. -/
def unmetSupers (known : Universe) (met : Std.HashSet String) : List (Option String) :=
  known.writtenSupers.filter (fun next => next.any (fun written => written ∉ met))

theorem superName_mem_writtenSupers {known : Universe} {name : String} {type : IndexedClass}
    (h : known.find? name = some type) : type.decl.superName ∈ known.writtenSupers :=
  List.mem_map.mpr ⟨(name, type), Std.TreeMap.mem_toList_iff_getElem?_eq_some.mpr h, rfl⟩

/-- Meeting a further written name leaves fewer unmet, unless no known type writes it. -/
theorem unmetSupers_insert (known : Universe) (met : Std.HashSet String) (written : String) :
    known.unmetSupers (met.insert written) =
      (known.unmetSupers met).filter (fun next => next ≠ some written) := by
  simp only [unmetSupers, List.filter_filter]
  congr 1
  funext next
  rcases next with - | other
  · simp
  · by_cases heq : other = written
    · simp [heq]
    · simp [heq, Ne.symm heq]

/-- The classes met from a written name upwards, up to a name that is unknown or was
written before.  One class may be met under several spellings of its name. -/
def superChain (known : Universe) (met : Std.HashSet String) (next : Option String) :
    List IndexedClass :=
  match next with
  | none => []
  | some written =>
      if _hmet : written ∈ met then []
      else
        match _hfound : known.find? (qualifiedName written) with
        | none => []
        | some type => type :: known.superChain (met.insert written) type.decl.superName
termination_by
  (known.unmetSupers met).length + if next ∈ known.writtenSupers then 0 else 1
decreasing_by
  rw [unmetSupers_insert, if_pos (superName_mem_writtenSupers _hfound)]
  by_cases hwritten : some written ∈ known.writtenSupers
  · have hmem : some written ∈ known.unmetSupers met :=
      List.mem_filter.mpr ⟨hwritten, by simpa using _hmet⟩
    rw [if_pos hwritten]
    apply List.length_filter_lt_length_iff_exists.mpr
    exact ⟨some written, hmem, by simp⟩
  · rw [if_neg hwritten]
    exact Nat.lt_succ_of_le (List.length_filter_le _ _)

/-- A class followed by its super classes, with names compared as they are written. -/
def superClassChain (known : Universe) (start : IndexedClass) : List IndexedClass :=
  start :: known.superChain (.ofList [start.decl.name]) start.decl.superName

/-- Depth-first search for a method through interfaces in declaration order.
Names met before are passed over; so are unknown ones. -/
def searchInterfaces (known : Universe) (name descriptor : String)
    (seen : Std.HashSet String) (pending : List String) : Option FoundMethod :=
  match pending with
  | [] => none
  | head :: rest =>
      if _hseen : head ∈ seen then known.searchInterfaces name descriptor seen rest
      else
        match _hfound : known.find? head with
        | none => known.searchInterfaces name descriptor seen rest
        | some type =>
            match type.findMethod name descriptor with
            | some method => some ⟨type.decl, method⟩
            | none =>
                known.searchInterfaces name descriptor (seen.insert head)
                  (type.interfaces ++ rest)
termination_by ((known.unseen seen).length, pending.length)
decreasing_by
  · apply Prod.Lex.right
    simp
  · apply Prod.Lex.right
    simp
  · apply Prod.Lex.left
    exact unseen_length_lt _hfound _hseen

/-- The nearest declaration of a method along given classes. -/
def declaredIn (classes : List IndexedClass) (name descriptor : String) :
    Option FoundMethod :=
  classes.findSome? (fun type =>
    (type.findMethod name descriptor).map (fun method => ⟨type.decl, method⟩))

/-- The field that a use of a name in a type denotes. -/
def findField (known : Universe) (owner name : String) : Option FoundField :=
  match known.find? owner with
  | none => none
  | some start =>
      (known.superClassChain start).findSome? (fun type =>
        (type.findField name).map (fun field => ⟨type.decl, field⟩))

/-- The type at the root of every hierarchy. -/
def rootType : String := "java.lang.Object"

/-- The method that an interface call denotes: the owner's own, one of a super
interface, or one of the root type. -/
def findInterfaceMethod (known : Universe) (start : IndexedClass)
    (name descriptor : String) : Option FoundMethod :=
  match start.findMethod name descriptor with
  | some method => some ⟨start.decl, method⟩
  | none =>
      match known.searchInterfaces name descriptor ∅ start.interfaces with
      | some found => some found
      | none =>
          match known.find? rootType with
          | none => none
          | some root => declaredIn [root] name descriptor

/-- The method that any other call denotes: the nearest one along the super
classes or, for an abstract owner, one of an interface of these. -/
def findClassMethod (known : Universe) (start : IndexedClass)
    (name descriptor : String) : Option FoundMethod :=
  let chain := known.superClassChain start
  match declaredIn chain name descriptor with
  | some found => some found
  | none =>
      if start.decl.access.isAbstract || start.decl.access.isInterface then
        known.searchInterfaces name descriptor ∅ (chain.flatMap IndexedClass.interfaces)
      else none

/-- The method that a call of the given kind denotes. -/
def findMethod (known : Universe) (kind : ReferenceKind)
    (owner name descriptor : String) : Option FoundMethod :=
  match known.find? owner with
  | none => none
  | some start =>
      if kind = .interfaceCall then known.findInterfaceMethod start name descriptor
      else known.findClassMethod start name descriptor

/-- The interface whose default method a class inherits, if no super class
declares the method first. -/
def defaultProvider (known : Universe) (type : IndexedClass) (name descriptor : String) :
    Option ClassDecl :=
  let supers := known.properSuperClasses type
  match declaredIn supers name descriptor with
  | some _ => none
  | none =>
      match known.searchInterfaces name descriptor ∅
          ((type :: supers).flatMap IndexedClass.interfaces) with
      | some found => if found.method.isDefault then some found.owner else none
      | none => none

/-- Whether a virtual call reaches a default method. -/
def callsDefault (known : Universe) (call : CallSite) : Bool :=
  let owner := qualifiedName call.owner
  match known.findMethod .virtualCall owner call.name call.descriptor with
  | some found => found.owner.access.isInterface && found.method.isDefault
  | none =>
      match known.find? owner with
      | none => false
      | some type => (known.defaultProvider type call.name call.descriptor).isSome

end Universe

end Linkage
