import Linkage.IndexedClass
import Std.Data.HashSet
import Std.Data.TreeMap
/-
Universes: the types that references are resolved against.  A type is found by
its qualified name, and the first definition of a name wins.
-/

namespace Linkage

/-- The known types, each under its qualified name. -/
structure Universe where
  byName : Std.TreeMap String IndexedClass := ∅
  named : ∀ (name : String) (type : IndexedClass),
    byName[name]? = some type → type.name = name := by simp

namespace Universe

/-- The known type of a qualified name. -/
def find? (known : Universe) (name : String) : Option IndexedClass :=
  known.byName[name]?

/-- The definition of a qualified name. -/
def lookup (known : Universe) (name : String) : Option ClassDecl :=
  (known.find? name).map IndexedClass.decl

/-- Adds a class unless its name is already defined. -/
def insert (known : Universe) (decl : ClassDecl) : Universe :=
  if decl.qualifiedName ∈ known.byName then known
  else
    { byName := known.byName.insert decl.qualifiedName (.of decl)
      named := by
        intro name type hfound
        rw [Std.TreeMap.getElem?_insert] at hfound
        split at hfound
        · rename_i heq
          simp only [Option.some.injEq] at hfound
          rw [← hfound, IndexedClass.name_eq]
          simpa using heq
        · exact known.named name type hfound }

def extend (known : Universe) (decls : List ClassDecl) : Universe :=
  decls.foldl insert known

def ofList (decls : List ClassDecl) : Universe :=
  extend {} decls

def size (known : Universe) : Nat := known.byName.size

/-- The known types in the order of their qualified names. -/
def inNameOrder (known : Universe) : List ClassDecl :=
  known.byName.values.map IndexedClass.decl

/-- The known names that a walk has not met yet. -/
def unseen (known : Universe) (seen : Std.HashSet String) : List String :=
  known.byName.keys.filter (fun name => name ∉ seen)

theorem lookup_eq_some_iff {known : Universe} {name : String} {decl : ClassDecl} :
    known.lookup name = some decl ↔
      ∃ type, known.find? name = some type ∧ type.decl = decl := by
  simp [lookup]

theorem lookup_name {known : Universe} {name : String} {decl : ClassDecl}
    (h : known.lookup name = some decl) : decl.qualifiedName = name := by
  obtain ⟨type, hfound, rfl⟩ := lookup_eq_some_iff.mp h
  rw [← type.name_eq]
  exact known.named name type hfound

theorem mem_keys_of_find? {known : Universe} {name : String} {type : IndexedClass}
    (h : known.find? name = some type) : name ∈ known.byName.keys := by
  rw [Std.TreeMap.mem_keys, Std.TreeMap.mem_iff_isSome_getElem?]
  exact Option.isSome_iff_exists.mpr ⟨type, h⟩

/-- Meeting a known name leaves fewer names unmet. -/
theorem unseen_length_lt {known : Universe} {name : String} {type : IndexedClass}
    {seen : Std.HashSet String} (h : known.find? name = some type) (hseen : name ∉ seen) :
    (known.unseen (seen.insert name)).length < (known.unseen seen).length := by
  have hsplit : known.unseen (seen.insert name) =
      (known.unseen seen).filter (fun other => other ≠ name) := by
    simp only [unseen, List.filter_filter, Std.HashSet.mem_insert, beq_iff_eq, not_or]
    congr 1
    funext other
    by_cases heq : name = other
    · simp [heq]
    · simp [heq, Ne.symm heq]
  have hmem : name ∈ known.unseen seen := by
    simp only [unseen, List.mem_filter]
    exact ⟨mem_keys_of_find? h, by simpa using hseen⟩
  rw [hsplit]
  apply List.length_filter_lt_length_iff_exists.mpr
  exact ⟨name, hmem, by simp⟩

theorem lookup_insert (known : Universe) (decl : ClassDecl) (name : String) :
    (known.insert decl).lookup name =
      (known.lookup name).or
        (if decl.qualifiedName = name then some decl else none) := by
  by_cases hold : decl.qualifiedName ∈ known.byName
  · by_cases heq : decl.qualifiedName = name
    · subst heq
      simp [insert, hold, lookup, find?]
    · simp [insert, hold, heq]
  · simp only [insert, hold, ↓reduceIte, lookup, find?, Std.TreeMap.getElem?_insert]
    by_cases heq : decl.qualifiedName = name
    · subst heq
      simp [hold]
    · simp [heq]

theorem lookup_extend (known : Universe) (decls : List ClassDecl) (name : String) :
    (known.extend decls).lookup name =
      (known.lookup name).or (decls.find? (fun decl => decl.qualifiedName = name)) := by
  induction decls generalizing known with
  | nil => simp [extend]
  | cons decl rest ih =>
      have hstep : known.extend (decl :: rest) = (known.insert decl).extend rest := rfl
      rw [hstep, ih, lookup_insert, List.find?_cons]
      by_cases heq : decl.qualifiedName = name <;>
        cases known.lookup name <;> simp [heq]

/-- The first listed class with a name is its definition. -/
theorem lookup_ofList (decls : List ClassDecl) (name : String) :
    (ofList decls).lookup name = decls.find? (fun decl => decl.qualifiedName = name) := by
  rw [ofList, lookup_extend]
  simp [lookup, find?]

end Universe

end Linkage
