import Linkage.Universe
/-
Type trees: a type with the types nested in it, as far as the universe has them.
-/

namespace Linkage

/-- Whether a listed type is nested directly in a class: it says so, or its name
adds one simple name to that of the class. -/
def isDirectChild (decl : ClassDecl) (nested : NestedType) : Bool :=
  if nested.name = decl.name then false
  else
    match nested.outerName with
    | some outer => outer = decl.name
    | none =>
        match dropStart decl.name.toList nested.name.toList with
        | some ('$' :: rest) => '$' ∉ rest
        | _ => false

/-- A type nested directly in another, by its qualified name. -/
structure ChildType where
  name : String
  kind : NestedKind
  deriving DecidableEq, Repr

namespace ClassDecl

/-- The child type that a listed type is, if it is nested directly. -/
def child? (decl : ClassDecl) (nested : NestedType) : Option ChildType :=
  if isDirectChild decl nested then some ⟨Linkage.qualifiedName nested.name, nested.kind⟩
  else none

/-- The types nested directly in a class, as often as it lists them. -/
def children (decl : ClassDecl) : List ChildType :=
  (mapOnce decl.child? decl.nestedTypes).filterMap id

/-- The names of the types nested directly in a class. -/
def childNames (decl : ClassDecl) : List String :=
  distinctBy id (decl.children.map ChildType.name)

theorem children_eq (decl : ClassDecl) :
    decl.children = decl.nestedTypes.filterMap decl.child? := by
  simp [children, List.filterMap_map]

theorem children_eq_nil (decl : ClassDecl) (h : decl.nestedTypes = []) : decl.children = [] := by
  rw [children_eq, h, List.filterMap_nil]

theorem children_eq_singleton (decl : ClassDecl) {nested : NestedType}
    (h : decl.nestedTypes = [nested]) (hdirect : isDirectChild decl nested = true) :
    decl.children = [⟨Linkage.qualifiedName nested.name, nested.kind⟩] := by
  simp [children_eq, h, child?, hdirect]

end ClassDecl

mutual

/-- A type with the types nested in it. -/
inductive TypeTree where
  | node (decl : ClassDecl) (nested : NestedTrees)

/-- The trees of nested types, by name. -/
inductive NestedTrees where
  | nil
  | cons (name : String) (tree : TypeTree) (rest : NestedTrees)

end

/-- The trees of named types.  Unknown types are left out, and so is a type below
itself; `path` holds the names around the named types.  A walk that follows names alone
does not end on cyclic nesting, where this leaves the type out. -/
def NestedTrees.ofNames (known : Universe) (path : Std.HashSet String)
    (names : List String) : NestedTrees :=
  match names with
  | [] => .nil
  | name :: rest =>
      if _hpath : name ∈ path then NestedTrees.ofNames known path rest
      else
        match _hfound : known.find? name with
        | none => NestedTrees.ofNames known path rest
        | some child =>
            .cons name
              (.node child.decl
                (NestedTrees.ofNames known (path.insert name) child.decl.childNames))
              (NestedTrees.ofNames known path rest)
termination_by ((known.unseen path).length, names.length)
decreasing_by
  · apply Prod.Lex.right
    simp
  · apply Prod.Lex.right
    simp
  · apply Prod.Lex.left
    exact Universe.unseen_length_lt _hfound _hpath
  · apply Prod.Lex.right
    simp

def TypeTree.of (known : Universe) (decl : ClassDecl) : TypeTree :=
  .node decl (NestedTrees.ofNames known ∅ decl.childNames)

mutual

/-- The classes of a tree, an enclosing type before those nested in it. -/
def TypeTree.classes : TypeTree → List ClassDecl
  | .node decl nested => decl :: nested.classes

/-- The classes of nested trees, in order. -/
def NestedTrees.classes : NestedTrees → List ClassDecl
  | .nil => []
  | .cons _ tree rest => tree.classes ++ rest.classes

end

end Linkage
