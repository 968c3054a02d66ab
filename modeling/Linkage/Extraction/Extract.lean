import Linkage.Extraction.Accessors
import Linkage.Extraction.Body
import Linkage.Extraction.TypeTree
/-
Extraction of the references of a type and of the types nested in it, and of
whole lists of types.
-/

namespace Linkage

/-- Why the references of a type cannot be extracted. -/
inductive ExtractError where
  | header (cause : TextError)
  | field (name : String) (cause : TextError)
  | method (name descriptor : String) (cause : TextError)
  deriving DecidableEq, Repr

def ExtractError.message : ExtractError → String
  | .header cause => cause.message
  | .field name cause => "field " ++ name ++ ": " ++ cause.message
  | .method name descriptor cause =>
      "method " ++ name ++ descriptor ++ ": " ++ cause.message

/-- The entries that the declaration of a field adds. -/
def addField (options : ExtractOptions) (type : TypeSite) (entries : Array Entry)
    (field : FieldDecl) : Except ExtractError (Array Entry) := do
  let drafts ← (type.fieldDrafts field).mapError (.field field.name)
  return entries ++ drafts.map (options.record type.scope)

/-- The entries of a type after those of its methods are added. -/
def addMethods (options : ExtractOptions) (type : TypeSite) (localTypes : LocalTypes)
    (methods : List MethodDecl) (entries : Array Entry) :
    Except ExtractError (Array Entry) :=
  methods.foldlM (fun entries method =>
    (addMethod options type localTypes entries method).mapError
      (.method method.name method.descriptor)) entries

/-- The entries that the header and the annotations of a type make. -/
def headerEntries (options : ExtractOptions) (type : TypeSite) :
    Except ExtractError (List Entry) := do
  let header ← type.headerReferences.mapError .header
  return (header ++ type.annotationReferences).map
    (fun reference => options.record type.scope (.ofReference reference))

/-- Entries of a type and of the types nested in it, with those that local types leave
without a line. -/
structure TypeEntries where
  entries : Array Entry
  localTypes : LocalTypes := ∅

/-- The numbers of the delivered entries without a line, counted from `start`. -/
def unplaced (start : Nat) (entries : Array Entry) : List Nat :=
  ((entries.toList.zipIdx start).filter
    (fun item => item.1.retained && item.1.line < 0)).map Prod.snd

/-- The entries of nested types, by name; types that fail have none. -/
abbrev NestedEntries := Std.HashMap String (Array Entry)

/-- Adds the entries of a nested type.  Of several local types with one name the last
counts. -/
def TypeEntries.addChild (blocks : NestedEntries) (before : TypeEntries)
    (child : ChildType) : TypeEntries :=
  match blocks[child.name]? with
  | none => before
  | some block =>
      let entries := before.entries ++ block
      { entries := entries
        localTypes :=
          if child.kind = .member then before.localTypes
          else before.localTypes.insert child.name
            (unplaced (entries.size - block.size) block) }

mutual

/-- The entries of a type: header, nested types, fields, methods. -/
def TypeTree.entries (options : ExtractOptions) (known : Universe) :
    TypeTree → Except ExtractError (Array Entry)
  | .node decl nested => do
      let type := TypeSite.of known decl
      let header ← headerEntries options type
      let blocks := nested.addEntries options known ∅
      let ⟨inner, localTypes⟩ :=
        decl.children.foldl (TypeEntries.addChild blocks) { entries := header.toArray }
      let declared ← decl.fields.foldlM (addField options type) inner
      addMethods options type localTypes decl.methods declared

/-- Adds the entries of nested types to those of others. -/
def NestedTrees.addEntries (options : ExtractOptions) (known : Universe) :
    NestedTrees → (before : NestedEntries) → NestedEntries
  | .nil, before => before
  | .cons name tree rest, before =>
      match tree.entries options known with
      | .error _ => rest.addEntries options known before
      | .ok block => rest.addEntries options known (before.insert name block)

end

/-- The references of a class and of the types nested in it. -/
def extract (options : ExtractOptions) (known : Universe) (decl : ClassDecl) :
    Except ExtractError (List Reference) := do
  let entries ← (TypeTree.of known decl).entries options known
  return delivered (foldAccessors options entries.toList)

/-- The message of a failed extraction. -/
def extractMessage (decl : ClassDecl) (error : ExtractError) : String :=
  "extract " ++ decl.qualifiedName ++ ": " ++ error.message

/-- The references of one root type. -/
structure TypeReferences where
  typeName : String
  references : List Reference
  deriving DecidableEq, Repr

/-- What extraction of a list of types delivers, in the order of type names. -/
structure ExtractionOutput where
  types : List TypeReferences
  failures : List TypeFailure
  deriving DecidableEq, Repr

namespace ExtractionOutput

/-- All references, in order. -/
def references (output : ExtractionOutput) : List Reference :=
  output.types.flatMap TypeReferences.references

end ExtractionOutput

/-- The type around a nested class, by its nesting or else by its name. -/
def enclosingName? (decl : ClassDecl) : Option String :=
  match decl.nesting with
  | none => none
  | some nesting =>
      match nesting.outerName with
      | some outer => some outer
      | none => outerByDollar decl.name

/-- Whether a class is reached through no other class of a list. -/
def isRoot (names : List String) (decl : ClassDecl) : Bool :=
  match enclosingName? decl with
  | none => true
  | some outer => outer ∉ names

/-- The root types of a list, in the order of their names. -/
def rootTypes (decls : List ClassDecl) : List ClassDecl :=
  sortByName ClassDecl.qualifiedName
    (decls.filter (isRoot (decls.map ClassDecl.name)))

/-- The references of every root type; a type that fails is reported. -/
def extractAll (options : ExtractOptions) (known : Universe) (decls : List ClassDecl) :
    ExtractionOutput :=
  let results := (rootTypes decls).map (fun decl => (decl, extract options known decl))
  { types := results.filterMap (fun (decl, result) =>
      match result with
      | .ok references => some { typeName := decl.qualifiedName, references }
      | .error _ => none)
    failures := results.filterMap (fun (decl, result) =>
      match result with
      | .ok _ => none
      | .error error =>
          some { typeName := decl.qualifiedName, message := extractMessage decl error }) }

end Linkage
