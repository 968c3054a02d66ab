import Linkage.Extraction.Entry
import Linkage.Extraction.Glossary
import Linkage.Hierarchy
/-
References that declarations make: super types, annotations, field types,
parameter, result and exception types, and overridden methods.
-/

namespace Linkage

/-- References to the classes that a generic signature names. -/
def signatureReferences (source : MemberHandle) (signature : String)
    (types : List SignatureType) : List Reference :=
  types.map (fun type => Reference.ofSignature source type.typeName signature type.kind)

/-- References to types by their internal names. -/
def Glossary.typeReferences (glossary : Glossary) (source : MemberHandle)
    (kind : ReferenceKind) (names : List String) : List Reference :=
  names.map (fun name => Reference.ofType source (glossary.names.get name) kind)

/-- The super class, or the first super-interface of an interface. -/
def ClassDecl.superType? (decl : ClassDecl) : Option String :=
  (if decl.access.isInterface then decl.interfaces.head? else decl.superName).map
    Linkage.qualifiedName

def ClassDecl.virtualCalls (decl : ClassDecl) : List CallSite :=
  decl.bodies.flatMap (fun code => code.instructions.filterMap (fun instruction =>
    match instruction.operation with
    | .invoke call => if call.kind = .virtual then some call else none
    | _ => none))

/-- The interface whose default method a class inherits, by the key of the method. -/
def Universe.providerOf (known : Universe) (type : IndexedClass)
    (key : String × String) : Option ClassDecl :=
  known.defaultProvider type key.1 key.2

/-- A type whose references are extracted, with what its members need. -/
structure TypeSite where
  known : Universe
  type : IndexedClass
  scope : Scope
  superType : Option String
  glossary : Glossary
  /-- The virtual calls that reach default methods. -/
  defaultCalls : Table known.callsDefault
  /-- The providers of inherited default methods. -/
  providers : Table (known.providerOf type)

def TypeSite.of (known : Universe) (decl : ClassDecl) : TypeSite where
  known := known
  type := .of decl
  scope := { name := decl.qualifiedName }
  superType := decl.superType?
  glossary := .of decl
  defaultCalls := .ofKeys _ (if decl.supportsDefaultMethods then decl.virtualCalls else [])
  providers := .ofKeys _ (decl.methods.map MethodDecl.key)

namespace TypeSite

def decl (site : TypeSite) : ClassDecl := site.type.decl

def name (site : TypeSite) : String := site.scope.name

/-- The handle of the type as the source of references. -/
def handle (site : TypeSite) : MemberHandle := .type site.name

/-- References to the super types. -/
def headerReferences (site : TypeSite) : Except TextError (List Reference) :=
  match site.decl.signature with
  | some signature => do
      let types ← readSignature (.type site.decl.access.isInterface) signature
      return signatureReferences site.handle signature types
  | none =>
      let named := site.glossary.typeReferences site.handle
      if site.decl.access.isInterface then .ok (named .extendsType site.decl.interfaces)
      else
        .ok (named .extendsType site.decl.superName.toList
          ++ named .implementsType site.decl.interfaces)

/-- References to the annotations of the type. -/
def annotationReferences (site : TypeSite) : List Reference :=
  site.glossary.typeReferences site.handle .annotationUse site.decl.annotations

/-- The handle of a field as the source of references. -/
def fieldHandle (site : TypeSite) (field : FieldDecl) : MemberHandle :=
  .field site.name field.name

/-- References to the declared type of a field. -/
def fieldTypeDrafts (site : TypeSite) (field : FieldDecl) :
    Except TextError (List Draft) :=
  let source := site.fieldHandle field
  let byDescriptor := fun (trail : Trail) => do
    let type ← site.glossary.fieldTypes.get field.descriptor
    return type.toList.map (fun name =>
      { reference := Reference.ofType source name .fieldDeclaration, trail : Draft })
  if field.access.isSynthetic then byDescriptor .syntheticAccess
  else
    match field.signature with
    | some signature => do
        let types ← site.glossary.fieldSignatures.get signature
        return (signatureReferences source signature types).map Draft.ofReference
    | none => byDescriptor .plain

/-- References that the declaration of a field makes. -/
def fieldDrafts (site : TypeSite) (field : FieldDecl) :
    Except TextError (List Draft) := do
  let types ← site.fieldTypeDrafts field
  return types ++ (site.glossary.typeReferences (site.fieldHandle field) .annotationUse
    field.annotations).map Draft.ofReference

/-- The handle of a method as the source of references. -/
def methodHandle (site : TypeSite) (method : MethodDecl) : MemberHandle :=
  .method site.name method.name method.descriptor

/-- The reference of a method to the one that it may override: an inherited default
method, or else a method of the super type. -/
def overrideReferences (site : TypeSite) (method : MethodDecl) : List Reference :=
  if method.access.isPrivate || method.access.isStatic || method.access.isSynthetic
      || method.isConstructor || method.isClassInitializer then []
  else
    match site.superType with
    | none => []
    | some superType =>
        let (target, flags) :=
          match site.providers.get method.key with
          | some provider => (provider.qualifiedName, defaultMethodFlag)
          | none => (superType, 0)
        [Reference.ofMethod (site.methodHandle method) target method.name
          method.descriptor .override flags]

/-- References to the parameter and result types of a method. -/
def methodTypeReferences (site : TypeSite) (method : MethodDecl) (types : MethodTypes) :
    Except TextError (List Reference) :=
  let source := site.methodHandle method
  match method.signature with
  | some signature => do
      let named ← site.glossary.methodSignatures.get signature
      return signatureReferences source signature named
  | none =>
      .ok (types.parameterClasses.map (fun name => Reference.ofType source name .parameter)
        ++ types.resultClass.toList.map
          (fun name => Reference.ofType source name .returnType))

/-- Whether the generic signature of a method states its exceptions. -/
def throwsInSignature (site : TypeSite) (method : MethodDecl) : Bool :=
  match method.signature with
  | some signature => site.glossary.exceptionClauses.get signature
  | none => false

/-- References to the declared exceptions that the signature does not state. -/
def exceptionReferences (site : TypeSite) (method : MethodDecl) : List Reference :=
  if site.throwsInSignature method then []
  else site.glossary.typeReferences (site.methodHandle method) .throws method.exceptions

/-- References to the types that the header of a method declares; synthetic methods
declare none. -/
def methodHeaderReferences (site : TypeSite) (method : MethodDecl) (types : MethodTypes) :
    Except TextError (List Reference) :=
  if method.access.isSynthetic then .ok []
  else do
    let named ← site.methodTypeReferences method types
    return named ++ site.exceptionReferences method

/-- References that the declaration of a method makes. -/
def methodReferences (site : TypeSite) (method : MethodDecl) (types : MethodTypes) :
    Except TextError (List Reference) := do
  let declared ← site.methodHeaderReferences method types
  return site.overrideReferences method ++ declared
    ++ site.glossary.typeReferences (site.methodHandle method) .annotationUse
      method.annotations

end TypeSite

end Linkage
