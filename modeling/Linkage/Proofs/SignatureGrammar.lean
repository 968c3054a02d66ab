import Linkage.Signature
/-
The grammar of generic signatures: the types, type parameters and declarations
that a signature is the text of, and the classes that it names.  Nothing here
depends on how a signature is read.
-/

namespace Linkage

/-- A run of items that satisfy a test ends where the first item fails it. -/
theorem takeWhile_dropWhile_append {α : Type} {test : α → Bool} {run : List α} {mark : α}
    (hrun : ∀ item ∈ run, test item = true) (hmark : test mark = false) (rest : List α) :
    (run ++ mark :: rest).takeWhile test = run ∧
      (run ++ mark :: rest).dropWhile test = mark :: rest := by
  have hstop : ¬ test mark = true := by simp [hmark]
  constructor
  · rw [List.takeWhile_append_of_pos hrun, List.takeWhile_cons_of_neg hstop, List.append_nil]
  · rw [List.dropWhile_append_of_pos hrun, List.dropWhile_cons_of_neg hstop]

/-- A non-empty text without some characters. -/
structure Word (avoided : List Char) where
  text : List Char
  nonempty : text ≠ []
  avoids : ∀ c ∈ text, c ∉ avoided

namespace Word

variable {avoided : List Char}

theorem ne_of_mem (word : Word avoided) {mark : Char} (hmark : mark ∈ avoided) {c : Char}
    (hc : c ∈ word.text) : c ≠ mark := by
  rintro rfl
  exact word.avoids c hc hmark

theorem eq_cons (word : Word avoided) :
    ∃ c tail, word.text = c :: tail ∧ c ∉ avoided := by
  obtain ⟨c, tail, htext⟩ := List.exists_cons_of_ne_nil word.nonempty
  exact ⟨c, tail, htext, word.avoids c (htext ▸ List.mem_cons_self)⟩

end Word

/-- The primitive types. -/
inductive PrimitiveType where
  | boolean | byte | char | short | int | long | float | double
  deriving DecidableEq, Repr

/-- The letter that stands for a primitive type. -/
def PrimitiveType.letter : PrimitiveType → Char
  | .boolean => 'Z'
  | .byte => 'B'
  | .char => 'C'
  | .short => 'S'
  | .int => 'I'
  | .long => 'J'
  | .float => 'F'
  | .double => 'D'

namespace Signature

/-- The characters that no simple name has. -/
def reserved : List Char := ['.', ';', '[', '/', '<', '>', ':']

/-- A simple name, of a package, a class, a type variable or a type parameter. -/
abbrev Identifier := Word reserved

/-- The bound that a wildcard has. -/
inductive Wildcard where
  | upper
  | lower
  deriving DecidableEq, Repr

/-- The mark in front of the bound of a wildcard. -/
def Wildcard.mark : Wildcard → Char
  | .upper => '+'
  | .lower => '-'

mutual

/-- A class with its type arguments.  An inner class follows the class around it,
which has arguments of its own. -/
inductive ClassType where
  | outer (packages : List Identifier) (name : Identifier) (arguments : TypeArguments)
  | inner (enclosing : ClassType) (name : Identifier) (arguments : TypeArguments)

/-- Type arguments, possibly none. -/
inductive TypeArguments where
  | none
  | cons (first : TypeArgument) (others : TypeArguments)

/-- A type argument: the unbounded wildcard, a bounded one or a type. -/
inductive TypeArgument where
  | any
  | bounded (wildcard : Wildcard) (bound : ReferenceType)
  | exact (type : ReferenceType)

/-- A class type, a type variable or an array type. -/
inductive ReferenceType where
  | classType (type : ClassType)
  | typeVariable (name : Identifier)
  | array (element : JavaType)

/-- A primitive type or a reference type. -/
inductive JavaType where
  | primitive (type : PrimitiveType)
  | reference (type : ReferenceType)

end

mutual

/-- A class type without the semicolon at its end. -/
def ClassType.body : ClassType → List Char
  | .outer packages name arguments =>
      'L' :: packages.flatMap (fun package => package.text ++ ['/']) ++ name.text
        ++ arguments.text
  | .inner enclosing name arguments =>
      enclosing.body ++ '.' :: name.text ++ arguments.text

/-- The arguments between angle brackets, which are left out with the arguments. -/
def TypeArguments.text : TypeArguments → List Char
  | .none => []
  | .cons first others => '<' :: first.text ++ others.items ++ ['>']

/-- The arguments one after the other. -/
def TypeArguments.items : TypeArguments → List Char
  | .none => []
  | .cons first others => first.text ++ others.items

/-- The text of a type argument. -/
def TypeArgument.text : TypeArgument → List Char
  | .any => ['*']
  | .bounded wildcard bound => wildcard.mark :: bound.text
  | .exact type => type.text

/-- The text of a reference type. -/
def ReferenceType.text : ReferenceType → List Char
  | .classType type => type.body ++ [';']
  | .typeVariable name => 'T' :: name.text ++ [';']
  | .array element => '[' :: element.text

/-- The text of a type. -/
def JavaType.text : JavaType → List Char
  | .primitive type => [type.letter]
  | .reference type => type.text

end

/-- The text of a class type. -/
def ClassType.text (type : ClassType) : List Char :=
  (ReferenceType.classType type).text

/-- The qualified name of the class of a type: dots follow the packages and a dollar
sign stands before the name of an inner class. -/
def ClassType.name : ClassType → List Char
  | .outer packages name _ =>
      packages.flatMap (fun package => package.text ++ ['.']) ++ name.text
  | .inner enclosing name _ => enclosing.name ++ '$' :: name.text

mutual

/-- The classes in the type arguments of a class type. -/
def ClassType.inArguments (declaration : ReferenceKind) : ClassType → List SignatureType
  | .outer _ _ arguments => arguments.named declaration
  | .inner enclosing _ arguments =>
      enclosing.inArguments declaration ++ arguments.named declaration

/-- The classes that type arguments name, all with the kind of the declaration. -/
def TypeArguments.named (declaration : ReferenceKind) : TypeArguments → List SignatureType
  | .none => []
  | .cons first others => first.named declaration ++ others.named declaration

/-- The classes that a type argument names. -/
def TypeArgument.named (declaration : ReferenceKind) : TypeArgument → List SignatureType
  | .any => []
  | .bounded _ bound => bound.named declaration declaration
  | .exact type => type.named declaration declaration

/-- The classes that a type in some role names, its own class after those in its
type arguments. -/
def ReferenceType.named (declaration role : ReferenceKind) :
    ReferenceType → List SignatureType
  | .classType type => type.inArguments declaration ++ [⟨String.ofList type.name, role⟩]
  | .typeVariable _ => []
  | .array element => element.named declaration role

/-- The classes that a type in some role names. -/
def JavaType.named (declaration role : ReferenceKind) : JavaType → List SignatureType
  | .primitive _ => []
  | .reference type => type.named declaration role

end

/-- The classes that a class type in some role names. -/
def ClassType.named (declaration role : ReferenceKind) (type : ClassType) :
    List SignatureType :=
  (ReferenceType.classType type).named declaration role

/-- A class type or a type variable: what bounds a type parameter or is thrown. -/
inductive NamedType where
  | classType (type : ClassType)
  | typeVariable (name : Identifier)

/-- The reference type that a class or a type variable is. -/
def NamedType.type : NamedType → ReferenceType
  | .classType type => .classType type
  | .typeVariable name => .typeVariable name

/-- The text of a class type or a type variable. -/
def NamedType.text (type : NamedType) : List Char :=
  type.type.text

/-- The classes that a class type or a type variable in some role names. -/
def NamedType.named (declaration role : ReferenceKind) (type : NamedType) :
    List SignatureType :=
  type.type.named declaration role

/-- A type parameter with its bounds. -/
structure TypeParameter where
  name : Identifier
  classBound : Option NamedType
  interfaceBounds : List NamedType

namespace TypeParameter

/-- The class bound, if there is one. -/
def classBoundText (parameter : TypeParameter) : List Char :=
  parameter.classBound.toList.flatMap NamedType.text

/-- The interface bounds, each after a colon. -/
def interfaceBoundsText (parameter : TypeParameter) : List Char :=
  parameter.interfaceBounds.flatMap (fun bound => ':' :: bound.text)

/-- The text of a type parameter. -/
def text (parameter : TypeParameter) : List Char :=
  parameter.name.text ++ ':' :: parameter.classBoundText ++ parameter.interfaceBoundsText

/-- The classes that the bounds name, all with the kind of the declaration. -/
def named (declaration : ReferenceKind) (parameter : TypeParameter) : List SignatureType :=
  (parameter.classBound.toList ++ parameter.interfaceBounds).flatMap
    (NamedType.named declaration declaration)

end TypeParameter

/-- Type parameters between angle brackets, which are left out with the parameters. -/
def parametersText : List TypeParameter → List Char
  | [] => []
  | first :: others => '<' :: (first :: others).flatMap TypeParameter.text ++ ['>']

/-- The generic signature of a class. -/
structure ClassSignature where
  parameters : List TypeParameter
  superClass : ClassType
  interfaces : List ClassType

namespace ClassSignature

/-- The text of a class signature. -/
def text (signature : ClassSignature) : List Char :=
  parametersText signature.parameters ++ signature.superClass.text
    ++ signature.interfaces.flatMap ClassType.text

/-- The classes that a class signature names.  The super class of an interface is not
among them. -/
def named (isInterface : Bool) (signature : ClassSignature) : List SignatureType :=
  let declaration := ReferenceKind.parameterizedType
  let bounds := signature.parameters.flatMap (TypeParameter.named declaration)
  if isInterface then
    bounds ++ signature.interfaces.flatMap (ClassType.named declaration .extendsType)
  else
    bounds ++ signature.superClass.named declaration .extendsType
      ++ signature.interfaces.flatMap (ClassType.named declaration .implementsType)

end ClassSignature

/-- The generic signature of a method; no result stands for `void`. -/
structure MethodSignature where
  formal : List TypeParameter
  parameters : List JavaType
  result : Option JavaType
  thrown : List NamedType

namespace MethodSignature

/-- The text of the result type. -/
def resultText (signature : MethodSignature) : List Char :=
  match signature.result with
  | none => ['V']
  | some type => type.text

/-- The text of a method signature. -/
def text (signature : MethodSignature) : List Char :=
  parametersText signature.formal
    ++ '(' :: signature.parameters.flatMap JavaType.text
    ++ ')' :: signature.resultText
    ++ signature.thrown.flatMap (fun type => '^' :: type.text)

/-- The classes that a method signature names. -/
def named (signature : MethodSignature) : List SignatureType :=
  let declaration := ReferenceKind.parameterizedMethod
  signature.formal.flatMap (TypeParameter.named declaration)
    ++ signature.parameters.flatMap (JavaType.named declaration .parameter)
    ++ signature.result.toList.flatMap (JavaType.named declaration .returnType)
    ++ signature.thrown.flatMap (NamedType.named declaration .throws)

end MethodSignature

/-- The signature of a declaration. -/
inductive Declared where
  | ofType (isInterface : Bool) (signature : ClassSignature)
  | ofMethod (signature : MethodSignature)
  | ofField (type : ReferenceType)
  | ofLocalVariable (type : ReferenceType)

namespace Declared

/-- The declaration that a signature belongs to. -/
def owner : Declared → SignatureOwner
  | .ofType isInterface _ => .type isInterface
  | .ofMethod _ => .method
  | .ofField _ => .field
  | .ofLocalVariable _ => .localVariable

/-- The text of a signature. -/
def text : Declared → String
  | .ofType _ signature => String.ofList signature.text
  | .ofMethod signature => String.ofList signature.text
  | .ofField type => String.ofList type.text
  | .ofLocalVariable type => String.ofList type.text

/-- The classes that a signature names, in order, with their roles. -/
def named : Declared → List SignatureType
  | .ofType isInterface signature => signature.named isInterface
  | .ofMethod signature => signature.named
  | .ofField type => type.named .parameterizedField .parameterizedField
  | .ofLocalVariable type => type.named .parameterizedVariable .parameterizedVariable

end Declared

end Signature

end Linkage
