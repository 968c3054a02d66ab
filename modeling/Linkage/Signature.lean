import Linkage.Kind
import Linkage.Name
/-
Generic signatures.  A signature is split into the classes that it names, each
tagged with the role it plays; type variables and primitive types name no
class.  Every reader consumes part of its input, so reading ends, and the whole
text has to be used up.
-/

namespace Linkage

/-- The declaration that a generic signature belongs to. -/
inductive SignatureOwner where
  | type (isInterface : Bool)
  | field
  | method
  | localVariable
  deriving DecidableEq, Repr

/-- The kind given to type arguments and bounds of a declaration. -/
def SignatureOwner.declarationKind : SignatureOwner → ReferenceKind
  | .type _ => .parameterizedType
  | .field => .parameterizedField
  | .method => .parameterizedMethod
  | .localVariable => .parameterizedVariable

/-- A class named by a signature, with its role. -/
structure SignatureType where
  typeName : String
  kind : ReferenceKind
  deriving DecidableEq, Repr

/-- Why a text is no signature; `rest` is the text left unread at the fault. -/
inductive SignatureError where
  | trailing (rest : List Char)
  | unexpected (found : Char) (rest : List Char)
  | unexpectedEnd
  | unterminatedClass
  | emptyClassName (rest : List Char)
  | emptyIdentifier (rest : List Char)
  | expected (wanted found : Char) (rest : List Char)
  | expectedAtEnd (wanted : Char)
  deriving DecidableEq, Repr

namespace SignatureError

/-- The number of bytes that a text takes. -/
def byteLength (text : List Char) : Nat :=
  text.foldr (fun c size => c.utf8Size + size) 0

/-- The first byte of a character's encoding, shown as a character. -/
def leadByte (c : Char) : Char :=
  let code := c.toNat
  if code < 0x80 then c
  else if code < 0x800 then Char.ofNat (0xc0 + code / 0x40)
  else if code < 0x10000 then Char.ofNat (0xe0 + code / 0x1000)
  else Char.ofNat (0xf0 + code / 0x40000)

/-- A character between quotes. -/
def quote (c : Char) : String := "'" ++ String.ofList [leadByte c] ++ "'"

/-- The error as messages write it.  Positions count the bytes before the fault. -/
def message (input : List Char) (error : SignatureError) : String :=
  let position := fun (rest : List Char) => toString (byteLength input - byteLength rest)
  match error with
  | trailing rest => "trailing characters at " ++ position rest
  | unexpected found rest => "unexpected " ++ quote found ++ " at " ++ position rest
  | unexpectedEnd => "unexpected end"
  | unterminatedClass => "unterminated class type"
  | emptyClassName rest => "empty class name at " ++ position rest
  | emptyIdentifier rest => "empty identifier at " ++ position rest
  | expected wanted found rest =>
      "expected " ++ quote wanted ++ " but found " ++ quote found ++ " at " ++ position rest
  | expectedAtEnd wanted => "expected " ++ quote wanted ++ " at end"

end SignatureError

namespace Signature

/-- What a reader leaves: the classes found so far, the latest first, and the text that
it has not read, which is shorter than the one that it started with. -/
structure Reading (start : List Char) where
  found : List SignatureType
  rest : List Char
  short : rest.length < start.length

abbrev Outcome (start : List Char) := Except SignatureError (Reading start)

/-- The text after one given character. -/
def expect (wanted : Char) (input : List Char) :
    Except SignatureError { rest : List Char // rest.length < input.length } :=
  match input with
  | [] => .error (.expectedAtEnd wanted)
  | c :: rest =>
      if c = wanted then .ok ⟨rest, by simp⟩
      else .error (.expected wanted c (c :: rest))

/-- The text after a non-empty run of characters other than a terminator, and after
the terminator. -/
def identifier (terminator : Char) (input : List Char) :
    Except SignatureError { rest : List Char // rest.length < input.length } :=
  match input with
  | [] => .error (.emptyIdentifier [])
  | c :: rest =>
      if c = terminator then .error (.emptyIdentifier (c :: rest))
      else
        match h : rest.dropWhile (· ≠ terminator) with
        | [] => .error (.expectedAtEnd terminator)
        | _ :: after =>
            .ok ⟨after, by
              have hle : (rest.dropWhile (· ≠ terminator)).length ≤ rest.length :=
                (List.dropWhile_sublist _).length_le
              rw [h] at hle
              simp only [List.length_cons] at hle ⊢
              omega⟩

/-- Characters that end the simple or qualified name of a class type. -/
def endsClassName (c : Char) : Bool := c = '<' || c = ';' || c = '.'

def primitiveLetters : List Char := ['B', 'C', 'D', 'F', 'I', 'J', 'S', 'Z']

/-- The name of a class with the names of inner classes, the innermost first. -/
def className (parts : List (List Char)) : String :=
  qualifiedName (String.ofList (List.intercalate ['$'] parts.reverse))

theorem dropWhile_length_le (p : Char → Bool) (input : List Char) :
    (input.dropWhile p).length ≤ input.length :=
  (List.dropWhile_sublist p).length_le

theorem length_dropWhile_lt {c : Char} {rest : List Char} {size : Nat} (p : Char → Bool)
    (h : (c :: rest).length < size + 1) : (rest.dropWhile p).length < size :=
  Nat.lt_of_le_of_lt (dropWhile_length_le p rest) (Nat.lt_of_succ_lt_succ h)

/-- A type argument without the mark of a bounded wildcard. -/
def withoutMark : List Char → List Char
  | '+' :: rest => rest
  | '-' :: rest => rest
  | other => other

theorem withoutMark_length_le (input : List Char) :
    (withoutMark input).length ≤ input.length := by
  unfold withoutMark
  split <;> simp

mutual

/-- Reads a class type, a type variable or an array type. -/
def referenceType (declaration role : ReferenceKind) (found : List SignatureType)
    {start : List Char} (input : List Char) (bound : input.length ≤ start.length) :
    Outcome start :=
  match input with
  | [] => .error .unexpectedEnd
  | 'L' :: rest =>
      match rest.takeWhile (fun c => !endsClassName c) with
      | [] => .error (.emptyClassName rest)
      | c :: name =>
          classRest declaration role true [c :: name] found
            (rest.dropWhile (fun c => !endsClassName c)) (by
              have hle := dropWhile_length_le (fun c => !endsClassName c) rest
              simp only [List.length_cons] at bound
              omega)
  | 'T' :: rest => do
      let after ← identifier ';' rest
      return ⟨found, after.val, by
        have hafter := after.property
        simp only [List.length_cons] at bound
        omega⟩
  | '[' :: rest =>
      javaType declaration role found rest (by
        simp only [List.length_cons] at bound
        omega)
  | c :: rest => .error (.unexpected c (c :: rest))
termination_by (input.length, 0)
decreasing_by
  · have hle := dropWhile_length_le (fun c => !endsClassName c) rest
    apply Prod.Lex.left
    simp only [List.length_cons]
    omega
  · apply Prod.Lex.left
    simp

/-- Reads a primitive type or what `referenceType` reads. -/
def javaType (declaration role : ReferenceKind) (found : List SignatureType)
    {start : List Char} (input : List Char) (bound : input.length ≤ start.length) :
    Outcome start :=
  match input with
  | [] => .error .unexpectedEnd
  | c :: rest =>
      if c ∈ primitiveLetters then
        .ok ⟨found, rest, by
          simp only [List.length_cons] at bound
          omega⟩
      else referenceType declaration role found (c :: rest) bound
termination_by (input.length, 1)
decreasing_by
  apply Prod.Lex.right
  omega

/-- Reads what follows the name of a class type, innermost in `parts`: type arguments,
unless they have been read, then the end of the type or the name of an inner class. -/
def classRest (declaration role : ReferenceKind) (mayHaveArguments : Bool)
    (parts : List (List Char)) (found : List SignatureType) {start : List Char}
    (input : List Char) (bound : input.length ≤ start.length) : Outcome start :=
  match input with
  | [] => .error .unterminatedClass
  | ';' :: rest =>
      .ok ⟨⟨className parts, role⟩ :: found, rest, by
        simp only [List.length_cons] at bound
        omega⟩
  | '.' :: rest =>
      match rest.takeWhile (fun c => !endsClassName c) with
      | [] => .error (.emptyClassName rest)
      | c :: inner =>
          classRest declaration role true ((c :: inner) :: parts) found
            (rest.dropWhile (fun c => !endsClassName c)) (by
              have hle := dropWhile_length_le (fun c => !endsClassName c) rest
              simp only [List.length_cons] at bound
              omega)
  | '<' :: rest =>
      if mayHaveArguments then do
        let arguments ← typeArguments declaration found rest (Nat.le_refl rest.length)
        classRest declaration role false parts arguments.found arguments.rest (by
          have hshort := arguments.short
          simp only [List.length_cons] at bound
          omega)
      else .error (.unexpected '<' ('<' :: rest))
  | c :: rest => .error (.unexpected c (c :: rest))
termination_by (input.length, 0)
decreasing_by
  · have hle := dropWhile_length_le (fun c => !endsClassName c) rest
    apply Prod.Lex.left
    simp only [List.length_cons]
    omega
  · apply Prod.Lex.left
    simp
  · have hshort := arguments.short
    apply Prod.Lex.left
    simp only [List.length_cons]
    omega

/-- Reads type arguments and the closing bracket. -/
def typeArguments (declaration : ReferenceKind) (found : List SignatureType)
    {start : List Char} (input : List Char) (bound : input.length ≤ start.length) :
    Outcome start :=
  match input with
  | [] => .error .unexpectedEnd
  | c :: rest =>
      if c = '>' then
        .ok ⟨found, rest, by
          simp only [List.length_cons] at bound
          omega⟩
      else if c = '*' then
        typeArguments declaration found rest (by
          simp only [List.length_cons] at bound
          omega)
      else do
        let type ← referenceType declaration declaration found (withoutMark (c :: rest))
          (withoutMark_length_le (c :: rest))
        typeArguments declaration type.found type.rest (by
          have hshort := type.short
          omega)
termination_by (input.length, 1)
decreasing_by
  · apply Prod.Lex.left
    simp
  · exact Prod.Lex.right' _ (withoutMark_length_le _) (by omega)
  · have hshort := type.short
    apply Prod.Lex.left
    omega

end

def classType (declaration role : ReferenceKind) (found : List SignatureType)
    (input : List Char) : Outcome input :=
  match input with
  | 'L' :: rest => referenceType declaration role found ('L' :: rest) (Nat.le_refl _)
  | [] => .error (.expectedAtEnd 'L')
  | c :: rest => .error (.expected 'L' c (c :: rest))

/-- Reads interface bounds, each after a colon. -/
def interfaceBounds (declaration : ReferenceKind) (found : List SignatureType)
    {start : List Char} (input : List Char) (bound : input.length < start.length) :
    Outcome start :=
  match input with
  | [] => .ok ⟨found, [], bound⟩
  | c :: rest =>
      if c = ':' then do
        let type ← referenceType declaration declaration found rest
          (Nat.le_refl rest.length)
        interfaceBounds declaration type.found type.rest (by
          have hshort := type.short
          simp only [List.length_cons] at bound
          omega)
      else .ok ⟨found, c :: rest, bound⟩
termination_by input.length
decreasing_by
  have hshort := type.short
  simp only [List.length_cons]
  omega

/-- Whether the text starts with the name of a type parameter: the colon that
ends a name comes before any character that a bound would have. -/
def atTypeParameter (input : List Char) : Bool :=
  match input.find? (fun c => c = ':' || c = ';' || c = '<' || c = '/' || c = '>') with
  | some ':' => true
  | _ => false

/-- Whether the class bound of a type parameter is left out. -/
def lacksClassBound : List Char → Bool
  | ':' :: _ => true
  | '>' :: _ => true
  | other => atTypeParameter other

/-- Reads the class bound of a type parameter, which may be left out. -/
def classBound (declaration : ReferenceKind) (found : List SignatureType)
    {start : List Char} (input : List Char) (bound : input.length < start.length) :
    Outcome start :=
  if lacksClassBound input then .ok ⟨found, input, bound⟩
  else referenceType declaration declaration found input (Nat.le_of_lt bound)

/-- Reads type parameters and the closing bracket. -/
def typeParameterList (declaration : ReferenceKind) (found : List SignatureType)
    {start : List Char} (input : List Char) (bound : input.length ≤ start.length) :
    Outcome start :=
  match input with
  | [] => .error (.emptyIdentifier [])
  | c :: rest =>
      if c = '>' then
        .ok ⟨found, rest, by
          simp only [List.length_cons] at bound
          omega⟩
      else do
        let afterName ← identifier ':' (c :: rest)
        let class_ ← classBound declaration found afterName.val afterName.property
        let all ← interfaceBounds declaration class_.found class_.rest class_.short
        typeParameterList declaration all.found all.rest (by
          have hall := all.short
          omega)
termination_by input.length
decreasing_by
  have hall := all.short
  omega

/-- Reads the type parameters of a declaration, if it has any. -/
def typeParameters (declaration : ReferenceKind) (input : List Char) :
    Except SignatureError (List SignatureType × List Char) :=
  match input with
  | '<' :: rest => do
      let parameters ← typeParameterList declaration [] rest (Nat.le_refl rest.length)
      return (parameters.found, parameters.rest)
  | other => .ok ([], other)

/-- Reads class types to the end of the text. -/
def superInterfaces (declaration role : ReferenceKind) (found : List SignatureType)
    (input : List Char) : Except SignatureError (List SignatureType) :=
  match input with
  | [] => .ok found
  | c :: rest => do
      let type ← classType declaration role found (c :: rest)
      superInterfaces declaration role type.found type.rest
termination_by input.length
decreasing_by exact type.short

/-- The classes of a class signature, the last first.  The super class of an interface
is always the root class and contributes nothing. -/
def classSignature (isInterface : Bool) (input : List Char) :
    Except SignatureError (List SignatureType) := do
  let declaration := SignatureOwner.declarationKind (.type isInterface)
  let (parameters, rest) ← typeParameters declaration input
  let superClass ← classType declaration .extendsType parameters rest
  superInterfaces declaration (if isInterface then .extendsType else .implementsType)
    (if isInterface then parameters else superClass.found) superClass.rest

/-- Reads parameter types and the closing parenthesis. -/
def parameterTypes (declaration : ReferenceKind) (found : List SignatureType)
    {start : List Char} (input : List Char) (bound : input.length ≤ start.length) :
    Outcome start :=
  match input with
  | [] => .error .unexpectedEnd
  | c :: rest =>
      if c = ')' then
        .ok ⟨found, rest, by
          simp only [List.length_cons] at bound
          omega⟩
      else do
        let type ← javaType declaration .parameter found (c :: rest)
          (Nat.le_refl (c :: rest).length)
        parameterTypes declaration type.found type.rest (by
          have hshort := type.short
          omega)
termination_by input.length
decreasing_by exact type.short

def resultType (declaration : ReferenceKind) (found : List SignatureType)
    (input : List Char) : Outcome input :=
  match input with
  | 'V' :: rest => .ok ⟨found, rest, by simp⟩
  | other => javaType declaration .returnType found other (Nat.le_refl other.length)

/-- Reads the types of the throws clause, each after a caret. -/
def thrownTypes (declaration : ReferenceKind) (found : List SignatureType)
    (input : List Char) : Except SignatureError (List SignatureType × List Char) :=
  match input with
  | '^' :: rest => do
      let type ← referenceType declaration .throws found rest (Nat.le_refl rest.length)
      thrownTypes declaration type.found type.rest
  | other => .ok (found, other)
termination_by input.length
decreasing_by
  have hshort := type.short
  simp only [List.length_cons]
  omega

/-- The classes found, if nothing is left to read. -/
def atEnd (found : List SignatureType) (rest : List Char) :
    Except SignatureError (List SignatureType) :=
  match rest with
  | [] => .ok found
  | c :: more => .error (.trailing (c :: more))

/-- The classes of a method signature, the last first. -/
def methodSignature (input : List Char) : Except SignatureError (List SignatureType) := do
  let declaration := SignatureOwner.declarationKind .method
  let (formal, rest) ← typeParameters declaration input
  let ⟨opened, _⟩ ← expect '(' rest
  let parameters ← parameterTypes declaration formal opened (Nat.le_refl opened.length)
  let result ← resultType declaration parameters.found parameters.rest
  let (found, rest) ← thrownTypes declaration result.found result.rest
  atEnd found rest

/-- The classes of the signature of a field or local variable, the last first. -/
def variableSignature (declaration : ReferenceKind) (input : List Char) :
    Except SignatureError (List SignatureType) := do
  let type ← referenceType declaration declaration [] input (Nat.le_refl input.length)
  atEnd type.found type.rest

/-- The classes that a signature names, in order, with their roles. -/
def destructure (owner : SignatureOwner) (signature : String) :
    Except SignatureError (List SignatureType) :=
  List.reverse <$>
    match owner with
    | .type isInterface => classSignature isInterface signature.toList
    | .method => methodSignature signature.toList
    | .field => variableSignature owner.declarationKind signature.toList
    | .localVariable => variableSignature owner.declarationKind signature.toList

end Signature

end Linkage
