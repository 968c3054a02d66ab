import Linkage.Name
/-
Type descriptors of fields and methods, and the classes that they and the
operands of instructions name.  A descriptor is read up to the end of its type;
what follows is ignored.
-/

namespace Linkage

/-- Why a text is no descriptor. -/
inductive DescriptorError where
  | unexpectedEnd
  | missingSemicolon
  | unknownType
  | tooManyDimensions
  | arrayOfNothing
  | nothing
  | missingParenthesis
  | missingReturn
  deriving DecidableEq, Repr

namespace DescriptorError

def message : DescriptorError → String
  | unexpectedEnd => "Unexpected end of input."
  | missingSemicolon =>
      "Invalid descriptor: Missing semicolon in class name descriptor."
  | unknownType => "Invalid descriptor: Unrecognized type descriptor."
  | tooManyDimensions => "Array has too many dimensions."
  | arrayOfNothing => "Invalid descriptor: Invalid descriptor."
  | nothing => "Invalid descriptor: Invalid descriptor"
  | missingParenthesis =>
      "Invalid descriptor: Method descriptor must start with '('."
  | missingReturn => "Invalid descriptor: Missing return type."

end DescriptorError

inductive TypeDescriptor where
  | primitive (letter : Char)
  | object (name : String)
  | array (element : TypeDescriptor) (dimensions : Nat)
  deriving DecidableEq, Repr

namespace TypeDescriptor

/-- The class that a type names, looking through arrays. -/
def className? : TypeDescriptor → Option String
  | primitive _ => none
  | object name => some (qualifiedName name)
  | array element _ => element.className?

/-- The number of local slots that a parameter of the type takes. -/
def slots : TypeDescriptor → Nat
  | primitive 'J' => 2
  | primitive 'D' => 2
  | _ => 1

/-- The letters of the primitive types and of `void`. -/
def primitiveLetters : List Char := ['Z', 'B', 'C', 'S', 'I', 'J', 'F', 'D', 'V']

/-- The greatest number of dimensions of an array type. -/
def maxDimensions : Nat := 255

/-- Reads a type that is no array.  A closing parenthesis reads as no type. -/
def readElement : List Char → Except DescriptorError (Option TypeDescriptor × List Char)
  | [] => .error .unexpectedEnd
  | ')' :: rest => .ok (none, rest)
  | 'L' :: rest =>
      match rest.dropWhile (· ≠ ';') with
      | [] => .error .missingSemicolon
      | _ :: after =>
          .ok (some (.object (String.ofList (rest.takeWhile (· ≠ ';')))), after)
  | c :: rest =>
      if c ∈ primitiveLetters then .ok (some (.primitive c), rest)
      else .error .unknownType

/-- Reads an array type, whose text starts with its dimensions. -/
def readArray (text : List Char) :
    Except DescriptorError (Option TypeDescriptor × List Char) :=
  let dimensions := (text.takeWhile (· = '[')).length
  if maxDimensions < dimensions then .error .tooManyDimensions
  else
    match readElement (text.dropWhile (· = '[')) with
    | .error error => .error error
    | .ok (none, _) => .error .arrayOfNothing
    | .ok (some element, rest) => .ok (some (.array element dimensions), rest)

def read (text : List Char) : Except DescriptorError (Option TypeDescriptor × List Char) :=
  match text with
  | '[' :: rest => readArray ('[' :: rest)
  | other => readElement other

def ofField (descriptor : String) : Except DescriptorError TypeDescriptor :=
  match read descriptor.toList with
  | .error error => .error error
  | .ok (none, _) => .error .nothing
  | .ok (some type, _) => .ok type

theorem readElement_length {text rest : List Char} {type : Option TypeDescriptor}
    (h : readElement text = .ok (type, rest)) : rest.length < text.length := by
  unfold readElement at h
  split at h
  · simp at h
  · simp only [Except.ok.injEq, Prod.mk.injEq] at h
    simp [← h.2]
  · split at h
    · simp at h
    · rename_i hdrop
      simp only [Except.ok.injEq, Prod.mk.injEq] at h
      have hle := (hdrop ▸ List.dropWhile_sublist _).length_le
      simp only [List.length_cons] at hle ⊢
      rw [← h.2]
      omega
  · split at h
    · simp only [Except.ok.injEq, Prod.mk.injEq] at h
      simp [← h.2]
    · simp at h

theorem readArray_length {text rest : List Char} {type : Option TypeDescriptor}
    (h : readArray text = .ok (type, rest)) : rest.length < text.length := by
  unfold readArray at h
  simp only at h
  split at h
  · simp at h
  · split at h
    · simp at h
    · simp at h
    · rename_i element after hread
      simp only [Except.ok.injEq, Prod.mk.injEq] at h
      have hlt := readElement_length hread
      have hle : (text.dropWhile (· = '[')).length ≤ text.length :=
        (List.dropWhile_sublist _).length_le
      rw [← h.2]
      omega

theorem read_length {text rest : List Char} {type : Option TypeDescriptor}
    (h : read text = .ok (type, rest)) : rest.length < text.length := by
  unfold read at h
  split at h
  · exact readArray_length h
  · exact readElement_length h

end TypeDescriptor

/-- The class that a field descriptor names. -/
def fieldTypeClass (descriptor : String) : Except DescriptorError (Option String) :=
  (TypeDescriptor.ofField descriptor).map TypeDescriptor.className?

/-- The parameter and return types of a method descriptor. -/
structure MethodDescriptor where
  parameters : List TypeDescriptor
  result : TypeDescriptor
  deriving DecidableEq, Repr

namespace MethodDescriptor

/-- Reads parameter types up to the closing parenthesis.  Those read before stand in
front of them, the latest first. -/
def readParameters (types : List TypeDescriptor) (text : List Char) :
    Except DescriptorError (List TypeDescriptor × List Char) :=
  match _hread : TypeDescriptor.read text with
  | .error error => .error error
  | .ok (none, rest) => .ok (types.reverse, rest)
  | .ok (some type, rest) => readParameters (type :: types) rest
termination_by text.length
decreasing_by exact TypeDescriptor.read_length _hread

def parse (descriptor : String) : Except DescriptorError MethodDescriptor :=
  match descriptor.toList with
  | '(' :: text =>
      match readParameters [] text with
      | .error error => .error error
      | .ok (parameters, rest) =>
          match TypeDescriptor.read rest with
          | .error error => .error error
          | .ok (none, _) => .error .missingReturn
          | .ok (some result, _) => .ok { parameters, result }
  | _ => .error .missingParenthesis

def parameterClasses (descriptor : MethodDescriptor) : List String :=
  descriptor.parameters.filterMap TypeDescriptor.className?

def resultClass? (descriptor : MethodDescriptor) : Option String :=
  descriptor.result.className?

/-- The local slots of the declared parameters, the receiver not counted. -/
def argumentSlots (descriptor : MethodDescriptor) : Nat :=
  descriptor.parameters.foldr (fun parameter slots => parameter.slots + slots) 0

end MethodDescriptor

/-- The class named by the operand of an instruction: an internal name or an
array descriptor, whose element class counts. -/
def classOperand? (operand : String) : Option String :=
  match operand.toList with
  | '[' :: _ =>
      match operand.toList.dropWhile (· = '[') with
      | 'L' :: name =>
          (dropEnd [';'] name).map (fun inner => qualifiedName (String.ofList inner))
      | _ => none
  | _ => some (qualifiedName operand)

example : classOperand? "[La/B;" = some "a.B" ∧ classOperand? "[[I" = none := by
  decide +kernel

end Linkage
