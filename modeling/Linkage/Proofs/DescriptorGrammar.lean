import Linkage.Extraction.Glossary
import Linkage.Proofs.Outcome
import Linkage.Proofs.SignatureGrammar
/-
The grammar of descriptors and of the class operands of instructions, and what is read
from them.  A descriptor of the grammar is read exactly; a class operand names the class
of its elements, whatever its dimensions.
-/

namespace Linkage

/-- The internal name of a class. -/
abbrev ClassName := Word ['.', ';', '[']

/-- A type that is no array. -/
inductive ElementType where
  | primitive (type : PrimitiveType)
  | object (name : ClassName)

namespace ElementType

/-- The text of a type that is no array. -/
def text : ElementType → List Char
  | primitive type => [type.letter]
  | object name => 'L' :: name.text ++ [';']

/-- The class that the type is. -/
def class? : ElementType → Option String
  | primitive _ => none
  | object name => some (qualifiedName (String.ofList name.text))

/-- What is read from the text. -/
def descriptor : ElementType → TypeDescriptor
  | primitive type => .primitive type.letter
  | object name => .object (String.ofList name.text)

end ElementType

/-- The type of a field or parameter, with its dimensions if it is an array. -/
structure FieldType where
  dimensions : Nat
  element : ElementType
  bound : dimensions ≤ 255

namespace FieldType

/-- The text of a field descriptor. -/
def chars (type : FieldType) : List Char :=
  List.replicate type.dimensions '[' ++ type.element.text

/-- The field descriptor. -/
def text (type : FieldType) : String :=
  String.ofList type.chars

/-- What is read from the descriptor. -/
def descriptor (type : FieldType) : TypeDescriptor :=
  if type.dimensions = 0 then type.element.descriptor
  else .array type.element.descriptor type.dimensions

end FieldType

/-- The type of a method; no result stands for `void`. -/
structure MethodType where
  parameters : List FieldType
  result : Option FieldType

namespace MethodType

/-- The text of the result. -/
def resultText (type : MethodType) : List Char :=
  match type.result with
  | none => ['V']
  | some result => result.chars

/-- The method descriptor. -/
def text (type : MethodType) : String :=
  String.ofList ('(' :: type.parameters.flatMap FieldType.chars ++ ')' :: type.resultText)

/-- What is read from the descriptor. -/
def descriptor (type : MethodType) : MethodDescriptor where
  parameters := type.parameters.map FieldType.descriptor
  result := (type.result.map FieldType.descriptor).getD (.primitive 'V')

end MethodType

/-- The class operand of an instruction: the name of a class or an array descriptor. -/
inductive ClassOperand where
  | plain (name : ClassName)
  | array (type : FieldType) (h : type.dimensions ≠ 0)

namespace ClassOperand

/-- The operand as an instruction has it. -/
def text : ClassOperand → String
  | plain name => String.ofList name.text
  | array type _ => type.text

/-- The class that the operand stands for, that of the elements of an array. -/
def class? : ClassOperand → Option String
  | plain name => some (qualifiedName (String.ofList name.text))
  | array type _ => type.element.class?

end ClassOperand

/-- The class that the text of an operand names, well-formed or not: the text is a name, or the
descriptor of an array with elements of the class. -/
inductive OperandNames (operand : String) : String → Prop where
  | plain (h : operand.toList.head? ≠ some '[') : OperandNames operand (qualifiedName operand)
  | element {dimensions : Nat} {name : List Char} (hpos : 0 < dimensions)
      (h : operand.toList = List.replicate dimensions '[' ++ 'L' :: (name ++ [';'])) :
      OperandNames operand (qualifiedName (String.ofList name))

/-! Reading. -/

theorem ElementType.text_eq_cons (type : ElementType) :
    ∃ c tail, type.text = c :: tail ∧ c ≠ '[' ∧ c ≠ ')' := by
  cases type with
  | primitive type =>
      refine ⟨type.letter, [], rfl, ?_⟩
      cases type <;> decide
  | object name => exact ⟨'L', _, rfl, by decide⟩

theorem ElementType.className?_descriptor (type : ElementType) :
    type.descriptor.className? = type.class? := by
  cases type <;> rfl

theorem FieldType.className?_descriptor (type : FieldType) :
    type.descriptor.className? = type.element.class? := by
  rw [descriptor]
  split
  · exact type.element.className?_descriptor
  · exact type.element.className?_descriptor

theorem ClassName.takeWhile_semicolon (name : ClassName) (rest : List Char) :
    (name.text ++ ';' :: rest).takeWhile (· ≠ ';') = name.text ∧
      (name.text ++ ';' :: rest).dropWhile (· ≠ ';') = ';' :: rest := by
  apply takeWhile_dropWhile_append
  · intro c hc
    simpa using name.ne_of_mem (by decide) hc
  · simp

namespace TypeDescriptor

theorem readElement_text (type : ElementType) (rest : List Char) :
    readElement (type.text ++ rest) = .ok (some type.descriptor, rest) := by
  cases type with
  | primitive type => cases type <;> rfl
  | object name =>
      obtain ⟨htake, hdrop⟩ := name.takeWhile_semicolon rest
      have htext : (ElementType.object name).text ++ rest = 'L' :: (name.text ++ ';' :: rest) := by
        simp [ElementType.text]
      rw [htext, readElement, hdrop, htake]
      rfl

theorem takeWhile_dimensions (type : FieldType) (rest : List Char) :
    (type.chars ++ rest).takeWhile (· = '[') = List.replicate type.dimensions '[' ∧
      (type.chars ++ rest).dropWhile (· = '[') = type.element.text ++ rest := by
  obtain ⟨c, tail, htext, hc, -⟩ := type.element.text_eq_cons
  rw [FieldType.chars, List.append_assoc, htext, List.cons_append]
  apply takeWhile_dropWhile_append
  · intro d hd
    simpa using (List.mem_replicate.mp hd).2
  · simp [hc]

/-- A type of the grammar is read exactly, whatever follows. -/
theorem read_chars (type : FieldType) (rest : List Char) :
    read (type.chars ++ rest) = .ok (some type.descriptor, rest) := by
  obtain ⟨htake, hdrop⟩ := takeWhile_dimensions type rest
  have hdimensions : ¬ maxDimensions < type.dimensions := Nat.not_lt.mpr type.bound
  have harray : readArray (type.chars ++ rest)
      = .ok (some (.array type.element.descriptor type.dimensions), rest) := by
    rw [readArray]
    simp only [htake, hdrop, List.length_replicate, if_neg hdimensions, readElement_text]
  cases hzero : type.dimensions with
  | zero =>
      obtain ⟨c, tail, htext, hc, -⟩ := type.element.text_eq_cons
      have hplain : type.chars = type.element.text := by
        simp [FieldType.chars, hzero]
      rw [FieldType.descriptor, if_pos hzero, hplain, ← readElement_text type.element rest]
      unfold read
      split
      · rename_i hcons
        rw [htext] at hcons
        exact absurd (List.cons.inj hcons).1 hc
      · rfl
  | succ n =>
      have hcons : type.chars ++ rest
          = '[' :: (List.replicate n '[' ++ type.element.text ++ rest) := by
        simp [FieldType.chars, hzero, List.replicate_succ]
      rw [FieldType.descriptor, if_neg (by simp [hzero]), ← harray, hcons]
      rfl

end TypeDescriptor

/-- A field descriptor of the grammar names the class of its elements. -/
theorem readFieldType_text (type : FieldType) :
    readFieldType type.text = .ok type.element.class? := by
  have hread := TypeDescriptor.read_chars type []
  rw [List.append_nil] at hread
  rw [readFieldType, fieldTypeClass, TypeDescriptor.ofField, FieldType.text,
    String.toList_ofList, hread]
  simp only [Except.map, type.className?_descriptor, mapError_ok]

theorem MethodDescriptor.readParameters_chars (types : List FieldType)
    (before : List TypeDescriptor) (rest : List Char) :
    readParameters before (types.flatMap FieldType.chars ++ ')' :: rest)
      = .ok (before.reverse ++ types.map FieldType.descriptor, rest) := by
  induction types generalizing before with
  | nil =>
      have hread : TypeDescriptor.read (')' :: rest) = .ok (none, rest) := rfl
      rw [List.flatMap_nil, List.nil_append, readParameters]
      split
      · rename_i herror
        rw [hread] at herror
        cases herror
      · rename_i after hclose
        rw [hread] at hclose
        cases hclose
        rw [List.map_nil, List.append_nil]
      · rename_i type after htype
        rw [hread] at htype
        cases htype
  | cons first others ih =>
      have hread := TypeDescriptor.read_chars first
        (others.flatMap FieldType.chars ++ ')' :: rest)
      rw [List.flatMap_cons, List.append_assoc, readParameters]
      split
      · rename_i herror
        rw [hread] at herror
        cases herror
      · rename_i after hclose
        rw [hread] at hclose
        cases hclose
      · rename_i type after htype
        rw [hread] at htype
        cases htype
        rw [ih, List.reverse_cons, List.append_assoc, List.map_cons]
        rfl

theorem MethodType.read_resultText (type : MethodType) :
    TypeDescriptor.read type.resultText
      = .ok (some type.descriptor.result, []) := by
  rw [MethodType.resultText, MethodType.descriptor]
  cases type.result with
  | none => rfl
  | some result => simpa using TypeDescriptor.read_chars result []

/-- A method descriptor of the grammar is read exactly. -/
theorem MethodDescriptor.parse_text (type : MethodType) :
    parse type.text = .ok type.descriptor := by
  have hparameters := readParameters_chars type.parameters [] type.resultText
  rw [parse, MethodType.text, String.toList_ofList]
  simp only [List.cons_append, hparameters, type.read_resultText]
  rfl

/-- A method descriptor of the grammar names the classes of its parameters and of its
result. -/
theorem readMethodTypes_text (type : MethodType) :
    ∃ slots, readMethodTypes type.text = .ok
      ⟨type.parameters.filterMap (fun parameter => parameter.element.class?),
        type.result.bind (fun result => result.element.class?), slots⟩ := by
  have hresult : type.descriptor.resultClass?
      = type.result.bind (fun result => result.element.class?) := by
    rw [MethodDescriptor.resultClass?, MethodType.descriptor]
    cases type.result with
    | none => rfl
    | some result => exact result.className?_descriptor
  have hparameters : type.descriptor.parameterClasses
      = type.parameters.filterMap (fun parameter => parameter.element.class?) := by
    rw [MethodDescriptor.parameterClasses, MethodType.descriptor, List.filterMap_map]
    congr 1
    funext parameter
    exact parameter.className?_descriptor
  refine ⟨type.descriptor.argumentSlots, ?_⟩
  rw [readMethodTypes, MethodDescriptor.parse_text, ← hparameters, ← hresult]
  rfl

/-- The class of an operand is read off its text. -/
theorem classOperand?_eq_some_iff {operand name : String} :
    classOperand? operand = some name ↔ OperandNames operand name := by
  constructor
  · intro h
    unfold classOperand? at h
    split at h
    next rest htext =>
      split at h
      next name hname =>
        obtain ⟨inner, hinner, rfl⟩ := Option.map_eq_some_iff.mp h
        have hdimensions : operand.toList.takeWhile (· = '[') =
            List.replicate (operand.toList.takeWhile (· = '[')).length '[' :=
          List.eq_replicate_of_mem fun c hc => by
            simpa using List.all_eq_true.mp List.all_takeWhile c hc
        have hpos : 0 < (operand.toList.takeWhile (· = '[')).length := by simp [htext]
        refine .element hpos ?_
        rw [← hdimensions, ← dropEnd_eq_some_iff.mp hinner, ← hname,
          List.takeWhile_append_dropWhile]
      next => cases h
    next hplain =>
      cases h
      exact .plain fun hhead => by
        obtain ⟨rest, hrest⟩ := List.head?_eq_some_iff.mp hhead
        exact hplain rest hrest
  · intro h
    unfold classOperand?
    cases h with
    | plain hplain =>
        split
        next rest htext => simp [htext] at hplain
        next => rfl
    | @element dimensions inner hpos htext =>
        have hdrop : operand.toList.dropWhile (· = '[') = 'L' :: (inner ++ [';']) := by
          have hbrackets : ∀ c ∈ List.replicate dimensions '[', decide (c = '[') = true :=
            fun c hc => by simpa using (List.mem_replicate.mp hc).2
          rw [htext]
          exact (takeWhile_dropWhile_append hbrackets (by decide) _).2
        obtain ⟨more, rfl⟩ := Nat.exists_eq_add_of_lt hpos
        rw [hdrop, htext, Nat.zero_add, List.replicate_succ, List.cons_append]
        simp only [dropEnd_eq_some_iff.mpr rfl, Option.map_some]

/-- A class operand stands for the class of its elements. -/
theorem classOperand?_text (operand : ClassOperand) :
    classOperand? operand.text = operand.class? := by
  cases operand with
  | plain name =>
      obtain ⟨c, tail, htext, hc⟩ := name.eq_cons
      have hbracket : c ≠ '[' := by
        rintro rfl
        exact hc (by decide)
      rw [ClassOperand.text, ClassOperand.class?]
      unfold classOperand?
      split
      · rename_i hcons
        rw [String.toList_ofList, htext] at hcons
        exact absurd (List.cons.inj hcons).1 hbracket
      · rfl
  | array type h =>
      have hdrop := (TypeDescriptor.takeWhile_dimensions type []).2
      rw [List.append_nil, List.append_nil] at hdrop
      obtain ⟨n, hn⟩ := Nat.exists_eq_succ_of_ne_zero h
      have hcons : type.chars = '[' :: (List.replicate n '[' ++ type.element.text) := by
        simp [FieldType.chars, hn, List.replicate_succ]
      rw [ClassOperand.text, ClassOperand.class?, FieldType.text]
      unfold classOperand?
      rw [String.toList_ofList, hdrop, hcons]
      cases type.element with
      | primitive type => cases type <;> rfl
      | object name => simp [ElementType.text, ElementType.class?, dropEnd, dropStart]

theorem operandNames_text_iff {operand : ClassOperand} {name : String} :
    OperandNames operand.text name ↔ operand.class? = some name := by
  rw [← classOperand?_eq_some_iff, classOperand?_text]

end Linkage
