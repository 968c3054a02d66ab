import Linkage.Proofs.SignatureGrammar
import Linkage.Proofs.Outcome
/-
Reading generic signatures.  Every reader, given the text of a piece of the grammar
and whatever may follow it, takes exactly that text and finds the classes that the
piece names; so a whole signature is split into the classes that it names.
-/

namespace Linkage

theorem PrimitiveType.letter_mem (type : PrimitiveType) :
    type.letter ∈ Signature.primitiveLetters := by
  cases type <;> decide

namespace Signature

variable {declaration role : ReferenceKind} {found : List SignatureType} {start : List Char}

/-- A reader that takes a text off its input, whatever follows, and adds the classes that
the text names to those found before. -/
def Reads (text : List Char) (named : List SignatureType)
    (reader : List SignatureType → {start : List Char} → (input : List Char) →
      input.length ≤ start.length → Outcome start) : Prop :=
  ∀ found start input rest bound, input = text ++ rest →
    ∃ short, @reader found start input bound = .ok ⟨named.reverse ++ found, rest, short⟩

theorem identifier_word {avoided : List Char} (word : Word avoided) {mark : Char}
    (hmark : mark ∈ avoided) {input : List Char} (rest : List Char)
    (hinput : input = word.text ++ mark :: rest) :
    ∃ short, identifier mark input = .ok ⟨rest, short⟩ := by
  obtain ⟨c, tail, htext, _⟩ := word.eq_cons
  have hne : ∀ d ∈ word.text, d ≠ mark := fun d hd => word.ne_of_mem hmark hd
  have hc : c ≠ mark := hne c (htext ▸ List.mem_cons_self)
  have htail : ∀ d ∈ tail, decide (d ≠ mark) = true := by
    intro d hd
    simpa using hne d (htext ▸ List.mem_cons_of_mem c hd)
  have hdrop : (tail ++ mark :: rest).dropWhile (· ≠ mark) = mark :: rest :=
    (takeWhile_dropWhile_append htail (by simp) rest).2
  rw [htext, List.cons_append] at hinput
  have hshort : rest.length < input.length := by
    rw [hinput, List.length_cons, List.length_append, List.length_cons]
    omega
  subst hinput
  refine ⟨hshort, ?_⟩
  rw [identifier, if_neg hc]
  split
  · rename_i hnone
    rw [hdrop] at hnone
    simp at hnone
  · rename_i first after hsome
    rw [hdrop] at hsome
    simp only [(List.cons.inj hsome).2]

/-- A text that starts with a character that may follow a class name. -/
def AfterName (rest : List Char) : Prop :=
  ∃ c more, rest = c :: more ∧ endsClassName c

theorem takeWhile_className {name rest : List Char}
    (hname : ∀ c ∈ name, endsClassName c = false) (hrest : AfterName rest) :
    (name ++ rest).takeWhile (fun c => !endsClassName c) = name ∧
      (name ++ rest).dropWhile (fun c => !endsClassName c) = rest := by
  obtain ⟨c, more, rfl, hc⟩ := hrest
  apply takeWhile_dropWhile_append
  · intro d hd
    simp [hname d hd]
  · simp [hc]

theorem referenceType_className {name rest input : List Char} (hne : name ≠ [])
    (hname : ∀ c ∈ name, endsClassName c = false) (hrest : AfterName rest)
    (hinput : input = 'L' :: (name ++ rest)) (bound : input.length ≤ start.length) :
    ∃ bound', referenceType declaration role found input bound
      = classRest declaration role true [name] found rest bound' := by
  obtain ⟨htake, hdrop⟩ := takeWhile_className hname hrest
  subst hinput
  obtain ⟨c, tail, rfl⟩ := List.exists_cons_of_ne_nil hne
  have hbound : rest.length ≤ start.length := by
    simp only [List.length_cons, List.length_append] at bound
    omega
  refine ⟨hbound, ?_⟩
  rw [referenceType, htake]
  simp only [hdrop]

theorem classRest_innerName {name rest input : List Char} {mayHaveArguments : Bool}
    {parts : List (List Char)} (hne : name ≠ [])
    (hname : ∀ c ∈ name, endsClassName c = false) (hrest : AfterName rest)
    (hinput : input = '.' :: (name ++ rest)) (bound : input.length ≤ start.length) :
    ∃ bound', classRest declaration role mayHaveArguments parts found input bound
      = classRest declaration role true (name :: parts) found rest bound' := by
  obtain ⟨htake, hdrop⟩ := takeWhile_className hname hrest
  subst hinput
  obtain ⟨c, tail, rfl⟩ := List.exists_cons_of_ne_nil hne
  have hbound : rest.length ≤ start.length := by
    simp only [List.length_cons, List.length_append] at bound
    omega
  refine ⟨hbound, ?_⟩
  rw [classRest, htake]
  simp only [hdrop]

theorem classRest_arguments {arguments rest input : List Char} {parts : List (List Char)}
    {named : List SignatureType}
    (harguments : Reads arguments named (typeArguments declaration))
    (hinput : input = '<' :: (arguments ++ rest)) (bound : input.length ≤ start.length) :
    ∃ bound', classRest declaration role true parts found input bound
      = classRest declaration role false parts (named.reverse ++ found) rest bound' := by
  subst hinput
  obtain ⟨short, hread⟩ := harguments found _ _ rest (Nat.le_refl _) rfl
  have hbound : rest.length ≤ start.length := by
    simp only [List.length_cons] at bound
    omega
  refine ⟨hbound, ?_⟩
  rw [classRest, if_pos rfl, hread]
  rfl

/-- The names of a class and of the inner classes that lead to it, the innermost first. -/
def ClassType.parts : ClassType → List (List Char)
  | .outer packages name _ =>
      [packages.flatMap (fun package => package.text ++ ['/']) ++ name.text]
  | .inner enclosing name _ => name.text :: enclosing.parts

theorem ClassType.parts_ne_nil (type : ClassType) : type.parts ≠ [] := by
  cases type <;> simp [ClassType.parts]

theorem endsClassName_identifier (name : Identifier) :
    ∀ c ∈ name.text, endsClassName c = false := by
  intro c hc
  have hbracket : c ≠ '<' := name.ne_of_mem (by decide) hc
  have hsemicolon : c ≠ ';' := name.ne_of_mem (by decide) hc
  have hdot : c ≠ '.' := name.ne_of_mem (by decide) hc
  simp [endsClassName, hbracket, hsemicolon, hdot]

theorem endsClassName_packages (packages : List Identifier) (name : Identifier) :
    ∀ c ∈ packages.flatMap (fun package => package.text ++ ['/']) ++ name.text,
      endsClassName c = false := by
  intro c hc
  rcases List.mem_append.mp hc with hpackage | hname
  · obtain ⟨package, -, hc⟩ := List.mem_flatMap.mp hpackage
    rcases List.mem_append.mp hc with hc | hc
    · exact endsClassName_identifier package c hc
    · rw [List.mem_singleton.mp hc]
      decide
  · exact endsClassName_identifier name c hname

theorem map_qualifiedChar_identifier (name : Identifier) :
    name.text.map qualifiedChar = name.text := by
  have hsame : ∀ c ∈ name.text, qualifiedChar c = id c := by
    intro c hc
    exact if_neg (name.ne_of_mem (by decide) hc)
  rw [List.map_congr_left hsame, List.map_id]

theorem intercalate_concat {α : Type} (mark : List α) {parts : List (List α)}
    (hparts : parts ≠ []) (last : List α) :
    mark.intercalate (parts ++ [last]) = mark.intercalate parts ++ mark ++ last := by
  induction parts with
  | nil => exact absurd rfl hparts
  | cons first others ih =>
      cases others with
      | nil => simp
      | cons second others =>
          have hrest := ih (by simp)
          rw [List.cons_append] at hrest
          rw [List.cons_append, List.cons_append, List.intercalate_cons_cons, hrest,
            List.intercalate_cons_cons]
          simp only [List.append_assoc]

theorem ClassType.map_qualifiedChar_parts : (type : ClassType) →
    (List.intercalate ['$'] type.parts.reverse).map qualifiedChar = type.name
  | .outer packages name _ => by
      have hpackages : (packages.flatMap (fun package => package.text ++ ['/'])).map
          qualifiedChar = packages.flatMap (fun package => package.text ++ ['.']) := by
        rw [List.map_flatMap]
        congr 1
        funext package
        rw [List.map_append, map_qualifiedChar_identifier]
        rfl
      simp only [ClassType.parts, List.reverse_singleton, List.intercalate_singleton,
        List.map_append, hpackages, map_qualifiedChar_identifier, ClassType.name]
  | .inner enclosing name _ => by
      have henclosing := enclosing.map_qualifiedChar_parts
      rw [ClassType.parts, List.reverse_cons,
        intercalate_concat _ (by simp [enclosing.parts_ne_nil]), List.map_append,
        List.map_append, henclosing, map_qualifiedChar_identifier, ClassType.name]
      simp [qualifiedChar]

/-- Joining the parts of a class name gives its qualified name. -/
theorem ClassType.className_parts (type : ClassType) :
    className type.parts = String.ofList type.name := by
  rw [← String.toList_inj, className, qualifiedName, String.toList_map, String.toList_ofList,
    type.map_qualifiedChar_parts, String.toList_ofList]

theorem ClassType.body_eq_cons : (type : ClassType) → ∃ tail, type.body = 'L' :: tail
  | .outer _ _ _ => ⟨_, rfl⟩
  | .inner enclosing _ _ => by
      obtain ⟨tail, htail⟩ := enclosing.body_eq_cons
      rw [ClassType.body, htail]
      exact ⟨_, rfl⟩

theorem ReferenceType.text_eq_cons (type : ReferenceType) :
    ∃ c tail, type.text = c :: tail ∧ c ∈ ['L', 'T', '['] := by
  cases type with
  | classType type =>
      obtain ⟨tail, htail⟩ := type.body_eq_cons
      rw [ReferenceType.text, htail]
      exact ⟨'L', _, rfl, by decide⟩
  | typeVariable name => exact ⟨'T', _, rfl, by decide⟩
  | array element => exact ⟨'[', _, rfl, by decide⟩

theorem JavaType.text_eq_cons (type : JavaType) :
    ∃ c tail, type.text = c :: tail ∧ c ∈ ['L', 'T', '['] ++ primitiveLetters := by
  cases type with
  | primitive type =>
      exact ⟨type.letter, [], rfl, List.mem_append_right _ type.letter_mem⟩
  | reference type =>
      obtain ⟨c, tail, htext, hc⟩ := type.text_eq_cons
      exact ⟨c, tail, htext, List.mem_append_left _ hc⟩

/-- Reading one type argument, bounded or not. -/
theorem typeArguments_type {type : ReferenceType} {named : List SignatureType}
    (htype : Reads type.text named (referenceType declaration declaration))
    {mark : List Char} (hmark : mark = [] ∨ mark = ['+'] ∨ mark = ['-'])
    {input rest : List Char} (hinput : input = mark ++ type.text ++ rest)
    (bound : input.length ≤ start.length) :
    ∃ bound', typeArguments declaration found input bound
      = typeArguments declaration (named.reverse ++ found) rest bound' := by
  obtain ⟨d, tail, htext, hd⟩ := type.text_eq_cons
  have hunmarked : withoutMark input = type.text ++ rest := by
    rw [hinput, htext]
    rcases hmark with rfl | rfl | rfl
    · simp only [List.mem_cons, List.not_mem_nil, or_false] at hd
      rcases hd with rfl | rfl | rfl <;> rfl
    · rfl
    · rfl
  obtain ⟨c, more, hcons, hclose, hany⟩ :
      ∃ c more, input = c :: more ∧ c ≠ '>' ∧ c ≠ '*' := by
    rw [hinput, htext]
    rcases hmark with rfl | rfl | rfl
    · refine ⟨d, tail ++ rest, rfl, ?_⟩
      simp only [List.mem_cons, List.not_mem_nil, or_false] at hd
      rcases hd with rfl | rfl | rfl <;> decide
    · exact ⟨'+', _, rfl, by decide⟩
    · exact ⟨'-', _, rfl, by decide⟩
  have hbound : rest.length ≤ start.length := by
    rw [hinput] at bound
    simp only [List.length_append] at bound
    omega
  subst hcons
  obtain ⟨short, hread⟩ := htype found (c :: more) _ rest
    (withoutMark_length_le (c :: more)) hunmarked
  refine ⟨hbound, ?_⟩
  rw [typeArguments, if_neg hclose, if_neg hany, hread]
  rfl

/-- Type arguments are read up to what follows their closing bracket, if there are any. -/
theorem classRest_typeArguments {arguments : TypeArguments}
    (harguments : Reads (arguments.items ++ ['>']) (arguments.named declaration)
      (typeArguments declaration))
    {parts : List (List Char)} {input rest : List Char} (hinput : input = arguments.text ++ rest)
    (bound : input.length ≤ start.length) :
    ∃ mayHaveArguments bound', classRest declaration role true parts found input bound
      = classRest declaration role mayHaveArguments parts
          ((arguments.named declaration).reverse ++ found) rest bound' := by
  cases arguments with
  | none =>
      subst hinput
      exact ⟨true, bound, rfl⟩
  | cons first others =>
      refine ⟨false, classRest_arguments harguments ?_ bound⟩
      simp [hinput, TypeArguments.text, TypeArguments.items]

theorem TypeArguments.afterName (arguments : TypeArguments) {rest : List Char}
    (hrest : AfterName rest) : AfterName (arguments.text ++ rest) := by
  cases arguments with
  | none => exact hrest
  | cons first others => exact ⟨'<', _, rfl, by decide⟩

/-- Reading a class type leads to what follows its last name or its arguments. -/
def ClassType.ReadsBody (declaration role : ReferenceKind) (type : ClassType) : Prop :=
  ∀ (found : List SignatureType) (start input rest : List Char)
    (bound : input.length ≤ start.length), AfterName rest → input = type.body ++ rest →
    ∃ mayHaveArguments bound', referenceType declaration role found input bound
      = classRest declaration role mayHaveArguments type.parts
          ((type.inArguments declaration).reverse ++ found) rest bound'

mutual

theorem ClassType.readsBody (declaration role : ReferenceKind) :
    (type : ClassType) → type.ReadsBody declaration role
  | .outer packages name arguments => by
      have harguments := arguments.reads declaration
      intro found start input rest bound hrest hinput
      obtain ⟨bound', hname⟩ := referenceType_className
        (by simp [name.nonempty]) (endsClassName_packages packages name)
        (arguments.afterName hrest) (by simp [hinput, ClassType.body]) bound
      rw [hname]
      exact classRest_typeArguments harguments rfl bound'
  | .inner enclosing name arguments => by
      have henclosing := enclosing.readsBody declaration role
      have harguments := arguments.reads declaration
      intro found start input rest bound hrest hinput
      obtain ⟨_, bound', houter⟩ := henclosing found start input
        ('.' :: (name.text ++ (arguments.text ++ rest))) bound ⟨'.', _, rfl, by decide⟩
        (by simp [hinput, ClassType.body])
      obtain ⟨bound'', hname⟩ := classRest_innerName name.nonempty
        (endsClassName_identifier name) (arguments.afterName hrest) rfl bound'
      obtain ⟨may, last, hread⟩ := classRest_typeArguments harguments rfl bound''
      rw [houter, hname]
      refine ⟨may, last, ?_⟩
      rw [hread, ClassType.inArguments, List.reverse_append, List.append_assoc]
      rfl

theorem TypeArguments.reads (declaration : ReferenceKind) : (arguments : TypeArguments) →
    Reads (arguments.items ++ ['>']) (arguments.named declaration) (typeArguments declaration)
  | .none => by
      intro found start input rest bound hinput
      subst hinput
      have hshort : rest.length < start.length := by
        simp only [TypeArguments.items, List.length_append, List.length_singleton] at bound
        omega
      refine ⟨hshort, ?_⟩
      simp [TypeArguments.items, TypeArguments.named, typeArguments]
  | .cons first others => by
      have hfirst := first.reads declaration
      have hothers := others.reads declaration
      intro found start input rest bound hinput
      obtain ⟨bound', hread⟩ := hfirst found start input (others.items ++ ['>'] ++ rest) bound
        (by simp [hinput, TypeArguments.items])
      obtain ⟨short, hrest⟩ := hothers _ start _ rest bound' rfl
      refine ⟨short, ?_⟩
      rw [hread, hrest, TypeArguments.named]
      simp

theorem TypeArgument.reads (declaration : ReferenceKind) : (argument : TypeArgument) →
    ∀ (found : List SignatureType) (start input rest : List Char)
      (bound : input.length ≤ start.length), input = argument.text ++ rest →
      ∃ bound', typeArguments declaration found input bound
        = typeArguments declaration ((argument.named declaration).reverse ++ found)
            rest bound'
  | .any => by
      intro found start input rest bound hinput
      subst hinput
      have hbound : rest.length ≤ start.length := by
        simp only [TypeArgument.text, List.length_append] at bound
        omega
      refine ⟨hbound, ?_⟩
      simp [TypeArgument.text, TypeArgument.named, typeArguments]
  | .bounded wildcard type => by
      have htype := type.reads declaration declaration
      intro found start input rest bound hinput
      cases wildcard
      · exact typeArguments_type htype (.inr (.inl rfl)) hinput bound
      · exact typeArguments_type htype (.inr (.inr rfl)) hinput bound
  | .exact type => by
      have htype := type.reads declaration declaration
      intro found start input rest bound hinput
      exact typeArguments_type htype (.inl rfl) hinput bound

theorem ReferenceType.reads (declaration role : ReferenceKind) : (type : ReferenceType) →
    Reads type.text (type.named declaration role) (referenceType declaration role)
  | .classType type => by
      have hbody := type.readsBody declaration role
      intro found start input rest bound hinput
      obtain ⟨_, bound', hread⟩ := hbody found start input (';' :: rest) bound
        ⟨';', rest, rfl, by decide⟩ (by simp [hinput, ReferenceType.text])
      have hshort : rest.length < start.length := by
        simp only [List.length_cons] at bound'
        omega
      refine ⟨hshort, ?_⟩
      rw [hread, classRest, type.className_parts, ReferenceType.named]
      simp
  | .typeVariable name => by
      intro found start input rest bound hinput
      subst hinput
      have hmark : ';' ∈ reserved := by decide
      have hfollow : name.text ++ [';'] ++ rest = name.text ++ ';' :: rest := by simp
      obtain ⟨_, hname⟩ := identifier_word name hmark rest hfollow
      have hshort : rest.length < start.length := by
        simp only [ReferenceType.text, List.length_append, List.length_cons] at bound
        omega
      refine ⟨hshort, ?_⟩
      simp only [ReferenceType.text, List.cons_append, referenceType]
      exact bind_of_eq_ok hname
  | .array element => by
      have helement := element.reads declaration role
      intro found start input rest bound hinput
      subst hinput
      simp only [ReferenceType.text, List.cons_append, referenceType]
      exact helement found start _ rest _ rfl

theorem JavaType.reads (declaration role : ReferenceKind) : (type : JavaType) →
    Reads type.text (type.named declaration role) (javaType declaration role)
  | .primitive type => by
      intro found start input rest bound hinput
      subst hinput
      have hshort : rest.length < start.length := by
        simp only [JavaType.text, List.length_append, List.length_singleton] at bound
        omega
      refine ⟨hshort, ?_⟩
      simp [JavaType.text, JavaType.named, javaType, type.letter_mem]
  | .reference type => by
      have htype := type.reads declaration role
      intro found start input rest bound hinput
      obtain ⟨short, hread⟩ := htype found start input rest bound hinput
      refine ⟨short, ?_⟩
      rw [JavaType.named, ← hread]
      obtain ⟨c, tail, htext, hc⟩ := type.text_eq_cons
      have hletter : c ∉ primitiveLetters := by
        simp only [List.mem_cons, List.not_mem_nil, or_false] at hc
        rcases hc with rfl | rfl | rfl <;> decide
      have hcons : input = c :: (tail ++ rest) := by
        rw [hinput, JavaType.text, htext, List.cons_append]
      subst hcons
      rw [javaType, if_neg hletter]

end

theorem NamedType.reads (declaration role : ReferenceKind) (type : NamedType) :
    Reads type.text (type.named declaration role) (referenceType declaration role) :=
  type.type.reads declaration role

theorem classType_reads (declaration role : ReferenceKind) (found : List SignatureType)
    (type : ClassType) {input : List Char} (rest : List Char)
    (hinput : input = type.text ++ rest) :
    ∃ short, classType declaration role found input
      = .ok ⟨(type.named declaration role).reverse ++ found, rest, short⟩ := by
  obtain ⟨short, hread⟩ := (ReferenceType.classType type).reads declaration role found input
    input rest (Nat.le_refl _) hinput
  refine ⟨short, ?_⟩
  rw [ClassType.named, ← hread]
  obtain ⟨tail, htail⟩ := type.body_eq_cons
  have hcons : input = 'L' :: (tail ++ ';' :: rest) := by
    simp [hinput, ClassType.text, ReferenceType.text, htail]
  subst hcons
  rfl

theorem superInterfaces_reads (declaration role : ReferenceKind) (types : List ClassType)
    (found : List SignatureType) {input : List Char}
    (hinput : input = types.flatMap ClassType.text) :
    superInterfaces declaration role found input
      = .ok ((types.flatMap (ClassType.named declaration role)).reverse ++ found) := by
  induction types generalizing found input with
  | nil =>
      rw [hinput, List.flatMap_nil, superInterfaces]
      rfl
  | cons first others ih =>
      rw [List.flatMap_cons] at hinput
      obtain ⟨short, hread⟩ := classType_reads declaration role found first _ hinput
      obtain ⟨c, tail, htext, _⟩ := (ReferenceType.classType first).text_eq_cons
      have hcons : input = c :: (tail ++ others.flatMap ClassType.text) := by
        rw [hinput, ClassType.text, htext, List.cons_append]
      subst hcons
      rw [superInterfaces, hread]
      refine (ih _ rfl).trans ?_
      rw [List.flatMap_cons, List.reverse_append, List.append_assoc]

/-- The characters at which the look-ahead for the name of a type parameter stops. -/
def stopsLookAhead (c : Char) : Bool :=
  c = ':' || c = ';' || c = '<' || c = '/' || c = '>'

theorem atTypeParameter_iff (input : List Char) :
    atTypeParameter input = true ↔ input.find? stopsLookAhead = some ':' := by
  unfold atTypeParameter stopsLookAhead
  split <;> simp_all

/-- A text in which another character stops the look-ahead before a colon does. -/
def NoColonFirst (text : List Char) : Prop :=
  text.find? stopsLookAhead ≠ some ':'

theorem NoColonFirst.append {left right : List Char} (hleft : NoColonFirst left)
    (hright : NoColonFirst right) : NoColonFirst (left ++ right) := by
  unfold NoColonFirst at *
  rw [List.find?_append]
  cases hfound : left.find? stopsLookAhead with
  | none => simpa using hright
  | some c => simpa [hfound] using hleft

theorem NoColonFirst.flatMap {α : Type} {text : α → List Char}
    (htext : ∀ item, NoColonFirst (text item)) (items : List α) :
    NoColonFirst (items.flatMap text) := by
  induction items with
  | nil => simp [NoColonFirst]
  | cons item others ih =>
      rw [List.flatMap_cons]
      exact (htext item).append ih

theorem find?_identifier (name : Identifier) : name.text.find? stopsLookAhead = none := by
  rw [List.find?_eq_none]
  intro c hc
  have hcolon : c ≠ ':' := name.ne_of_mem (by decide) hc
  have hsemicolon : c ≠ ';' := name.ne_of_mem (by decide) hc
  have hopen : c ≠ '<' := name.ne_of_mem (by decide) hc
  have hslash : c ≠ '/' := name.ne_of_mem (by decide) hc
  have hclose : c ≠ '>' := name.ne_of_mem (by decide) hc
  simp [stopsLookAhead, hcolon, hsemicolon, hopen, hslash, hclose]

theorem noColonFirst_identifier (name : Identifier) : NoColonFirst name.text := by
  simp [NoColonFirst, find?_identifier]

theorem noColonFirst_char {c : Char} (hc : c ≠ ':') : NoColonFirst [c] := by
  simp [NoColonFirst, List.find?_singleton, hc]

theorem TypeArguments.noColonFirst (arguments : TypeArguments) :
    NoColonFirst arguments.text := by
  cases arguments <;> simp [NoColonFirst, TypeArguments.text, stopsLookAhead]

theorem ClassType.noColonFirst : (type : ClassType) → NoColonFirst type.body
  | .outer packages name arguments => by
      have hpackages : NoColonFirst (packages.flatMap (fun package => package.text ++ ['/'])) :=
        NoColonFirst.flatMap (fun package =>
          (noColonFirst_identifier package).append (noColonFirst_char (by decide))) packages
      exact (((noColonFirst_char (c := 'L') (by decide)).append hpackages).append
        (noColonFirst_identifier name)).append arguments.noColonFirst
  | .inner enclosing name arguments => by
      have hname : NoColonFirst ('.' :: name.text) :=
        (noColonFirst_char (c := '.') (by decide)).append (noColonFirst_identifier name)
      exact (enclosing.noColonFirst.append hname).append arguments.noColonFirst

theorem NamedType.noColonFirst (type : NamedType) : NoColonFirst type.text := by
  have hend : NoColonFirst [';'] := noColonFirst_char (by decide)
  cases type with
  | classType type => exact type.noColonFirst.append hend
  | typeVariable name =>
      exact ((noColonFirst_char (c := 'T') (by decide)).append
        (noColonFirst_identifier name)).append hend

theorem NamedType.semicolon_mem (type : NamedType) : ';' ∈ type.text := by
  cases type <;> simp [NamedType.text, NamedType.type, ReferenceType.text]

/-- A bound is not taken for the name of the next type parameter. -/
theorem lacksClassBound_type (type : NamedType) (rest : List Char) :
    lacksClassBound (type.text ++ rest) = false := by
  have hname : ¬ atTypeParameter (type.text ++ rest) = true := by
    rw [atTypeParameter_iff, List.find?_append]
    have hfirst := type.noColonFirst
    unfold NoColonFirst at hfirst
    cases hfound : type.text.find? stopsLookAhead with
    | none =>
        have hstop := List.find?_eq_none.mp hfound ';' type.semicolon_mem
        simp [stopsLookAhead] at hstop
    | some c => simpa [hfound] using hfirst
  obtain ⟨c, tail, htext, hc⟩ := type.type.text_eq_cons
  rw [NamedType.text, htext, List.cons_append] at hname ⊢
  simp only [List.mem_cons, List.not_mem_nil, or_false] at hc
  rcases hc with rfl | rfl | rfl <;> exact Bool.eq_false_iff.mpr hname

/-- What follows a type parameter is not taken for a bound of it. -/
theorem lacksClassBound_parameters (parameters : List TypeParameter) (rest : List Char) :
    lacksClassBound (parameters.flatMap TypeParameter.text ++ '>' :: rest) = true := by
  cases parameters with
  | nil => rfl
  | cons first others =>
      rw [List.flatMap_cons]
      unfold lacksClassBound
      split
      · rfl
      · rfl
      · rw [atTypeParameter_iff]
        simp [TypeParameter.text, find?_identifier, stopsLookAhead]

theorem head?_parameters (parameters : List TypeParameter) (rest : List Char) :
    (parameters.flatMap TypeParameter.text ++ '>' :: rest).head? ≠ some ':' := by
  cases parameters with
  | nil => simp
  | cons first others =>
      obtain ⟨c, tail, htext, hc⟩ := first.name.eq_cons
      have hcolon : c ≠ ':' := by
        rintro rfl
        exact hc (by decide)
      simpa [TypeParameter.text, htext] using hcolon

theorem interfaceBounds_reads (declaration : ReferenceKind) (types : List NamedType)
    (found : List SignatureType) {input rest : List Char} (hrest : rest.head? ≠ some ':')
    (hinput : input = types.flatMap (fun bound => ':' :: bound.text) ++ rest)
    (bound : input.length < start.length) :
    ∃ short, interfaceBounds declaration found input bound
      = .ok ⟨(types.flatMap (NamedType.named declaration declaration)).reverse
          ++ found, rest, short⟩ := by
  induction types generalizing found input with
  | nil =>
      rw [List.flatMap_nil, List.nil_append] at hinput
      subst hinput
      refine ⟨bound, ?_⟩
      cases input with
      | nil => rw [interfaceBounds, List.flatMap_nil, List.reverse_nil, List.nil_append]
      | cons c more =>
          have hcolon : c ≠ ':' := by simpa using hrest
          rw [interfaceBounds, if_neg hcolon, List.flatMap_nil, List.reverse_nil,
            List.nil_append]
  | cons first others ih =>
      rw [List.flatMap_cons, List.cons_append, List.cons_append, List.append_assoc] at hinput
      subst hinput
      obtain ⟨_, hread⟩ := first.reads declaration declaration found _ _ _ (Nat.le_refl _) rfl
      have hbound : (others.flatMap (fun bound => ':' :: bound.text) ++ rest).length
          < start.length := by
        simp only [List.length_cons, List.length_append] at bound ⊢
        omega
      obtain ⟨short, hothers⟩ := ih _ rfl hbound
      refine ⟨short, ?_⟩
      rw [interfaceBounds, if_pos rfl, hread]
      refine hothers.trans ?_
      rw [List.flatMap_cons, List.reverse_append, List.append_assoc]

theorem classBound_reads (declaration : ReferenceKind) (found : List SignatureType)
    (parameter : TypeParameter) {input rest : List Char} (hrest : lacksClassBound rest = true)
    (hinput : input = parameter.classBoundText ++ (parameter.interfaceBoundsText ++ rest))
    (bound : input.length < start.length) :
    ∃ short, classBound declaration found input bound
      = .ok ⟨(parameter.classBound.toList.flatMap
            (NamedType.named declaration declaration)).reverse ++ found,
          parameter.interfaceBoundsText ++ rest, short⟩ := by
  rw [TypeParameter.classBoundText] at hinput
  cases hclass : parameter.classBound with
  | none =>
      rw [hclass, Option.toList_none, List.flatMap_nil, List.nil_append] at hinput
      have hlacks : lacksClassBound input = true := by
        rw [hinput, TypeParameter.interfaceBoundsText]
        cases parameter.interfaceBounds with
        | nil => exact hrest
        | cons first others => rfl
      subst hinput
      refine ⟨bound, ?_⟩
      rw [classBound, if_pos hlacks]
      rfl
  | some type =>
      rw [hclass, Option.toList_some, List.flatMap_singleton] at hinput
      have hpresent : ¬ lacksClassBound input = true := by
        rw [hinput, lacksClassBound_type]
        decide
      obtain ⟨short, hread⟩ := type.reads declaration declaration found start input _
        (Nat.le_of_lt bound) hinput
      refine ⟨short, ?_⟩
      rw [classBound, if_neg hpresent, hread, Option.toList_some, List.flatMap_singleton]

theorem typeParameterList_reads (declaration : ReferenceKind) (parameters : List TypeParameter) :
    Reads (parameters.flatMap TypeParameter.text ++ ['>'])
      (parameters.flatMap (TypeParameter.named declaration))
      (typeParameterList declaration) := by
  induction parameters with
  | nil =>
      intro found start input rest bound hinput
      subst hinput
      have hshort : rest.length < start.length := by
        simp only [List.length_append, List.length_singleton] at bound
        omega
      refine ⟨hshort, ?_⟩
      simp [typeParameterList]
  | cons first others ih =>
      intro found start input rest bound hinput
      obtain ⟨c, tail, htext, hc⟩ := first.name.eq_cons
      have hclose : c ≠ '>' := by
        rintro rfl
        exact hc (by decide)
      have hfollow : input = first.name.text ++ ':' :: (first.classBoundText ++
          (first.interfaceBoundsText ++ (others.flatMap TypeParameter.text ++ '>' :: rest))) := by
        simp [hinput, TypeParameter.text]
      have hmark : ':' ∈ reserved := by decide
      obtain ⟨hafter, hname⟩ := identifier_word first.name hmark _ hfollow
      obtain ⟨hbounds, hclass⟩ := classBound_reads declaration found first
        (lacksClassBound_parameters others rest) rfl hafter
      obtain ⟨hparameters, hinterfaces⟩ := interfaceBounds_reads declaration
        first.interfaceBounds
        ((first.classBound.toList.flatMap
          (NamedType.named declaration declaration)).reverse ++ found)
        (head?_parameters others rest) rfl hbounds
      have hlength : (others.flatMap TypeParameter.text ++ '>' :: rest).length
          ≤ start.length := by omega
      obtain ⟨short, hothers⟩ := ih ((first.named declaration).reverse ++ found) start _ rest
        hlength (by simp)
      have hnamed : (first.named declaration).reverse ++ found
          = (first.interfaceBounds.flatMap
              (NamedType.named declaration declaration)).reverse
            ++ ((first.classBound.toList.flatMap
              (NamedType.named declaration declaration)).reverse ++ found) := by
        simp [TypeParameter.named]
      rw [htext, List.cons_append] at hfollow
      subst hfollow
      refine ⟨short, ?_⟩
      rw [typeParameterList, if_neg hclose]
      refine (bind_of_eq_ok hname).trans ?_
      refine (bind_of_eq_ok hclass).trans ?_
      refine (bind_of_eq_ok hinterfaces).trans ?_
      rw [List.flatMap_cons, List.reverse_append, List.append_assoc, ← hothers, hnamed]

theorem typeParameters_reads (declaration : ReferenceKind) (parameters : List TypeParameter)
    (rest : List Char) (hrest : rest.head? ≠ some '<') :
    typeParameters declaration (parametersText parameters ++ rest)
      = .ok ((parameters.flatMap (TypeParameter.named declaration)).reverse, rest) := by
  cases parameters with
  | nil =>
      rw [parametersText, List.nil_append]
      unfold typeParameters
      split
      · simp at hrest
      · rfl
  | cons first others =>
      obtain ⟨short, hread⟩ := typeParameterList_reads declaration (first :: others) []
        _ _ rest (Nat.le_refl _) rfl
      have htext : parametersText (first :: others) ++ rest
          = '<' :: ((first :: others).flatMap TypeParameter.text ++ ['>'] ++ rest) := by
        simp [parametersText]
      rw [htext, typeParameters, hread, List.append_nil]
      rfl

theorem parameterTypes_reads (declaration : ReferenceKind) (types : List JavaType) :
    Reads (types.flatMap JavaType.text ++ [')'])
      (types.flatMap (JavaType.named declaration .parameter)) (parameterTypes declaration) := by
  induction types with
  | nil =>
      intro found start input rest bound hinput
      subst hinput
      have hshort : rest.length < start.length := by
        simp only [List.length_append, List.length_singleton] at bound
        omega
      refine ⟨hshort, ?_⟩
      simp [parameterTypes]
  | cons first others ih =>
      intro found start input rest bound hinput
      obtain ⟨c, tail, htext, hc⟩ := first.text_eq_cons
      have hclose : c ≠ ')' := by
        rintro rfl
        exact absurd hc (by decide)
      have hfollow : input = first.text ++ (others.flatMap JavaType.text ++ [')'] ++ rest) := by
        simp [hinput]
      obtain ⟨_, hread⟩ := first.reads declaration .parameter found input input _
        (Nat.le_refl _) hfollow
      have hcons : input = c :: (tail ++ (others.flatMap JavaType.text ++ [')'] ++ rest)) := by
        rw [hfollow, htext, List.cons_append]
      have hbound : (others.flatMap JavaType.text ++ [')'] ++ rest).length ≤ start.length := by
        rw [hfollow, List.length_append] at bound
        omega
      obtain ⟨short, hothers⟩ := ih ((first.named declaration .parameter).reverse ++ found)
        start _ rest hbound rfl
      refine ⟨short, ?_⟩
      subst hcons
      rw [parameterTypes, if_neg hclose, hread]
      refine hothers.trans ?_
      rw [List.flatMap_cons, List.reverse_append, List.append_assoc]

theorem resultType_reads (signature : MethodSignature) (declaration : ReferenceKind)
    (found : List SignatureType) {input : List Char} (rest : List Char)
    (hinput : input = signature.resultText ++ rest) :
    ∃ short, resultType declaration found input
      = .ok ⟨(signature.result.toList.flatMap
          (JavaType.named declaration .returnType)).reverse ++ found, rest, short⟩ := by
  rw [MethodSignature.resultText] at hinput
  cases hresult : signature.result with
  | none =>
      rw [hresult] at hinput
      subst hinput
      exact ⟨_, rfl⟩
  | some type =>
      rw [hresult] at hinput
      change input = type.text ++ rest at hinput
      obtain ⟨short, hread⟩ := type.reads declaration .returnType found input input rest
        (Nat.le_refl _) hinput
      refine ⟨short, ?_⟩
      rw [Option.toList_some, List.flatMap_singleton, ← hread]
      obtain ⟨c, tail, htext, hc⟩ := type.text_eq_cons
      have hvoid : c ≠ 'V' := by
        rintro rfl
        exact absurd hc (by decide)
      unfold resultType
      split
      · rw [htext] at hinput
        exact absurd (List.cons.inj hinput).1.symm hvoid
      · rfl

theorem thrownTypes_reads (declaration : ReferenceKind) (types : List NamedType)
    (found : List SignatureType) {input : List Char}
    (hinput : input = types.flatMap (fun type => '^' :: type.text)) :
    thrownTypes declaration found input
      = .ok ((types.flatMap (NamedType.named declaration .throws)).reverse ++ found,
          []) := by
  induction types generalizing found input with
  | nil =>
      rw [hinput, List.flatMap_nil, thrownTypes]
      · rfl
      · intro more hcaret
        simp at hcaret
  | cons first others ih =>
      rw [List.flatMap_cons, List.cons_append] at hinput
      subst hinput
      obtain ⟨_, hread⟩ := first.reads declaration .throws found _ _ _ (Nat.le_refl _) rfl
      rw [thrownTypes, hread]
      refine (ih _ rfl).trans ?_
      rw [List.flatMap_cons, List.reverse_append, List.append_assoc]

theorem classSignature_text (isInterface : Bool) (signature : ClassSignature) :
    classSignature isInterface signature.text = .ok (signature.named isInterface).reverse := by
  have hopen : (signature.superClass.text
      ++ signature.interfaces.flatMap ClassType.text).head? ≠ some '<' := by
    obtain ⟨tail, htail⟩ := signature.superClass.body_eq_cons
    simp [ClassType.text, ReferenceType.text, htail]
  have hparameters := typeParameters_reads .parameterizedType signature.parameters _ hopen
  rw [← List.append_assoc] at hparameters
  obtain ⟨_, hsuper⟩ := classType_reads .parameterizedType .extendsType
    (signature.parameters.flatMap (TypeParameter.named .parameterizedType)).reverse
    signature.superClass (signature.interfaces.flatMap ClassType.text) rfl
  rw [classSignature, SignatureOwner.declarationKind, ClassSignature.text, hparameters]
  simp only [bind, Except.bind, hsuper]
  cases isInterface with
  | true =>
      have hinterfaces := superInterfaces_reads .parameterizedType .extendsType
        signature.interfaces
        (signature.parameters.flatMap (TypeParameter.named .parameterizedType)).reverse rfl
      simpa [ClassSignature.named] using hinterfaces
  | false =>
      have hinterfaces := superInterfaces_reads .parameterizedType .implementsType
        signature.interfaces
        ((signature.superClass.named .parameterizedType .extendsType).reverse ++
          (signature.parameters.flatMap (TypeParameter.named .parameterizedType)).reverse) rfl
      simpa [ClassSignature.named] using hinterfaces

theorem methodSignature_text (signature : MethodSignature) :
    methodSignature signature.text = .ok signature.named.reverse := by
  have hparameters := typeParameters_reads .parameterizedMethod signature.formal
    ('(' :: (signature.parameters.flatMap JavaType.text ++ [')'] ++
      (signature.resultText ++ signature.thrown.flatMap (fun type => '^' :: type.text))))
    (by simp)
  obtain ⟨_, htypes⟩ := parameterTypes_reads .parameterizedMethod signature.parameters
    (signature.formal.flatMap (TypeParameter.named .parameterizedMethod)).reverse _ _
    (signature.resultText ++ signature.thrown.flatMap (fun type => '^' :: type.text))
    (Nat.le_refl _) rfl
  obtain ⟨_, hresult⟩ := resultType_reads signature .parameterizedMethod
    ((signature.parameters.flatMap (JavaType.named .parameterizedMethod .parameter)).reverse ++
      (signature.formal.flatMap (TypeParameter.named .parameterizedMethod)).reverse)
    (signature.thrown.flatMap (fun type => '^' :: type.text)) rfl
  have hthrown := thrownTypes_reads .parameterizedMethod signature.thrown
    ((signature.result.toList.flatMap
        (JavaType.named .parameterizedMethod .returnType)).reverse ++
      ((signature.parameters.flatMap (JavaType.named .parameterizedMethod .parameter)).reverse ++
        (signature.formal.flatMap (TypeParameter.named .parameterizedMethod)).reverse)) rfl
  have htext : signature.text = parametersText signature.formal ++
      '(' :: (signature.parameters.flatMap JavaType.text ++ [')'] ++ (signature.resultText ++
        signature.thrown.flatMap (fun type => '^' :: type.text))) := by
    simp [MethodSignature.text]
  rw [methodSignature, SignatureOwner.declarationKind, htext]
  refine (bind_of_eq_ok hparameters).trans ?_
  refine (bind_of_eq_ok rfl).trans ?_
  refine (bind_of_eq_ok htypes).trans ?_
  refine (bind_of_eq_ok hresult).trans ?_
  refine (bind_of_eq_ok hthrown).trans ?_
  simp [MethodSignature.named, atEnd]

theorem variableSignature_text (declaration : ReferenceKind) (type : ReferenceType) :
    variableSignature declaration type.text
      = .ok (type.named declaration declaration).reverse := by
  obtain ⟨_, hread⟩ := type.reads declaration declaration [] _ _ [] (Nat.le_refl _)
    (List.append_nil _).symm
  rw [variableSignature, hread, List.append_nil]
  rfl

/-- Reading ends with the classes of the signature, the last first. -/
theorem destructure_eq_map_reverse (signature : Declared) :
    destructure signature.owner signature.text
      = List.reverse <$> Except.ok signature.named.reverse := by
  unfold destructure
  cases signature with
  | ofType isInterface signature =>
      simp only [Declared.owner, Declared.text, String.toList_ofList, classSignature_text]
      rfl
  | ofMethod signature =>
      simp only [Declared.owner, Declared.text, String.toList_ofList, methodSignature_text]
      rfl
  | ofField type =>
      simp only [Declared.owner, Declared.text, String.toList_ofList, variableSignature_text]
      rfl
  | ofLocalVariable type =>
      simp only [Declared.owner, Declared.text, String.toList_ofList, variableSignature_text]
      rfl

/-- A signature is split into exactly the classes that it names, each with its role. -/
theorem destructure_text (signature : Declared) :
    destructure signature.owner signature.text = .ok signature.named := by
  rw [destructure_eq_map_reverse]
  simp [Functor.map, Except.map]

end Signature

end Linkage
