import Linkage.Proofs.SignatureAgreement
/-
Reading a signature ends.  What is left of the declarations is read by bytes as it is read by
characters; so the bytes of a text give the classes that `destructure` finds, or its error.
Every input, a text or not, is read to its end or refused.
-/

namespace Linkage

namespace Signature

/-- Two outcomes that leave the same text or fail alike, whatever they found. -/
def LeaveSame {start : List Char} (left right : Outcome start) : Prop :=
  left.map Reading.rest = right.map Reading.rest

/-- What follows goes on with the same text. -/
theorem LeaveSame.bind {start middle : List Char} {left right : Outcome middle}
    {next other : Reading middle → Outcome start} (h : LeaveSame left right)
    (hnext : ∀ first found, LeaveSame (next first) (other ⟨found, first.rest, first.short⟩)) :
    LeaveSame (left >>= next) (right >>= other) := by
  cases left <;> cases right
  case error.error => exact congrArg Except.error (Except.error.inj h)
  case error.ok => nomatch h
  case ok.error => nomatch h
  case ok.ok first second =>
    obtain ⟨found, rest, short⟩ := second
    obtain rfl : first.rest = rest := Except.ok.inj h
    exact hnext first found

/-- On texts shorter than a size, how far a reader of types gets does not depend on the classes
found before. -/
structure LeavesBelow (declaration : ReferenceKind) (size : Nat) : Prop where
  referenceType : ∀ {role found other start input bound}, input.length < size → LeaveSame
    (@Signature.referenceType declaration role found start input bound)
    (Signature.referenceType declaration role other input bound)
  javaType : ∀ {role found other start input bound}, input.length < size → LeaveSame
    (@Signature.javaType declaration role found start input bound)
    (Signature.javaType declaration role other input bound)
  classRest : ∀ {role mayHaveArguments parts found other start input bound}, input.length < size →
    LeaveSame (@Signature.classRest declaration role mayHaveArguments parts found start input bound)
      (Signature.classRest declaration role mayHaveArguments parts other input bound)
  typeArguments : ∀ {found other start input bound}, input.length < size → LeaveSame
    (@Signature.typeArguments declaration found start input bound)
    (Signature.typeArguments declaration other input bound)

namespace LeavesBelow

variable {declaration role : ReferenceKind} {found other : List SignatureType} {size : Nat}
  {start input : List Char} {bound : input.length ≤ start.length}

theorem referenceType_succ (below : LeavesBelow declaration size)
    (hinput : input.length < size + 1) :
    LeaveSame (Signature.referenceType declaration role found input bound)
      (Signature.referenceType declaration role other input bound) := by
  unfold Signature.referenceType
  split
  next => rfl
  next =>
    split
    next => rfl
    next => exact below.classRest (length_dropWhile_lt _ hinput)
  next rest bound => cases identifier ';' rest <;> rfl
  next => exact below.javaType (Nat.lt_of_succ_lt_succ hinput)
  next => rfl

theorem javaType_succ (below : LeavesBelow declaration size) (hinput : input.length < size + 1) :
    LeaveSame (Signature.javaType declaration role found input bound)
      (Signature.javaType declaration role other input bound) := by
  unfold Signature.javaType
  split
  next => rfl
  next =>
    split
    next => rfl
    next => exact below.referenceType_succ hinput

theorem classRest_succ (below : LeavesBelow declaration size) {mayHaveArguments : Bool}
    {parts : List (List Char)} (hinput : input.length < size + 1) :
    LeaveSame (Signature.classRest declaration role mayHaveArguments parts found input bound)
      (Signature.classRest declaration role mayHaveArguments parts other input bound) := by
  unfold Signature.classRest
  split
  next => rfl
  next => rfl
  next =>
    split
    next => rfl
    next => exact below.classRest (length_dropWhile_lt _ hinput)
  next rest bound =>
    have hrest : rest.length < size := Nat.lt_of_succ_lt_succ hinput
    split
    next =>
      exact (below.typeArguments hrest).bind fun arguments _ =>
        below.classRest (Nat.lt_trans arguments.short hrest)
    next => rfl
  next => rfl

theorem typeArguments_succ (below : LeavesBelow declaration size)
    (hinput : input.length < size + 1) :
    LeaveSame (Signature.typeArguments declaration found input bound)
      (Signature.typeArguments declaration other input bound) := by
  unfold Signature.typeArguments
  split
  next => rfl
  next c rest bound =>
    split
    next => rfl
    split
    next => exact below.typeArguments (Nat.lt_of_succ_lt_succ hinput)
    next =>
      have hmark := Nat.lt_of_le_of_lt (withoutMark_length_le (c :: rest)) hinput
      exact (below.referenceType_succ hmark).bind fun type _ =>
        below.typeArguments (Nat.lt_of_lt_of_le type.short (Nat.le_of_lt_succ hinput))

theorem of_size (declaration : ReferenceKind) : ∀ size, LeavesBelow declaration size
  | 0 => by constructor <;> intros <;> exact absurd ‹_ < 0› (Nat.not_lt_zero _)
  | size + 1 =>
      have below := of_size declaration size
      ⟨below.referenceType_succ, below.javaType_succ, below.classRest_succ,
        below.typeArguments_succ⟩

end LeavesBelow

theorem classType_leaves (declaration role : ReferenceKind) (found other : List SignatureType)
    (input : List Char) :
    LeaveSame (classType declaration role found input)
      (classType declaration role other input) := by
  unfold classType
  split
  · exact (LeavesBelow.of_size declaration _).referenceType (Nat.lt_succ_self _)
  · rfl
  · rfl

namespace ByteReader

variable {text : List Char} {declaration role : ReferenceKind} {found : List SignatureType}

theorem agrees_referenceType {start left : List Char} (bound : left.length ≤ start.length) :
    Agrees text (fun depth => (unrolled (textBytes text) declaration depth).referenceType role)
      (found, left) (Signature.referenceType declaration role found left bound) readingPlace :=
  (AgreesBelow.of_size text declaration _).referenceType (Nat.lt_succ_self left.length)

theorem agrees_javaType {start left : List Char} (bound : left.length ≤ start.length) :
    Agrees text (fun depth => (unrolled (textBytes text) declaration depth).javaType role)
      (found, left) (Signature.javaType declaration role found left bound) readingPlace :=
  (AgreesBelow.of_size text declaration _).javaType (Nat.lt_succ_self left.length)

theorem classType_agrees (left : List Char) :
    Agrees text (fun depth => (unrolled (textBytes text) declaration depth).classType role)
      (found, left) (Signature.classType declaration role found left) readingPlace := by
  unfold Signature.classType
  split
  next rest =>
    exact agrees_classType fun _ _ _ _ =>
      (AgreesBelow.of_size text declaration _).classRest true (List.cons_ne_nil _ _)
        (Nat.lt_succ_self _)
  next => exact .unroll (.last (Agrees.expect (by decide)))
  next c rest hc =>
    have hexpect : Agrees text _ (found, c :: rest) (Signature.expect 'L' (c :: rest)) _ :=
      Agrees.expect (by decide)
    rw [Signature.expect, if_neg fun h => hc h] at hexpect
    exact .unroll hexpect.last

theorem head?_ne_of_ne_cons {left : List Char} {mark : Char}
    (h : ∀ rest, left = mark :: rest → False) : left.head? ≠ some mark := fun hhead => by
  obtain ⟨rest, hrest⟩ := List.head?_eq_some_iff.mp hhead
  exact h rest hrest

theorem interfaceBounds_agrees {start : List Char} :
    ∀ found left (bound : left.length < start.length), Agrees text
      (fun depth => (unrolled (textBytes text) declaration depth).interfaceBounds)
      (found, left) (Signature.interfaceBounds declaration found left bound) readingPlace := by
  apply Signature.interfaceBounds.induct
  case case1 =>
    intro found bound _
    rw [Signature.interfaceBounds]
    exact .unroll (.peek (.ok text rfl))
  case case2 =>
    intro found rest bound _ ih
    rw [Signature.interfaceBounds, if_pos rfl]
    exact .unroll (.atMark (by decide) (.advance (by decide)
      ((agrees_referenceType (Nat.le_refl rest.length)).bind fun type _ => ih type)))
  case case3 =>
    intro found c rest bound hc _
    rw [Signature.interfaceBounds, if_neg hc]
    have hhead : (c :: rest).head? ≠ some ':' := by simpa using hc
    exact .unroll (.offMark (by decide) hhead (.ok text rfl))

theorem thrownTypes_agrees : ∀ found left, Agrees text
    (fun depth => (unrolled (textBytes text) declaration depth).thrownTypes)
    (found, left) (Signature.thrownTypes declaration found left) id := by
  apply Signature.thrownTypes.induct
  case case1 =>
    intro found rest ih
    rw [Signature.thrownTypes]
    exact .unroll (.atMark (by decide) (.advance (by decide)
      ((agrees_referenceType (Nat.le_refl rest.length)).bind fun type _ => ih type)))
  case case2 =>
    intro found left hleft
    have hhead := head?_ne_of_ne_cons hleft
    rw [Signature.thrownTypes]
    · exact .unroll (.offMark (by decide) hhead (.ok text rfl))
    · exact hleft

theorem superInterfaces_agrees : ∀ found left, Agrees text
    (fun depth => (unrolled (textBytes text) declaration depth).superInterfaces role)
    (found, left) (Signature.superInterfaces declaration role found left)
    (fun all => (all, [])) := by
  apply Signature.superInterfaces.induct
  case case1 =>
    intro found
    rw [Signature.superInterfaces]
    exact .unroll (.peek (.ok text rfl))
  case case2 =>
    intro found c rest ih
    rw [Signature.superInterfaces]
    exact .unroll (.peek ((classType_agrees (c :: rest)).bind fun type _ => ih type))

theorem parameterTypes_agrees {start : List Char} :
    ∀ found left (bound : left.length ≤ start.length), Agrees text
      (fun depth => do
        (unrolled (textBytes text) declaration depth).parameterTypes
        expect (textBytes text) ')')
      (found, left) (Signature.parameterTypes declaration found left bound) readingPlace := by
  apply Signature.parameterTypes.induct
  case case1 =>
    intro found bound _
    rw [Signature.parameterTypes]
    have hend : Agrees text
        (fun depth => (unrolled (textBytes text) declaration depth).javaType .parameter)
        (found, []) (.error .unexpectedEnd : Except SignatureError (Reading [])) readingPlace :=
      .unroll (.peek agrees_referenceType_nil)
    exact .again (by decide) (fun _ => rfl) (by simp) hend.last
  case case2 =>
    intro found rest bound _
    rw [Signature.parameterTypes, if_pos rfl]
    exact .closed (by decide) (fun _ => rfl) rfl
  case case3 =>
    intro found c rest bound hclose _ ih
    rw [Signature.parameterTypes, if_neg hclose]
    refine .again (by decide) (fun _ => rfl) (by simpa using hclose) ?_
    exact (agrees_javaType (Nat.le_refl _)).bind fun type _ => ih type

theorem find?_lookAhead (left : List Char) :
    ((textBytes left).find? endsLookAhead = some (byteOf ':') : Bool) =
      Signature.atTypeParameter left := by
  have hmarks : ∀ mark ∈ lookAheadMarks, mark.toNat < 0x80 := by simp [lookAheadMarks]
  have htest : (fun c => decide (c = ':') || decide (c = ';') || decide (c = '<') ||
      decide (c = '/') || decide (c = '>')) = fun c => decide (c ∈ lookAheadMarks) := by
    funext c
    simp [lookAheadMarks, Bool.or_assoc]
  have hfind : (textBytes left).find? endsLookAhead = _ := find?_textBytes hmarks left
  rw [Signature.atTypeParameter, htest, hfind]
  cases hmark : left.find? (· ∈ lookAheadMarks) with
  | none => rfl
  | some mark =>
      have hlt := hmarks mark (by simpa using List.find?_some hmark)
      have hcolon : firstByte mark = byteOf ':' ↔ mark = ':' := firstByte_eq_iff (by decide)
      rw [firstByte_of_lt hlt] at hcolon
      simp only [Option.map_some, Option.some.injEq, hcolon]
      split
      next h => simpa using h
      next h => simpa using h

/-- The look-ahead for the name of a type parameter, in a text. -/
theorem run_lookAhead {left : List Char} (h : left <:+ text) :
    atTypeParameter (textBytes text) (stateAt text (found, left)) =
      some (.ok (Signature.atTypeParameter left), stateAt text (found, left)) := by
  refine (run_atTypeParameter (offset_le_length h)).trans ?_
  rw [← find?_lookAhead, ← drop_offset h]
  rfl

theorem classBound_agrees {start left : List Char} (bound : left.length < start.length) :
    Agrees text (fun depth => classBound (textBytes text) declaration
        (unrolled (textBytes text) declaration depth))
      (found, left) (Signature.classBound declaration found left bound) readingPlace := by
  have hlook : Agrees text (fun depth => do
        if ← atTypeParameter (textBytes text) then pure ()
        else (unrolled (textBytes text) declaration depth).referenceType declaration)
      (found, left)
      (if Signature.atTypeParameter left then .ok ⟨found, left, bound⟩
        else Signature.referenceType declaration declaration found left (Nat.le_of_lt bound))
      readingPlace := by
    intro hplace
    refine .step (run_lookAhead hplace) ?_
    split
    · exact Agrees.ok text rfl hplace
    · exact agrees_referenceType (Nat.le_of_lt bound) hplace
  refine .peek ?_
  unfold Signature.classBound
  cases left with
  | nil => exact hlook
  | cons c rest =>
      by_cases hcolon : c = ':'
      · subst hcolon
        exact .ok text rfl
      by_cases hclose : c = '>'
      · subst hclose
        exact .ok text rfl
      rw [lacksClassBound]
      · simp (disch := decide) only [List.head?_cons, Option.map_some, firstByte_eq_iff, hcolon,
          hclose, or_self, if_false]
        exact hlook
      all_goals simpa

theorem typeParameterList_agrees {start : List Char} :
    ∀ found left (bound : left.length ≤ start.length), Agrees text
      (fun depth => do
        (unrolled (textBytes text) declaration depth).typeParameterList
        expect (textBytes text) '>')
      (found, left) (Signature.typeParameterList declaration found left bound) readingPlace := by
  apply Signature.typeParameterList.induct
  case case1 =>
    intro found bound _
    rw [Signature.typeParameterList]
    have hend : Agrees text (fun depth => typeParameter (textBytes text) declaration
        (unrolled (textBytes text) declaration depth)) (found, [])
        (Signature.identifier ':' [] >>= fun _ =>
          (.error (.emptyIdentifier []) : Except SignatureError (Reading []))) readingPlace :=
      .assoc ((Agrees.identifier ':' (by decide)).bind fun after _ =>
        absurd after.property (Nat.not_lt_zero _))
    exact .again (by decide) (fun _ => rfl) (by simp) (Agrees.last hend)
  case case2 =>
    intro found rest bound _
    rw [Signature.typeParameterList, if_pos rfl]
    exact .closed (by decide) (fun _ => rfl) rfl
  case case3 =>
    intro found c rest bound hclose _ ih
    rw [Signature.typeParameterList, if_neg hclose]
    refine .again (by decide) (fun _ => rfl) (by simpa using hclose) ?_
    simp only [typeParameter, bind_assoc]
    exact .assoc ((Agrees.identifier ':' (by decide)).bind fun after _ =>
      (classBound_agrees after.property).bind fun class_ _ =>
        (interfaceBounds_agrees _ _ class_.short).bind fun all _ => ih after all)

/-! Declarations. -/

theorem typeParameters_agrees (left : List Char) : Agrees text
    (fun depth => typeParameters (textBytes text) (unrolled (textBytes text) declaration depth))
    ([], left) (Signature.typeParameters declaration left) id := by
  unfold Signature.typeParameters
  split
  next rest =>
    exact .atMark (by decide) (.advance (by decide)
      ((typeParameterList_agrees [] rest (Nat.le_refl rest.length)).bind_pure _ fun _ => rfl))
  next hleft =>
    have hhead := head?_ne_of_ne_cons hleft
    exact (Agrees.notNext (by decide) hhead).bind_pure (fun _ => ([], left)) fun _ => rfl

/-- A class type that is dropped is read as far as one that is kept. -/
theorem dropping_agrees (left : List Char) : Agrees text
    (fun depth => dropping ((unrolled (textBytes text) declaration depth).classType role))
    (found, left) (Signature.classType declaration role found left)
    (fun superClass => (found, superClass.rest)) := by
  intro hplace
  -- By bytes nothing is known of the classes found before, by characters they are carried along.
  refine .step (rfl : (get : ByteReader ByteState) _ = some (.ok _, _)) ?_
  refine .step (rfl : (set (stateAt text ([], left)) : ByteReader PUnit) _ = some (.ok _, _)) ?_
  have hleaves := classType_leaves declaration role [] found left
  have hread := @classType_agrees text declaration role [] left hplace
  generalize Signature.classType declaration role [] left = first at hleaves hread
  generalize Signature.classType declaration role found left = second at hleaves
  refine hread.bind (fun _ final hfinal => ?_) fun fault final hfinal => ?_
  · cases first <;> cases second
    case ok.ok first second =>
      obtain ⟨hrest, _, rfl⟩ := hfinal
      obtain ⟨_, rest, _⟩ := second
      obtain rfl : first.rest = rest := Except.ok.inj hleaves
      exact .of_run rfl ⟨hrest, rfl, rfl⟩
    case ok.error => nomatch hleaves
    all_goals nomatch hfinal
  · cases first <;> cases second
    case error.error =>
      obtain rfl := Except.error.inj hleaves
      exact hfinal
    case error.ok => nomatch hleaves
    all_goals nomatch hfinal.2.1

theorem classSignature_agrees (isInterface : Bool) (left : List Char) : Agrees text
    (fun depth => classSignature (textBytes text)
      (unrolled (textBytes text) (SignatureOwner.declarationKind (.type isInterface)) depth)
      isInterface)
    ([], left) (Signature.classSignature isInterface left) (fun all => (all, [])) := by
  refine (typeParameters_agrees left).bind fun ⟨parameters, rest⟩ _ => ?_
  cases isInterface with
  | true => exact (dropping_agrees rest).bind fun superClass _ => superInterfaces_agrees _ _
  | false => exact (classType_agrees rest).bind fun superClass _ => superInterfaces_agrees _ _

theorem atEnd_agrees (left : List Char) : Agrees text (fun _ => atEnd (textBytes text))
    (found, left) (Signature.atEnd found left) (fun all => (all, [])) := by
  intro hplace
  have hlength : offset text left + _ = _ := offset_add_length hplace
  cases left with
  | nil =>
      refine .step (run_position _) ?_
      have hend : (stateAt text (found, [])).position = (textBytes text).length := hlength
      simp only [hend, ne_eq, not_true, if_false]
      exact .of_run rfl ⟨hplace, rfl, rfl⟩
  | cons c rest =>
      refine .step (run_position _) ?_
      obtain ⟨more, hmore⟩ := exists_textBytes_cons c rest
      have hend : (stateAt text (found, c :: rest)).position ≠ (textBytes text).length := by
        change offset text (c :: rest) ≠ _
        rw [hmore, List.length_cons] at hlength
        omega
      simp only [hend, ne_eq, not_false_eq_true, if_true]
      exact .of_run rfl rfl

theorem resultType_agrees (left : List Char) : Agrees text
    (fun depth => resultType (textBytes text) (unrolled (textBytes text) declaration depth))
    (found, left) (Signature.resultType declaration found left) readingPlace := by
  unfold Signature.resultType
  split
  next rest => exact .atMark (by decide) (.advanced (by decide) rfl)
  next hleft =>
    have hhead := head?_ne_of_ne_cons hleft
    exact .offMark (by decide) hhead (agrees_javaType (Nat.le_refl _))

/-- A method signature, whose whole text is read. -/
theorem methodSignature_agrees (left : List Char) : Agrees text
    (fun depth => do
      methodSignature (textBytes text)
        (unrolled (textBytes text) (SignatureOwner.declarationKind .method) depth)
      atEnd (textBytes text))
    ([], left) (Signature.methodSignature left) (fun all => (all, [])) := by
  simp only [methodSignature, bind_assoc]
  refine (typeParameters_agrees left).bind fun ⟨formal, rest⟩ _ => ?_
  refine (Agrees.expect (by decide)).bind fun ⟨opened, _⟩ _ => ?_
  exact .assoc ((parameterTypes_agrees formal opened (Nat.le_refl _)).bind fun parameters _ =>
    (resultType_agrees parameters.rest).bind fun result _ =>
      (thrownTypes_agrees result.found result.rest).bind fun ⟨found, rest⟩ _ => atEnd_agrees rest)

theorem variableSignature_agrees (left : List Char) : Agrees text
    (fun depth => do
      (unrolled (textBytes text) declaration depth).referenceType declaration
      atEnd (textBytes text))
    ([], left) (Signature.variableSignature declaration left) (fun all => (all, [])) :=
  (agrees_referenceType (Nat.le_refl _)).bind fun type _ => atEnd_agrees type.rest

/-- A class signature, whose whole text is read. -/
theorem classSignature_atEnd_agrees (isInterface : Bool) (left : List Char) : Agrees text
    (fun depth => do
      classSignature (textBytes text)
        (unrolled (textBytes text) (SignatureOwner.declarationKind (.type isInterface)) depth)
        isInterface
      atEnd (textBytes text))
    ([], left) (Signature.classSignature isInterface left) (fun all => (all, [])) := by
  have hall : Agrees text (fun depth => do
        classSignature (textBytes text)
          (unrolled (textBytes text) (SignatureOwner.declarationKind (.type isInterface)) depth)
          isInterface
        atEnd (textBytes text))
      ([], left) (Signature.classSignature isInterface left >>= pure) (fun all => (all, [])) :=
    (classSignature_agrees isInterface left).bind fun all _ => atEnd_agrees []
  rwa [bind_pure] at hall

/-- On the bytes of a text, reading does what reading its characters does. -/
theorem parsed_agrees (owner : SignatureOwner) (text : String) : Agrees text.toList
    (parsed (textBytes text.toList) owner) ([], text.toList) (destructure owner text)
    (fun all => (all.reverse, [])) := by
  have hview : ∀ all : List SignatureType, (all.reverse.reverse, ([] : List Char)) = (all, []) :=
    fun all => by rw [List.reverse_reverse]
  cases owner with
  | type isInterface => exact (classSignature_atEnd_agrees isInterface text.toList).map _ hview
  | method => exact (methodSignature_agrees text.toList).map _ hview
  | field => exact (variableSignature_agrees text.toList).map _ hview
  | localVariable => exact (variableSignature_agrees text.toList).map _ hview

theorem toUTF8_eq_textBytes (text : String) :
    text.toUTF8.data.toList = textBytes text.toList := by
  rw [String.toUTF8, ← String.utf8Encode_toList, List.utf8Encode, List.toList_data_toByteArray]
  rfl

/-- Reading a signature ends, for every input and declaration: no step and no slice goes beyond
the input, and a success has read all of it.  From every position of the input a type that is
read takes at least one byte.  On the bytes of a text, this reading is `destructure`. -/
theorem reading_ends :
    (∀ (input : List UInt8) (owner : SignatureOwner), ∃ outcome final,
      Settles (fun depth => parsed input owner depth {}) (outcome, final) ∧
      outcome ≠ .error .outOfRange ∧ final.position ≤ input.length ∧
      (outcome = .ok () → final.position = input.length)) ∧
    (∀ (input : List UInt8) (declaration role : ReferenceKind) (state : ByteState),
      state.position ≤ input.length →
      Ends (fun depth => (unrolled input declaration depth).javaType role) state
        (Within input 1 state) ∧
      Ends (fun depth => (unrolled input declaration depth).referenceType role) state
        (Within input 1 state) ∧
      Ends (fun depth => (unrolled input declaration depth).classType role) state
        (Within input 1 state)) ∧
    (∀ (owner : SignatureOwner) (text : String), ∃ outcome final,
      Settles (fun depth => parsed text.toUTF8.data.toList owner depth {}) (outcome, final) ∧
      match destructure owner text with
      | .ok types => outcome = .ok () ∧ final.types.reverse = types
      | .error error => ∃ fault, outcome = .error fault ∧
          fault.message = error.message text.toList) := by
  refine ⟨fun input owner => ?_, fun input declaration role state hstate => ?_,
    fun owner text => ?_⟩
  · obtain ⟨outcome, final, hsettles, hwithin, hwhole⟩ :=
      parsed_ends input owner {} (Nat.zero_le input.length)
    exact ⟨outcome, final, hsettles, hwithin.inRange, hwithin.bounded, hwhole⟩
  · have all := Bounded.of_size input declaration (input.length + 1)
    have hleft : input.length < state.position + (input.length + 1) := by omega
    exact ⟨all.javaType role state hstate hleft, all.referenceType role state hstate hleft,
      all.classType role state hstate hleft⟩
  · obtain ⟨outcome, final, hsettles, hsame⟩ := parsed_agrees owner text (List.suffix_refl _)
    have hstart : stateAt text.toList ([], text.toList) = {} := by
      rw [stateAt, offset, Nat.sub_self]
    rw [hstart, ← toUTF8_eq_textBytes] at hsettles
    refine ⟨outcome, final, hsettles, ?_⟩
    cases hresult : destructure owner text with
    | ok types =>
        rw [hresult] at hsame
        obtain ⟨_, rfl, rfl⟩ := hsame
        exact ⟨rfl, List.reverse_reverse types⟩
    | error error =>
        rw [hresult] at hsame
        exact ⟨faultOf text.toList error, hsame, message_faultOf text.toList error⟩

/-- The signature of a field is read to its end. -/
theorem reading_ends_fieldType : ∃ final,
    Settles (fun depth => parsed "Lb/B;".toUTF8.data.toList .field depth {}) (.ok (), final) ∧
      final.position = 5 ∧ final.types = [⟨"b.B", .parameterizedField⟩] ∧
      Ends (fun depth => (unrolled "Lb/B;".toUTF8.data.toList .parameterizedField depth).classType
          .parameterizedField) {}
        (Within "Lb/B;".toUTF8.data.toList 1 {}) := by
  obtain ⟨hends, hcalls, htexts⟩ := reading_ends
  obtain ⟨outcome, final, hsettles, _, _, hwhole⟩ := hends "Lb/B;".toUTF8.data.toList .field
  obtain ⟨result, last, hread, hsame⟩ := htexts .field "Lb/B;"
  obtain ⟨rfl, rfl⟩ := Prod.mk.inj (hread.unique hsettles)
  have hfound : destructure .field "Lb/B;" = .ok [⟨"b.B", .parameterizedField⟩] := by cbv
  have hlength : "Lb/B;".toUTF8.data.toList.length = 5 := by
    rw [toUTF8_eq_textBytes]
    decide
  rw [hfound] at hsame
  obtain ⟨rfl, htypes⟩ := hsame
  refine ⟨last, hsettles, (hwhole rfl).trans hlength, ?_, ?_⟩
  · exact List.reverse_eq_iff.mp htypes
  · exact (hcalls _ _ _ {} (Nat.zero_le _)).2.2

/-- A class type that is not closed is refused at the end of the text. -/
example : destructure .field "Lb/B<" = .error .unexpectedEnd := by cbv

end ByteReader

end Signature

end Linkage
