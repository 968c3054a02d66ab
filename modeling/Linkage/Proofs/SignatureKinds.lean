import Linkage.Signature
import Linkage.Proofs.Outcome
/-
The kinds that generic signatures give to the classes that they name.  A reader
adds classes with the kind of the declaration or with that of the role it reads.
-/

namespace Linkage

/-- The kinds of the roles that a class can play in a signature. -/
def signatureKinds : List ReferenceKind :=
  [.parameterizedType, .parameterizedField, .parameterizedMethod, .parameterizedVariable,
    .extendsType, .implementsType, .parameter, .returnType, .throws]

/-- The kinds of the roles that a class can play in a signature of a declaration. -/
def SignatureOwner.kinds : SignatureOwner → List ReferenceKind
  | .type _ => [.parameterizedType, .extendsType, .implementsType]
  | .field => [.parameterizedField]
  | .method => [.parameterizedMethod, .parameter, .returnType, .throws]
  | .localVariable => [.parameterizedVariable]

theorem SignatureOwner.kinds_subset (owner : SignatureOwner) : owner.kinds ⊆ signatureKinds := by
  cases owner with
  | type isInterface =>
      rw [kinds]
      decide
  | _ => decide

namespace Signature

/-- Classes whose kinds all belong to some kinds. -/
def Tagged (kinds : List ReferenceKind) (found : List SignatureType) : Prop :=
  ∀ type ∈ found, type.kind ∈ kinds

theorem Tagged.cons {kinds : List ReferenceKind} {found : List SignatureType}
    (h : Tagged kinds found) {name : String} {role : ReferenceKind} (hrole : role ∈ kinds) :
    Tagged kinds (⟨name, role⟩ :: found) :=
  List.forall_mem_cons.mpr ⟨hrole, h⟩

variable {kinds : List ReferenceKind} {declaration : ReferenceKind}

/-- A reader that adds classes of some kinds to those found before. -/
def Keeps (kinds : List ReferenceKind) (found : List SignatureType) {start : List Char}
    (outcome : Outcome start) : Prop :=
  Tagged kinds found → ∀ reading, outcome = .ok reading → Tagged kinds reading.found

namespace Keeps

variable {found : List SignatureType} {start middle : List Char}

/-- A reader that fails adds no class. -/
theorem error {error : SignatureError} : Keeps kinds found (.error error : Outcome start) :=
  fun _ _ h => nomatch h

theorem same {rest : List Char} (short : rest.length < start.length) :
    Keeps kinds found (.ok ⟨found, rest, short⟩) := fun hfound reading h => by
  rw [← Except.ok.inj h]
  exact hfound

theorem bind {outcome : Outcome middle} {next : Reading middle → Outcome start}
    (h : Keeps kinds found outcome) (hnext : ∀ reading, Keeps kinds reading.found (next reading)) :
    Keeps kinds found (outcome >>= next) := fun hfound reading hread => by
  obtain ⟨first, hfirst, hread⟩ := bind_eq_ok hread
  exact hnext first (h hfound first hfirst) reading hread

end Keeps

/-- On texts shorter than a size, the readers of types add classes of some kinds. -/
structure KeepsBelow (kinds : List ReferenceKind) (declaration : ReferenceKind) (size : Nat) :
    Prop where
  referenceType : ∀ {role found start input bound}, role ∈ kinds → input.length < size →
    Keeps kinds found (@Signature.referenceType declaration role found start input bound)
  javaType : ∀ {role found start input bound}, role ∈ kinds → input.length < size →
    Keeps kinds found (@Signature.javaType declaration role found start input bound)
  classRest : ∀ {role mayHaveArguments parts found start input bound}, role ∈ kinds →
    input.length < size → Keeps kinds found
      (@Signature.classRest declaration role mayHaveArguments parts found start input bound)
  typeArguments : ∀ {found start input bound}, input.length < size →
    Keeps kinds found (@Signature.typeArguments declaration found start input bound)

namespace KeepsBelow

variable {role : ReferenceKind} {found : List SignatureType} {size : Nat}
  {start input : List Char} {bound : input.length ≤ start.length}

theorem referenceType_succ (below : KeepsBelow kinds declaration size) (hrole : role ∈ kinds)
    (hinput : input.length < size + 1) :
    Keeps kinds found (Signature.referenceType declaration role found input bound) := by
  unfold Signature.referenceType
  split
  next => exact .error
  next =>
    split
    next => exact .error
    next => exact below.classRest hrole (length_dropWhile_lt _ hinput)
  next rest bound =>
    cases identifier ';' rest with
    | error => exact .error
    | ok after => exact .same _
  next => exact below.javaType hrole (Nat.lt_of_succ_lt_succ hinput)
  next => exact .error

theorem javaType_succ (below : KeepsBelow kinds declaration size) (hrole : role ∈ kinds)
    (hinput : input.length < size + 1) :
    Keeps kinds found (Signature.javaType declaration role found input bound) := by
  unfold Signature.javaType
  split
  next => exact .error
  next =>
    split
    next => exact .same _
    next => exact below.referenceType_succ hrole hinput

theorem classRest_succ (below : KeepsBelow kinds declaration size) {mayHaveArguments : Bool}
    {parts : List (List Char)} (hrole : role ∈ kinds) (hinput : input.length < size + 1) :
    Keeps kinds found
      (Signature.classRest declaration role mayHaveArguments parts found input bound) := by
  unfold Signature.classRest
  split
  next => exact .error
  -- The class is added at the end of its type.
  next =>
    intro hfound reading h
    rw [← Except.ok.inj h]
    exact hfound.cons hrole
  next =>
    split
    next => exact .error
    next => exact below.classRest hrole (length_dropWhile_lt _ hinput)
  next rest bound =>
    have hrest : rest.length < size := Nat.lt_of_succ_lt_succ hinput
    split
    next =>
      exact (below.typeArguments hrest).bind fun arguments =>
        below.classRest hrole (Nat.lt_trans arguments.short hrest)
    next => exact .error
  next => exact .error

theorem typeArguments_succ (below : KeepsBelow kinds declaration size)
    (hdeclaration : declaration ∈ kinds) (hinput : input.length < size + 1) :
    Keeps kinds found (Signature.typeArguments declaration found input bound) := by
  unfold Signature.typeArguments
  split
  next => exact .error
  next c rest bound =>
    split
    next => exact .same _
    split
    next => exact below.typeArguments (Nat.lt_of_succ_lt_succ hinput)
    next =>
      have hmark := Nat.lt_of_le_of_lt (withoutMark_length_le (c :: rest)) hinput
      exact (below.referenceType_succ hdeclaration hmark).bind fun type =>
        below.typeArguments (Nat.lt_of_lt_of_le type.short (Nat.le_of_lt_succ hinput))

/-- By induction on the size: a reader calls those that are not of its own text for a shorter
one. -/
theorem of_size (hdeclaration : declaration ∈ kinds) : ∀ size, KeepsBelow kinds declaration size
  | 0 => by constructor <;> intros <;> exact absurd ‹_ < 0› (Nat.not_lt_zero _)
  | size + 1 =>
      have below := of_size hdeclaration size
      ⟨below.referenceType_succ, below.javaType_succ, below.classRest_succ,
        below.typeArguments_succ hdeclaration⟩

end KeepsBelow

theorem referenceType_tagged (hdeclaration : declaration ∈ kinds) {role : ReferenceKind}
    (hrole : role ∈ kinds) {found : List SignatureType} (hfound : Tagged kinds found)
    {start input : List Char} {bound : input.length ≤ start.length} {reading : Reading start}
    (h : referenceType declaration role found input bound = .ok reading) :
    Tagged kinds reading.found :=
  (KeepsBelow.of_size hdeclaration _).referenceType hrole (Nat.lt_succ_self _) hfound reading h

theorem javaType_tagged (hdeclaration : declaration ∈ kinds) {role : ReferenceKind}
    (hrole : role ∈ kinds) {found : List SignatureType} (hfound : Tagged kinds found)
    {start input : List Char} {bound : input.length ≤ start.length} {reading : Reading start}
    (h : javaType declaration role found input bound = .ok reading) :
    Tagged kinds reading.found :=
  (KeepsBelow.of_size hdeclaration _).javaType hrole (Nat.lt_succ_self _) hfound reading h

theorem classType_tagged (hdeclaration : declaration ∈ kinds) {role : ReferenceKind}
    (hrole : role ∈ kinds) {found : List SignatureType} (hfound : Tagged kinds found)
    {input : List Char} {reading : Reading input}
    (h : classType declaration role found input = .ok reading) :
    Tagged kinds reading.found := by
  unfold classType at h
  split at h
  · exact referenceType_tagged hdeclaration hrole hfound h
  · simp at h
  · simp at h

theorem interfaceBounds_tagged (hdeclaration : declaration ∈ kinds)
    {found : List SignatureType} (hfound : Tagged kinds found) {start input : List Char}
    {bound : input.length < start.length} {reading : Reading start}
    (h : interfaceBounds declaration found input bound = .ok reading) :
    Tagged kinds reading.found := by
  fun_induction interfaceBounds declaration found input bound with
  | case1 found start bound =>
      rw [Except.ok.injEq] at h
      rw [← h]
      exact hfound
  | case2 found start rest bound ih =>
      obtain ⟨type, htype, h⟩ := bind_eq_ok h
      exact ih type (referenceType_tagged hdeclaration hdeclaration hfound htype) h
  | case3 found start c rest bound _ =>
      rw [Except.ok.injEq] at h
      rw [← h]
      exact hfound

theorem classBound_tagged (hdeclaration : declaration ∈ kinds)
    {found : List SignatureType} (hfound : Tagged kinds found) {start input : List Char}
    {bound : input.length < start.length} {reading : Reading start}
    (h : classBound declaration found input bound = .ok reading) :
    Tagged kinds reading.found := by
  rw [classBound] at h
  split at h
  · rw [Except.ok.injEq] at h
    rw [← h]
    exact hfound
  · exact referenceType_tagged hdeclaration hdeclaration hfound h

theorem typeParameterList_tagged (hdeclaration : declaration ∈ kinds)
    {found : List SignatureType} (hfound : Tagged kinds found) {start input : List Char}
    {bound : input.length ≤ start.length} {reading : Reading start}
    (h : typeParameterList declaration found input bound = .ok reading) :
    Tagged kinds reading.found := by
  fun_induction typeParameterList declaration found input bound with
  | case1 => simp at h
  | case2 found start rest bound =>
      rw [Except.ok.injEq] at h
      rw [← h]
      exact hfound
  | case3 found start c rest bound _ ih =>
      obtain ⟨afterName, _, h⟩ := bind_eq_ok h
      obtain ⟨class_, hclass, h⟩ := bind_eq_ok h
      obtain ⟨all, hall, h⟩ := bind_eq_ok h
      have hclassBound := classBound_tagged hdeclaration hfound hclass
      exact ih afterName all (interfaceBounds_tagged hdeclaration hclassBound hall) h

theorem typeParameters_tagged (hdeclaration : declaration ∈ kinds) {input : List Char}
    {found : List SignatureType} {rest : List Char}
    (h : typeParameters declaration input = .ok (found, rest)) : Tagged kinds found := by
  have hnone : Tagged kinds [] := by simp [Tagged]
  unfold typeParameters at h
  split at h
  · obtain ⟨parameters, hparameters, h⟩ := bind_eq_ok h
    simp only [pure, Except.pure, Except.ok.injEq, Prod.mk.injEq] at h
    rw [← h.1]
    exact typeParameterList_tagged hdeclaration hnone hparameters
  · simp only [Except.ok.injEq, Prod.mk.injEq] at h
    rw [← h.1]
    exact hnone

theorem superInterfaces_tagged (hdeclaration : declaration ∈ kinds) {role : ReferenceKind}
    (hrole : role ∈ kinds) {found : List SignatureType} (hfound : Tagged kinds found)
    {input : List Char} {types : List SignatureType}
    (h : superInterfaces declaration role found input = .ok types) :
    Tagged kinds types := by
  fun_induction superInterfaces declaration role found input with
  | case1 found =>
      rw [Except.ok.injEq] at h
      rw [← h]
      exact hfound
  | case2 found c rest ih =>
      obtain ⟨type, htype, h⟩ := bind_eq_ok h
      exact ih type (classType_tagged hdeclaration hrole hfound htype) h

theorem classSignature_tagged {isInterface : Bool} {input : List Char}
    {types : List SignatureType} (h : classSignature isInterface input = .ok types) :
    Tagged (SignatureOwner.kinds (.type isInterface)) types := by
  rw [SignatureOwner.kinds]
  have hdeclaration : SignatureOwner.declarationKind (.type isInterface) ∈
      [ReferenceKind.parameterizedType, .extendsType, .implementsType] := by
    rw [SignatureOwner.declarationKind]
    decide
  obtain ⟨⟨parameters, rest⟩, hparameters, h⟩ := bind_eq_ok h
  obtain ⟨superClass, hsuper, h⟩ := bind_eq_ok h
  have hformal := typeParameters_tagged hdeclaration hparameters
  have hclass := classType_tagged hdeclaration (by decide) hformal hsuper
  cases isInterface with
  | true => exact superInterfaces_tagged hdeclaration (by decide) hformal h
  | false => exact superInterfaces_tagged hdeclaration (by decide) hclass h

theorem parameterTypes_tagged (hdeclaration : declaration ∈ kinds)
    (hparameter : ReferenceKind.parameter ∈ kinds) {found : List SignatureType}
    (hfound : Tagged kinds found) {start input : List Char}
    {bound : input.length ≤ start.length} {reading : Reading start}
    (h : parameterTypes declaration found input bound = .ok reading) :
    Tagged kinds reading.found := by
  fun_induction parameterTypes declaration found input bound with
  | case1 => simp at h
  | case2 found start rest bound =>
      rw [Except.ok.injEq] at h
      rw [← h]
      exact hfound
  | case3 found start c rest bound _ ih =>
      obtain ⟨type, htype, h⟩ := bind_eq_ok h
      exact ih type (javaType_tagged hdeclaration hparameter hfound htype) h

theorem resultType_tagged (hdeclaration : declaration ∈ kinds)
    (hresult : ReferenceKind.returnType ∈ kinds) {found : List SignatureType}
    (hfound : Tagged kinds found) {input : List Char} {reading : Reading input}
    (h : resultType declaration found input = .ok reading) :
    Tagged kinds reading.found := by
  unfold resultType at h
  split at h
  · rw [Except.ok.injEq] at h
    rw [← h]
    exact hfound
  · exact javaType_tagged hdeclaration hresult hfound h

theorem thrownTypes_tagged (hdeclaration : declaration ∈ kinds)
    (hthrows : ReferenceKind.throws ∈ kinds) {found : List SignatureType}
    (hfound : Tagged kinds found) {input : List Char} {types : List SignatureType}
    {rest : List Char} (h : thrownTypes declaration found input = .ok (types, rest)) :
    Tagged kinds types := by
  fun_induction thrownTypes declaration found input with
  | case1 found rest ih =>
      obtain ⟨type, htype, h⟩ := bind_eq_ok h
      exact ih type (referenceType_tagged hdeclaration hthrows hfound htype) h
  | case2 found other _ =>
      simp only [Except.ok.injEq, Prod.mk.injEq] at h
      rw [← h.1]
      exact hfound

theorem atEnd_eq_ok {found types : List SignatureType} {rest : List Char}
    (h : atEnd found rest = .ok types) : types = found := by
  unfold atEnd at h
  split at h
  · exact (Except.ok.inj h).symm
  · simp at h

theorem methodSignature_tagged {input : List Char} {types : List SignatureType}
    (h : methodSignature input = .ok types) : Tagged (SignatureOwner.kinds .method) types := by
  have hdeclaration : SignatureOwner.declarationKind .method ∈ SignatureOwner.kinds .method := by
    decide
  obtain ⟨⟨formal, rest⟩, hformal, h⟩ := bind_eq_ok h
  obtain ⟨⟨opened, _⟩, _, h⟩ := bind_eq_ok h
  obtain ⟨parameters, hparameters, h⟩ := bind_eq_ok h
  obtain ⟨result, hresult, h⟩ := bind_eq_ok h
  obtain ⟨⟨found, rest⟩, hthrown, h⟩ := bind_eq_ok h
  rw [atEnd_eq_ok h]
  have h1 := typeParameters_tagged hdeclaration hformal
  have h2 := parameterTypes_tagged hdeclaration (by decide) h1 hparameters
  have h3 := resultType_tagged hdeclaration (by decide) h2 hresult
  exact thrownTypes_tagged hdeclaration (by decide) h3 hthrown

theorem variableSignature_tagged (hdeclaration : declaration ∈ kinds) {input : List Char}
    {types : List SignatureType} (h : variableSignature declaration input = .ok types) :
    Tagged kinds types := by
  obtain ⟨type, htype, h⟩ := bind_eq_ok h
  rw [atEnd_eq_ok h]
  exact referenceType_tagged hdeclaration hdeclaration (by simp [Tagged]) htype

/-- Every class that a signature names has the kind of a role in its declaration. -/
theorem destructure_tagged {owner : SignatureOwner} {signature : String}
    {types : List SignatureType} (h : destructure owner signature = .ok types) :
    Tagged owner.kinds types := by
  have hread : ∃ found, Tagged owner.kinds found ∧ found.reverse = types := by
    unfold destructure at h
    obtain ⟨found, hfound, hreverse⟩ := map_eq_ok h
    refine ⟨found, ?_, hreverse⟩
    cases owner with
    | type isInterface => exact classSignature_tagged hfound
    | method => exact methodSignature_tagged hfound
    | field => exact variableSignature_tagged (by decide) hfound
    | localVariable => exact variableSignature_tagged (by decide) hfound
  obtain ⟨found, htagged, rfl⟩ := hread
  intro type hmem
  exact htagged type (List.mem_reverse.mp hmem)

end Signature

end Linkage
