import Linkage.Proofs.InstructionCoverage
import Linkage.Proofs.LocalDeclarations
import Linkage.Proofs.PlainDeliveries
import Linkage.Proofs.SignatureRoles
/-
Declared exceptions.  The exceptions of a method stand in the throws clause of its generic
signature, or else in a list beside it.  Extraction takes every `^` in a signature for the mark
of a throws clause, but a name may have one as well.  So it delivers the classes of a clause,
and the list of a method without one, unless a name in the signature has the mark: then the
list is passed over.
-/

namespace Linkage

namespace Signature.MethodSignature

/-- The names of the classes in the throws clause. -/
def thrownNames (signature : MethodSignature) : List String :=
  (signature.thrown.filterMap NamedType.class?).map (fun type => String.ofList type.name)

/-- Of the classes that a method signature names, those of the throws clause are thrown. -/
theorem filter_throws_named (signature : MethodSignature) :
    signature.named.filter (fun type => type.kind ∈ [ReferenceKind.throws]) =
      signature.thrownNames.map (fun name => ⟨name, .throws⟩) := by
  have hbounds : Tagged [.parameterizedMethod]
      (signature.formal.flatMap (TypeParameter.named .parameterizedMethod)) :=
    .flatMap fun parameter _ => parameter.tagged_named (List.mem_singleton_self _)
  have hparameters : Tagged [.parameterizedMethod, .parameter]
      (signature.parameters.flatMap (JavaType.named .parameterizedMethod .parameter)) :=
    .flatMap fun type _ => type.tagged_named (by decide) (by decide)
  have hresult : Tagged [.parameterizedMethod, .returnType]
      (signature.result.toList.flatMap (JavaType.named .parameterizedMethod .returnType)) :=
    .flatMap fun type _ => type.tagged_named (by decide) (by decide)
  have hthrown : (signature.thrown.flatMap (NamedType.named .parameterizedMethod .throws)).filter
      (fun type => type.kind ∈ [ReferenceKind.throws]) =
        signature.thrownNames.map (fun name => ⟨name, .throws⟩) := by
    rw [thrownNames, List.map_map]
    induction signature.thrown with
    | nil => rfl
    | cons type rest ih =>
        rw [List.flatMap_cons, List.filter_append, ih, type.filter_named (by decide) (by decide),
          List.filterMap_cons]
        cases type.class? <;> rfl
  rw [named, List.filter_append, List.filter_append, List.filter_append,
    hbounds.filter_eq_nil (by decide), hparameters.filter_eq_nil (by decide),
    hresult.filter_eq_nil (by decide), hthrown]
  rfl

/-- A throws clause has its mark. -/
theorem mark_mem_text {signature : MethodSignature} (h : signature.thrown ≠ []) :
    '^' ∈ signature.text := by
  obtain ⟨type, rest, hthrown⟩ := List.exists_cons_of_ne_nil h
  rw [text, hthrown]
  simp

end Signature.MethodSignature

/-! What extraction finds. -/

/-- The exceptions that extraction finds for a method. -/
inductive FindsThrown (method : MethodDecl) : List String → Prop where
  | synthetic (hsynthetic : method.access.isSynthetic = true) : FindsThrown method []
  /-- Without a signature, those of the list. -/
  | unsigned (hdeclared : method.access.isSynthetic = false)
      (hsignature : method.signature = none) :
      FindsThrown method (method.exceptions.map qualifiedName)
  /-- The classes of the throws clause. -/
  | clause {signature : Signature.MethodSignature} (hdeclared : method.access.isSynthetic = false)
      (hsignature : method.signature = some (String.ofList signature.text))
      (hthrown : signature.thrown ≠ []) : FindsThrown method signature.thrownNames
  /-- Without a throws clause, those of the list. -/
  | listed {signature : Signature.MethodSignature} (hdeclared : method.access.isSynthetic = false)
      (hsignature : method.signature = some (String.ofList signature.text))
      (hthrown : signature.thrown = []) (hmark : '^' ∉ signature.text) :
      FindsThrown method (method.exceptions.map qualifiedName)
  /-- None, if there is no throws clause and a name in the signature has its mark. -/
  | lost {signature : Signature.MethodSignature} (hdeclared : method.access.isSynthetic = false)
      (hsignature : method.signature = some (String.ofList signature.text))
      (hthrown : signature.thrown = []) (hmark : '^' ∈ signature.text) : FindsThrown method []

/-- The names of the classes that a signature says to be thrown. -/
def signedThrown (signature : String) : List String :=
  match readSignature .method signature with
  | .ok types =>
      (types.filter (fun type => type.kind ∈ [ReferenceKind.throws])).map SignatureType.typeName
  | .error _ => []

/-- The exceptions that a method records, by name. -/
def MethodDecl.recordedThrown (method : MethodDecl) : List String :=
  if method.access.isSynthetic then []
  else
    match method.signature with
    | none => method.exceptions.map qualifiedName
    | some signature => signedThrown signature
        ++ if statesExceptions signature then [] else method.exceptions.map qualifiedName

theorem signedThrown_text (signature : Signature.MethodSignature) :
    signedThrown (String.ofList signature.text) = signature.thrownNames := by
  have hread : readSignature .method (String.ofList signature.text) = .ok signature.named :=
    Signature.readSignature_text (.ofMethod signature)
  rw [signedThrown, hread]
  simp only [signature.filter_throws_named, List.map_map]
  exact List.map_id _

theorem statesExceptions_text (signature : Signature.MethodSignature) :
    statesExceptions (String.ofList signature.text) = decide ('^' ∈ signature.text) := by
  rw [statesExceptions, String.toList_ofList]

theorem FindsThrown.recordedThrown_eq {method : MethodDecl} {names : List String}
    (h : FindsThrown method names) : method.recordedThrown = names := by
  rw [MethodDecl.recordedThrown]
  cases h with
  | synthetic hsynthetic => rw [if_pos hsynthetic]
  | unsigned hdeclared hsignature => simp [hdeclared, hsignature]
  | clause hdeclared hsignature hthrown =>
      simp [hdeclared, hsignature, signedThrown_text, statesExceptions_text,
        Signature.MethodSignature.mark_mem_text hthrown]
  | listed hdeclared hsignature hthrown hmark =>
      simp [hdeclared, hsignature, signedThrown_text, statesExceptions_text, hmark,
        Signature.MethodSignature.thrownNames, hthrown]
  | lost hdeclared hsignature hthrown hmark =>
      simp [hdeclared, hsignature, signedThrown_text, statesExceptions_text, hmark,
        Signature.MethodSignature.thrownNames, hthrown]

/-! References to exceptions. -/

/-- The names of what references say to be thrown, in order. -/
def thrownIn (references : List Reference) : List String :=
  (references.filter (fun reference => reference.kind = .throws)).map Reference.typeName

theorem thrownIn_append (left right : List Reference) :
    thrownIn (left ++ right) = thrownIn left ++ thrownIn right := by
  rw [thrownIn, List.filter_append, List.map_append]
  rfl

theorem thrownIn_eq_nil {references : List Reference}
    (h : ∀ reference ∈ references, reference.kind ≠ .throws) : thrownIn references = [] := by
  rw [thrownIn, List.map_eq_nil_iff, List.filter_eq_nil_iff]
  intro reference hmem
  simpa using h reference hmem

theorem thrownIn_typeReferences (glossary : Glossary) (source : MemberHandle)
    (names : List String) :
    thrownIn (glossary.typeReferences source .throws names) = names.map qualifiedName := by
  rw [thrownIn, Glossary.typeReferences, List.filter_eq_self.mpr, List.map_map]
  · exact List.map_congr_left fun name _ => Table.get_eq _ _
  · intro reference hmem
    obtain ⟨name, -, rfl⟩ := List.mem_map.mp hmem
    rfl

theorem thrownIn_signatureReferences (source : MemberHandle) (signature : String)
    (types : List SignatureType) :
    thrownIn (signatureReferences source signature types) =
      (types.filter (fun type => type.kind ∈ [ReferenceKind.throws])).map
        SignatureType.typeName := by
  rw [thrownIn, signatureReferences, List.filter_map, List.map_map]
  refine congrArg (List.map _) (List.filter_congr fun type _ => ?_)
  simp [Reference.ofSignature]

section Methods
variable {known : Universe} {decl : ClassDecl} {method : MethodDecl} {types : MethodTypes}
  {references : List Reference}

theorem thrownIn_methodTypeReferences
    (h : (TypeSite.of known decl).methodTypeReferences method types = .ok references) :
    thrownIn references = (method.signature.map signedThrown).getD [] := by
  rw [TypeSite.methodTypeReferences] at h
  simp only [Table.get_eq] at h
  split at h
  · rename_i signature hsignature
    obtain ⟨named, hnamed, rfl⟩ := bind_pure_eq_ok h
    rw [thrownIn_signatureReferences, hsignature, Option.map_some, Option.getD_some, signedThrown,
      hnamed]
  · rename_i hsignature
    rw [← Except.ok.inj h, hsignature]
    refine thrownIn_eq_nil (List.forall_mem_append.mpr ⟨?_, ?_⟩)
    · exact List.forall_mem_map.mpr fun _ _ => ReferenceKind.noConfusion
    · exact List.forall_mem_map.mpr fun _ _ => ReferenceKind.noConfusion

theorem thrownIn_exceptionReferences (known : Universe) (decl : ClassDecl) (method : MethodDecl) :
    thrownIn ((TypeSite.of known decl).exceptionReferences method) =
      if (method.signature.map statesExceptions).getD false then []
      else method.exceptions.map qualifiedName := by
  have hstates : (TypeSite.of known decl).throwsInSignature method =
      (method.signature.map statesExceptions).getD false := by
    rw [TypeSite.throwsInSignature]
    cases method.signature with
    | none => rfl
    | some signature => exact Table.get_eq _ _
  rw [TypeSite.exceptionReferences, hstates]
  split
  · rfl
  · exact thrownIn_typeReferences _ _ _

theorem thrownIn_methodHeaderReferences
    (h : (TypeSite.of known decl).methodHeaderReferences method types = .ok references) :
    thrownIn references = method.recordedThrown := by
  rw [TypeSite.methodHeaderReferences] at h
  rw [MethodDecl.recordedThrown]
  split at h
  · rename_i hsynthetic
    rw [← Except.ok.inj h, if_pos hsynthetic]
    rfl
  · rename_i hdeclared
    obtain ⟨typed, htyped, rfl⟩ := bind_pure_eq_ok h
    rw [thrownIn_append, thrownIn_methodTypeReferences htyped, thrownIn_exceptionReferences,
      if_neg hdeclared]
    cases method.signature <;> rfl

/-- The declaration of a method makes the references to its exceptions. -/
theorem thrownIn_methodReferences
    (h : (TypeSite.of known decl).methodReferences method types = .ok references) :
    thrownIn references = method.recordedThrown := by
  obtain ⟨header, hheader, rfl⟩ := bind_pure_eq_ok h
  have hoverride : thrownIn ((TypeSite.of known decl).overrideReferences method) = [] := by
    refine thrownIn_eq_nil fun reference hmem => ?_
    obtain ⟨target, flags, rfl, -⟩ := mem_overrideReferences hmem
    exact ReferenceKind.noConfusion
  have hannotations : thrownIn ((TypeSite.of known decl).glossary.typeReferences
      ((TypeSite.of known decl).methodHandle method) .annotationUse method.annotations) = [] :=
    thrownIn_eq_nil (List.forall_mem_map.mpr fun _ _ => ReferenceKind.noConfusion)
  rw [thrownIn_append, thrownIn_append, hoverride, hannotations, List.nil_append, List.append_nil,
    thrownIn_methodHeaderReferences hheader]

/-- Nothing in the body of a method declares an exception. -/
theorem thrownIn_methodDrafts {drafts : List Draft}
    (h : (TypeSite.of known decl).methodDrafts method = .ok drafts) :
    thrownIn (drafts.map Draft.reference) = method.recordedThrown := by
  obtain ⟨types, declared, body, -, hdeclared, hbody, rfl⟩ := methodDrafts_eq_ok h
  have hnone : thrownIn (body.map Draft.reference) = [] := by
    refine thrownIn_eq_nil (List.forall_mem_map.mpr fun draft hmem hkind => ?_)
    rcases hbody with ⟨-, rfl⟩ | ⟨code, -, hbody⟩
    · cases hmem
    · obtain ⟨locals, hlocals, rfl⟩ := bind_pure_eq_ok hbody
      rcases List.mem_append.mp hmem with hplaced | hlocal
      · have hin : draft.reference.kind ∈ bodyKinds :=
          BodySite.kind_of_mem_placedDrafts (by rwa [BodySite.placedDrafts_drafts])
        rw [hkind] at hin
        exact absurd hin (by decide)
      · obtain ⟨reference, hreference, rfl⟩ := List.mem_map.mp hlocal
        have hin := kind_of_mem_localReferences hlocals reference hreference
        rw [Draft.reference_ofReference] at hkind
        rw [hkind] at hin
        exact absurd hin (by decide)
  rw [List.map_append, thrownIn_append, hnone, List.append_nil, Unplaced.map_ofReference,
    thrownIn_methodReferences hdeclared]

end Methods

/-! Deliveries. -/

/-- The names of what a member says to be thrown by the references that it makes, in order. -/
def thrownBy (source : MemberHandle) (references : List Reference) : List String :=
  thrownIn (references.filter (fun reference => reference.source = source))

/-- The dependencies of a member on what it says to be thrown. -/
def thrownChoice (source : MemberHandle) : Choice [.throws] where
  chosen identity := identity.kind = .throws && identity.source = source
  kind_mem _ h := List.mem_singleton.mpr (of_decide_eq_true (Bool.and_eq_true_iff.mp h).1)

theorem thrownBy_eq (source : MemberHandle) (references : List Reference) :
    thrownBy source references =
      ((thrownChoice source).of references).map (fun reference => reference.identity.typeName) := by
  rw [thrownBy, thrownIn, List.filter_filter]
  rfl

/-- The methods of a handle in the types that a visit leaves, in order. -/
def methodsNamed {known : Universe} (steps : List (VisitStep known)) (source : MemberHandle) :
    List MethodDecl :=
  (leftTypes steps).flatMap (fun decl =>
    decl.methods.filter (fun method => decl.methodHandle method = source))

theorem flatMap_filter_eq {α β : Type} (p : α → Prop) [DecidablePred p] (f : α → List β)
    (items : List α) : (items.filter (fun item => p item)).flatMap f =
      items.flatMap (fun item => if p item then f item else []) := by
  induction items with
  | nil => rfl
  | cons item rest ih => by_cases hp : p item <;> simp [hp, ih]

section Visit
variable {known : Universe} {steps : List (VisitStep known)}

theorem thrownBy_methodDrafts {decl : ClassDecl} {method : MethodDecl} {drafts : List Draft}
    (h : (TypeSite.of known decl).methodDrafts method = .ok drafts) (source : MemberHandle) :
    thrownBy source (drafts.map Draft.reference) =
      if decl.methodHandle method = source then method.recordedThrown else [] := by
  have hsource : ∀ reference ∈ drafts.map Draft.reference,
      reference.source = decl.methodHandle method :=
    List.forall_mem_map.mpr fun draft hmem => source_of_mem_methodDrafts h hmem
  rw [thrownBy]
  split
  · rename_i heq
    rw [List.filter_eq_self.mpr fun reference hmem => by simp [hsource reference hmem, heq],
      thrownIn_methodDrafts h]
  · rename_i hne
    rw [List.filter_eq_nil_iff.mpr fun reference hmem => by simp [hsource reference hmem, hne]]
    rfl

/-- What a visit records as thrown by the methods of a handle. -/
theorem thrownBy_steps (steps : List (VisitStep known)) (typeName name descriptor : String) :
    thrownBy (.method typeName name descriptor)
        (((steps.flatMap VisitStep.records).map Record.draft).map Draft.reference) =
      (methodsNamed steps (.method typeName name descriptor)).flatMap
        MethodDecl.recordedThrown := by
  let source := MemberHandle.method typeName name descriptor
  let keep := fun draft : Draft => (thrownChoice source).chosen draft.reference.identity
  have hview : ∀ drafts : List Draft, thrownBy source (drafts.map Draft.reference) =
      (drafts.filter keep).map (fun draft => draft.reference.typeName) := by
    intro drafts
    rw [thrownBy_eq, Choice.of, List.filter_map, List.map_map]
    rfl
  -- Headers and fields have handles of other kinds.
  have hothers : ∀ (decl : ClassDecl) (own : OwnDrafts known decl),
      ∀ draft ∈ own.header ++ own.fields.flatten, keep draft = false := by
    refine fun decl own draft hmem => Bool.eq_false_iff.mpr fun hkeep => ?_
    have hsource : draft.reference.source = source :=
      of_decide_eq_true (Bool.and_eq_true_iff.mp hkeep).2
    rcases List.mem_append.mp hmem with hheader | hfield
    · obtain ⟨reference, hmention, rfl⟩ := mem_headerDrafts own.header_eq hheader
      exact MemberHandle.noConfusion (hmention.source_eq.symm.trans hsource)
    · obtain ⟨drafts, hdrafts, hdraft⟩ := List.mem_flatten.mp hfield
      obtain ⟨field, -, hdrafts⟩ := (mem_of_mapM_eq_ok own.fields_eq).mp hdrafts
      have hmakes := fieldMakes_of_mem (mapError_eq_ok hdrafts) hdraft
      exact MemberHandle.noConfusion (hmakes.source_eq.symm.trans hsource)
  have hmethods : ∀ (decl : ClassDecl) (method : MethodDecl) (drafts : List Draft),
      (TypeSite.of known decl).methodDrafts method = .ok drafts →
        (drafts.filter keep).map (fun draft => draft.reference.typeName) =
          if decl.methodHandle method = source then method.recordedThrown else [] := by
    intro decl method drafts hdrafts
    rw [← hview, thrownBy_methodDrafts hdrafts]
  refine (hview _).trans ((map_filter_drafts_steps hothers hmethods steps).trans ?_)
  rw [methodsNamed, List.flatMap_assoc]
  exact List.flatMap_congr fun decl _ => (flatMap_filter_eq _ _ _).symm

/-- A member delivers that it throws the classes of names, each of them at least once and in the
order of the names; if they are distinct, each of them just once. -/
structure DeliversThrown (source : MemberHandle) (references : List Reference)
    (names : List String) : Prop where
  distinct_eq : distinctBy id (thrownBy source references) = distinctBy id names
  eq_of_nodup : names.Nodup → thrownBy source references = names

theorem deliversThrown_steps {root : ClassDecl} {references : List Reference}
    (h : extract .full known root = .ok references) :
    ∃ steps, (TypeTree.of known root).steps known = .ok steps ∧
      ∀ typeName name descriptor, DeliversThrown (.method typeName name descriptor) references
        ((methodsNamed steps (.method typeName name descriptor)).flatMap
          MethodDecl.recordedThrown) := by
  obtain ⟨entries, steps, -, hsteps, hunlined, rfl⟩ := exists_steps_of_extract h
  refine ⟨steps, hsteps, fun typeName name descriptor => ?_⟩
  let choice := thrownChoice (.method typeName name descriptor)
  have hplain : PlainAmong [.throws] entries.toList := .of_steps (by decide) hunlined
  have hrecorded : (choice.among entries.toList).map
      (fun entry => entry.reference.identity.typeName) =
        (methodsNamed steps (.method typeName name descriptor)).flatMap
          MethodDecl.recordedThrown := by
    rw [← thrownBy_steps, thrownBy_eq, choice.map_among Reference.Identity.typeName hunlined]
    simp only [considers_full, Bool.and_true, Choice.of, List.filter_map, List.map_map]
    rfl
  rw [← hrecorded]
  constructor
  · rw [thrownBy_eq]
    exact choice.distinct_of_delivered Reference.Identity.typeName .full hplain
  · intro hnodup
    rw [thrownBy_eq]
    exact choice.map_of_delivered Reference.Identity.typeName .full hplain hnodup

end Visit

/-- Extraction delivers for the methods of a handle the exceptions that it finds for them. -/
theorem extract_delivers_thrown (known : Universe) (root : ClassDecl)
    (references : List Reference) (h : extract .full known root = .ok references) :
    ∃ steps, (TypeTree.of known root).steps known = .ok steps ∧
      ∀ typeName name descriptor, ∀ found : MethodDecl → List String,
        (∀ method ∈ methodsNamed steps (.method typeName name descriptor),
          FindsThrown method (found method)) →
        DeliversThrown (.method typeName name descriptor) references
          ((methodsNamed steps (.method typeName name descriptor)).flatMap found) := by
  obtain ⟨steps, hsteps, hdelivers⟩ := deliversThrown_steps h
  refine ⟨steps, hsteps, fun typeName name descriptor found hfound => ?_⟩
  have hrecorded := List.flatMap_congr fun method hmem => (hfound method hmem).recordedThrown_eq
  exact hrecorded ▸ hdelivers typeName name descriptor

/-! A method whose parameter is a class with or without the mark in its name. -/

def packageLetter : Signature.Identifier := ⟨['b'], by simp, by simp [Signature.reserved]⟩

/-- The signature of a method with one class as parameter, and nothing thrown. -/
def consumerSignature (name : Signature.Identifier) : Signature.MethodSignature where
  formal := []
  parameters := [.reference (.classType (.outer [packageLetter] name .none))]
  result := none
  thrown := []

def consumerMethod (descriptor : String) : MethodDecl where
  name := "m"
  descriptor := descriptor
  signature := some descriptor
  access := { isStatic := true }
  exceptions := ["java/io/IOException"]

def consumerClass (descriptor : String) : ClassDecl where
  name := "a/A"
  methods := [consumerMethod descriptor]

def plainName : Signature.Identifier := ⟨['B'], by simp, by simp [Signature.reserved]⟩

def markedName : Signature.Identifier := ⟨['B', '^', 'C'], by simp, by simp [Signature.reserved]⟩

/-- The handle of the method. -/
def consumerHandle (descriptor : String) : MemberHandle :=
  .method (qualifiedName "a/A") "m" descriptor

theorem exists_extract_consumerClass {descriptor : String} {types : MethodTypes}
    {named : List SignatureType} (htypes : readMethodTypes descriptor = .ok types)
    (hnamed : readSignature .method descriptor = .ok named) :
    ∃ references, extract .full (.ofList []) (consumerClass descriptor) = .ok references := by
  have hmethod : ∃ drafts, (TypeSite.of (.ofList []) (consumerClass descriptor)).methodDrafts
      (consumerMethod descriptor) = .ok drafts := by
    rw [TypeSite.methodDrafts, Table.get_eq]
    simp [consumerMethod, htypes, hnamed, TypeSite.methodReferences,
      TypeSite.methodHeaderReferences, TypeSite.methodTypeReferences, MethodDecl.body?, bind,
      Except.bind, pure, Except.pure]
  obtain ⟨drafts, hdrafts⟩ := hmethod
  have hsignature : (consumerClass descriptor).signature = none := rfl
  obtain ⟨header, hheader⟩ := exists_headerReferences (.ofList []) hsignature
  have hfields : (TypeSite.of (.ofList []) (consumerClass descriptor)).fieldsDrafts = .ok [] := rfl
  have hmethods : (TypeSite.of (.ofList []) (consumerClass descriptor)).methodsDrafts =
      .ok [drafts] := by
    have hlisted : (consumerClass descriptor).methods = [consumerMethod descriptor] := rfl
    rw [TypeSite.methodsDrafts, TypeSite.decl_of, hlisted, List.mapM_cons, hdrafts]
    rfl
  rw [extract_eq_ok_iff, TypeTree.of, TypeTree.records, TypeSite.headerDrafts, hheader, hfields,
    hmethods]
  exact ⟨_, rfl⟩

theorem methodsNamed_consumerClass {descriptor : String} {steps : List (VisitStep (.ofList []))}
    (h : (TypeTree.of (.ofList []) (consumerClass descriptor)).steps (.ofList []) = .ok steps) :
    methodsNamed steps (consumerHandle descriptor) = [consumerMethod descriptor] := by
  rw [methodsNamed, leftTypes_of_childless ((consumerClass descriptor).children_eq_nil rfl) h,
    List.flatMap_singleton]
  exact List.filter_eq_self.mpr fun method hmem => by
    rw [List.mem_singleton.mp hmem]
    exact decide_eq_true rfl

/-- Where the name of the parameter has no mark, the exception of the list is delivered. -/
theorem extract_consumerClass_delivers_thrown :
    ∃ references, extract .full (.ofList []) (consumerClass "(Lb/B;)V") = .ok references ∧
      FindsThrown (consumerMethod "(Lb/B;)V") ["java.io.IOException"] ∧
      thrownBy (consumerHandle "(Lb/B;)V") references = ["java.io.IOException"] := by
  have htypes : readMethodTypes "(Lb/B;)V" = .ok ⟨["b.B"], none, 1⟩ := by cbv
  have hnamed : readSignature .method "(Lb/B;)V" = .ok [⟨"b.B", .parameter⟩] := by cbv
  obtain ⟨references, hreferences⟩ := exists_extract_consumerClass htypes hnamed
  obtain ⟨steps, hsteps, hdelivers⟩ := extract_delivers_thrown _ _ _ hreferences
  have hname : qualifiedName "java/io/IOException" = "java.io.IOException" := by decide +kernel
  have hfinds : FindsThrown (consumerMethod "(Lb/B;)V") ["java.io.IOException"] := by
    rw [← hname]
    exact @FindsThrown.listed _ (consumerSignature plainName) rfl (by decide +kernel) rfl
      (by decide +kernel)
  have hmethods := methodsNamed_consumerClass hsteps
  have hdelivered := hdelivers (qualifiedName "a/A") "m" "(Lb/B;)V"
    (fun _ => ["java.io.IOException"])
  rw [← consumerHandle, hmethods, List.forall_mem_singleton, List.flatMap_singleton] at hdelivered
  exact ⟨references, hreferences, hfinds,
    (hdelivered hfinds).eq_of_nodup (List.nodup_singleton _)⟩

/-- Where it has the mark, the exception is lost, though the signature has no throws clause. -/
theorem extract_consumerClass_loses_thrown :
    (consumerMethod "(Lb/B^C;)V").access.isSynthetic = false ∧
      (consumerMethod "(Lb/B^C;)V").signature =
        some (String.ofList (consumerSignature markedName).text) ∧
      (consumerSignature markedName).thrown = [] ∧
      (consumerMethod "(Lb/B^C;)V").exceptions = ["java/io/IOException"] ∧
      (extract .full (.ofList []) (consumerClass "(Lb/B^C;)V")).map
        (thrownBy (consumerHandle "(Lb/B^C;)V")) = .ok [] := by
  have hsignature : (consumerMethod "(Lb/B^C;)V").signature =
      some (String.ofList (consumerSignature markedName).text) := by decide +kernel
  have htypes : readMethodTypes "(Lb/B^C;)V" = .ok ⟨["b.B^C"], none, 1⟩ := by cbv
  have hnamed : readSignature .method "(Lb/B^C;)V" = .ok [⟨"b.B^C", .parameter⟩] := by cbv
  refine ⟨rfl, hsignature, rfl, rfl, ?_⟩
  obtain ⟨references, hreferences⟩ := exists_extract_consumerClass htypes hnamed
  obtain ⟨steps, hsteps, hdelivers⟩ := deliversThrown_steps hreferences
  have hlost : FindsThrown (consumerMethod "(Lb/B^C;)V") [] :=
    .lost rfl hsignature rfl (by decide +kernel)
  have hdelivered := hdelivers (qualifiedName "a/A") "m" "(Lb/B^C;)V"
  rw [← consumerHandle, methodsNamed_consumerClass hsteps, List.flatMap_singleton,
    hlost.recordedThrown_eq] at hdelivered
  rw [hreferences]
  exact congrArg Except.ok (hdelivered.eq_of_nodup List.nodup_nil)

end Linkage
