import Linkage.Proofs.Outlines
import Linkage.Proofs.SignatureRoles
import Linkage.Proofs.SuperTypes
/-
Generic headers.  The header of a class is read from its generic signature, or else from the
names of its super class and interfaces.  Where the signature is the text of a well-formed one
whose super types erase to these names, both readings give the same super types in the same
order, and so does extraction.
-/

namespace Linkage

namespace Signature

/-! Erasure of class types. -/

/-- The internal name of the class of a type: slashes follow the packages and a dollar sign
stands before the name of an inner class. -/
def ClassType.internalName : ClassType → List Char
  | .outer packages name _ =>
      packages.flatMap (fun package => package.text ++ ['/']) ++ name.text
  | .inner enclosing name _ => enclosing.internalName ++ '$' :: name.text

/-- The internal name of a class type as a text. -/
def ClassType.erasure (type : ClassType) : String := String.ofList type.internalName

theorem ClassType.intercalate_parts (type : ClassType) :
    List.intercalate ['$'] type.parts.reverse = type.internalName := by
  cases type with
  | outer packages name _ =>
      rw [ClassType.parts, List.reverse_singleton, List.intercalate_singleton,
        ClassType.internalName]
  | inner enclosing name _ =>
      rw [ClassType.parts, List.reverse_cons,
        intercalate_concat _ (by simp [enclosing.parts_ne_nil]), enclosing.intercalate_parts,
        ClassType.internalName, List.append_assoc, List.singleton_append]

/-- The erasure of a class type names the class that the type names. -/
theorem ClassType.qualifiedName_erasure (type : ClassType) :
    qualifiedName type.erasure = String.ofList type.name := by
  rw [← type.className_parts, className, type.intercalate_parts, erasure]

/-! The super types of a class signature. -/

theorem filter_supers_flatMap_named {role : ReferenceKind} (hrole : role ∈ superKinds)
    (types : List ClassType) :
    (types.flatMap (ClassType.named .parameterizedType role)).filter
        (fun type => type.kind ∈ superKinds) =
      types.map (fun type => ⟨String.ofList type.name, role⟩) := by
  rw [List.filter_flatMap, List.map_eq_flatMap]
  exact List.flatMap_congr fun type _ => type.filter_named (by decide) hrole

namespace ClassSignature

/-- The super types of a class signature, in order. -/
def superTypes (isInterface : Bool) (signature : ClassSignature) : List SignatureType :=
  let others := fun (role : ReferenceKind) =>
    signature.interfaces.map (fun type => (⟨String.ofList type.name, role⟩ : SignatureType))
  if isInterface then others .extendsType
  else ⟨String.ofList signature.superClass.name, .extendsType⟩ :: others .implementsType

/-- Of the classes that a class signature names, its super types are super types; those in
bounds and arguments are not. -/
theorem filter_supers_named (isInterface : Bool) (signature : ClassSignature) :
    (signature.named isInterface).filter (fun type => type.kind ∈ superKinds) =
      signature.superTypes isInterface := by
  have hbounds : (signature.parameters.flatMap (TypeParameter.named .parameterizedType)).filter
      (fun type => type.kind ∈ superKinds) = [] := by
    have htagged : Tagged [.parameterizedType]
        (signature.parameters.flatMap (TypeParameter.named .parameterizedType)) :=
      .flatMap fun parameter _ => parameter.tagged_named (List.mem_singleton_self _)
    exact htagged.filter_eq_nil (by decide)
  rw [named, superTypes]
  cases isInterface with
  | true =>
      simp only [if_true, List.filter_append, hbounds, List.nil_append]
      exact filter_supers_flatMap_named (by decide) signature.interfaces
  | false =>
      simp only [Bool.false_eq_true, if_false, List.filter_append, hbounds, List.nil_append]
      rw [signature.superClass.filter_named (by decide) (by decide),
        filter_supers_flatMap_named (by decide) signature.interfaces, List.singleton_append]

end ClassSignature

end Signature

/-! The super types that headers refer to. -/

/-- The super types of a class, by the names of its super class and interfaces. -/
def ClassDecl.superTypes (decl : ClassDecl) : List (ReferenceKind × String) :=
  let others := fun (kind : ReferenceKind) =>
    decl.interfaces.map (fun name => (kind, Linkage.qualifiedName name))
  if decl.access.isInterface then others .extendsType
  else decl.superName.toList.map (fun name => (.extendsType, Linkage.qualifiedName name))
    ++ others .implementsType

/-- The header of a class refers to given super types. -/
def HeaderNames (known : Universe) (decl : ClassDecl) (edges : List (ReferenceKind × String)) :
    Prop :=
  ∃ references, (TypeSite.of known decl).headerReferences = .ok references ∧
    superEdges decl.qualifiedName references = edges

/-- The class without its generic signature. -/
def ClassDecl.withoutSignature (decl : ClassDecl) : ClassDecl := { decl with signature := none }

/-- A class has a generic signature as its own, whose super types erase to the names of its
super class and interfaces. -/
structure Signature.ClassSignature.Describes (signature : ClassSignature) (decl : ClassDecl) :
    Prop where
  signature_eq : decl.signature = some (String.ofList signature.text)
  superName_eq : decl.superName = some signature.superClass.erasure
  interfaces_eq : decl.interfaces = signature.interfaces.map ClassType.erasure

section Headers
variable {known : Universe} {decl : ClassDecl}

theorem superEdges_typeReferences (glossary : Glossary) {kind : ReferenceKind}
    (hkind : kind ∈ superKinds) (typeName : String) (names : List String) :
    superEdges typeName (glossary.typeReferences (.type typeName) kind names) =
      names.map (fun name => (kind, qualifiedName name)) := by
  rw [superEdges, Glossary.typeReferences, List.filter_eq_self.mpr, List.map_map]
  · refine List.map_congr_left fun name _ => ?_
    rw [Function.comp_apply, Table.get_eq]
    rfl
  · intro reference hmem
    obtain ⟨name, -, rfl⟩ := List.mem_map.mp hmem
    exact Reference.namesSuper_eq_true_iff.mpr ⟨rfl, hkind⟩

/-- Without a signature a header refers to the super types that the class names. -/
theorem headerNames_of_none (h : decl.signature = none) :
    HeaderNames known decl decl.superTypes := by
  have hplain := fun (kind : ReferenceKind) (hkind : kind ∈ superKinds) =>
    superEdges_typeReferences (TypeSite.of known decl).glossary hkind decl.qualifiedName
  rw [HeaderNames, TypeSite.headerReferences, TypeSite.decl_of, h, ClassDecl.superTypes]
  cases decl.access.isInterface with
  | true => exact ⟨_, rfl, hplain .extendsType (by decide) decl.interfaces⟩
  | false => exact ⟨_, rfl, (superEdges_append _ _ _).trans (congrArg₂ (· ++ ·)
      (hplain .extendsType (by decide) _) (hplain .implementsType (by decide) _))⟩

theorem superEdges_signatureReferences (typeName signature : String)
    (types : List SignatureType) :
    superEdges typeName (signatureReferences (.type typeName) signature types) =
      (types.filter (fun type => type.kind ∈ superKinds)).map
        (fun type => (type.kind, type.typeName)) := by
  rw [superEdges, signatureReferences, List.filter_map, List.map_map]
  refine congrArg (List.map _) (List.filter_congr fun type _ => ?_)
  simp [Reference.namesSuper, Reference.ofSignature]

/-- A header with a signature that describes the class refers to the super types that the class
names. -/
theorem headerNames_of_describes {signature : Signature.ClassSignature}
    (h : signature.Describes decl) : HeaderNames known decl decl.superTypes := by
  have hread : readSignature (.type decl.access.isInterface) (String.ofList signature.text) =
      .ok (signature.named decl.access.isInterface) :=
    Signature.readSignature_text (.ofType decl.access.isInterface signature)
  have hsupers : (signature.superTypes decl.access.isInterface).map
      (fun type => (type.kind, type.typeName)) = decl.superTypes := by
    rw [Signature.ClassSignature.superTypes, ClassDecl.superTypes, h.superName_eq,
      h.interfaces_eq]
    cases decl.access.isInterface <;>
      simp [Signature.ClassType.qualifiedName_erasure, Function.comp_def]
  refine ⟨signatureReferences (.type decl.qualifiedName) (String.ofList signature.text)
    (signature.named decl.access.isInterface), ?_, ?_⟩
  · rw [TypeSite.headerReferences, TypeSite.decl_of, h.signature_eq]
    simp only [hread]
    rfl
  · rw [superEdges_signatureReferences, signature.filter_supers_named, hsupers]

end Headers

/-! Extraction with and without the signature. -/

section Extraction
variable {known : Universe} {decl : ClassDecl}

/-- The signature of a class does not matter for its members. -/
theorem membersAlike_withoutSignature (known : Universe) (decl : ClassDecl) :
    (TypeSite.of known decl).MembersAlike (TypeSite.of known decl.withoutSignature) where
  scope_eq := rfl
  superType_eq := rfl
  fields_eq := rfl
  methods_eq := rfl
  supportsDefaultMethods_eq := rfl
  calls_eq _ := rfl
  providers_eq _ := rfl

theorem HeaderNames.headerDrafts {edges : List (ReferenceKind × String)}
    (h : HeaderNames known decl edges) :
    ∃ drafts, (TypeSite.of known decl).headerDrafts = .ok drafts := by
  obtain ⟨references, hreferences, -⟩ := h
  exact ⟨_, by rw [TypeSite.headerDrafts, hreferences]; rfl⟩

/-- Classes whose headers can be read and whose members are alike fail alike. -/
theorem read_members_eq {twin : ClassDecl} {edges others : List (ReferenceKind × String)}
    (h : HeaderNames known decl edges) (htwin : HeaderNames known twin others)
    (halike : (TypeSite.of known decl).MembersAlike (TypeSite.of known twin)) :
    (OwnDrafts.read known decl).map OwnDrafts.members =
      (OwnDrafts.read known twin).map OwnDrafts.members := by
  obtain ⟨header, hheader⟩ := h.headerDrafts
  obtain ⟨other, hother⟩ := htwin.headerDrafts
  rw [← OwnDrafts.read_map known decl (fun _ members => members),
    ← OwnDrafts.read_map known twin (fun _ members => members), hheader, hother,
    halike.fieldsDrafts_eq, halike.methodsDrafts_eq]
  rfl

/-- Extraction delivers for a class the super types that its header refers to, then those of
types of its name below it. -/
theorem distinct_superEdges_of_headerNames {options : ExtractOptions}
    {edges : List (ReferenceKind × String)} (h : HeaderNames known decl edges)
    {references : List Reference} (hextract : extract options known decl = .ok references) :
    distinctBy id (superEdges decl.qualifiedName references) =
      distinctBy id (edges.filter (options.considersSuper (TypeSite.of known decl).scope) ++
        (nestedSteps known decl).flatMap
          (VisitStep.superEdges options decl.qualifiedName)) := by
  obtain ⟨header, hheader, rfl⟩ := h
  obtain ⟨own, -, hedges⟩ := distinct_superEdges_extract hextract decl.qualifiedName
  rw [hedges, VisitStep.superEdges_enter options own hheader]

/-- A class with a generic signature that describes it gives the same super types in the same
order as without the signature, and fails alike, in every universe and for all options: where no
type below the class has its name the sequences are the same, and otherwise they are when repeats
are left out. -/
theorem extract_keeps_superTypes (options : ExtractOptions) (known : Universe)
    {signature : Signature.ClassSignature} (h : signature.Describes decl) :
    (extract options known decl).map
        (fun references => distinctBy id (superEdges decl.qualifiedName references)) =
      (extract options known decl.withoutSignature).map
        (fun references => distinctBy id (superEdges decl.qualifiedName references)) ∧
    ((∀ inner ∈ (enteredTypes known decl).tail, inner.qualifiedName ≠ decl.qualifiedName) →
      (extract options known decl).map (superEdges decl.qualifiedName) =
        (extract options known decl.withoutSignature).map (superEdges decl.qualifiedName)) := by
  have hsigned : HeaderNames known decl decl.superTypes := headerNames_of_describes h
  have hplain : HeaderNames known decl.withoutSignature decl.superTypes :=
    headerNames_of_none rfl
  have hmembers := read_members_eq hsigned hplain (membersAlike_withoutSignature known decl)
  cases hread : OwnDrafts.read known decl with
  | error error =>
      rw [hread] at hmembers
      have herror := (extract_eq_error_iff options known _ error).mpr (map_eq_error hmembers.symm)
      rw [(extract_eq_error_iff options known decl error).mpr hread, herror]
      exact ⟨rfl, fun _ => rfl⟩
  | ok own =>
      rw [hread] at hmembers
      obtain ⟨twin, htwin, -⟩ := map_eq_ok hmembers.symm
      obtain ⟨references, hreferences⟩ := exists_extract_of_read options hread
      obtain ⟨others, hothers⟩ := exists_extract_of_read options htwin
      have hdistinct : distinctBy id (superEdges decl.qualifiedName references) =
          distinctBy id (superEdges decl.qualifiedName others) :=
        (distinct_superEdges_of_headerNames hsigned hreferences).trans
          (distinct_superEdges_of_headerNames hplain hothers).symm
      rw [hreferences, hothers]
      refine ⟨congrArg Except.ok hdistinct, fun hapart => congrArg Except.ok ?_⟩
      have hbelow : (enteredTypes known decl.withoutSignature).tail =
          (enteredTypes known decl).tail := by
        rw [enteredTypes_of_read hread, enteredTypes_of_read htwin]
        rfl
      have honce := nodup_superEdges hreferences hapart
      rw [← hbelow] at hapart
      have hothersOnce : (superEdges decl.qualifiedName others).Nodup :=
        @nodup_superEdges _ _ decl.withoutSignature _ hothers hapart
      rw [distinctBy_of_nodup id (by simpa using honce),
        distinctBy_of_nodup id (by simpa using hothersOnce)] at hdistinct
      exact hdistinct

end Extraction

/-! A class with arguments, an inner super class and an interface. -/

/-- A simple name of one letter. -/
def letterName (letter : Char) (h : letter ∉ Signature.reserved) : Signature.Identifier where
  text := [letter]
  nonempty := by simp
  avoids := by simpa using h

/-- A class type of one package, without arguments. -/
def plainType (package name : Signature.Identifier) : Signature.ClassType :=
  .outer [package] name .none

/-- The signature `<T::Lc/I;>Lb/B<TT;>.C<+Lc/X;>;Lc/I<*>;`. -/
def genericSignature : Signature.ClassSignature :=
  let b := letterName 'b' (by decide)
  let c := letterName 'c' (by decide)
  let i := letterName 'I' (by decide)
  let t := letterName 'T' (by decide)
  let enclosing : Signature.ClassType :=
    .outer [b] (letterName 'B' (by decide)) (.cons (.exact (.typeVariable t)) .none)
  let bound := Signature.ReferenceType.classType (plainType c (letterName 'X' (by decide)))
  { parameters := [⟨t, none, [.classType (plainType c i)]⟩]
    superClass :=
      .inner enclosing (letterName 'C' (by decide)) (.cons (.bounded .upper bound) .none)
    interfaces := [.outer [c] i (.cons .any .none)] }

def genericClass : ClassDecl where
  name := "a/A"
  superName := some "b/B$C"
  interfaces := ["c/I"]
  signature := some "<T::Lc/I;>Lb/B<TT;>.C<+Lc/X;>;Lc/I<*>;"

theorem genericSignature_describes : genericSignature.Describes genericClass where
  signature_eq := by decide +kernel
  superName_eq := by decide +kernel
  interfaces_eq := by decide +kernel

theorem nestedSteps_of_nil (known : Universe) {decl : ClassDecl} (h : decl.nestedTypes = []) :
    nestedSteps known decl = [] := by
  simp [nestedSteps, ClassDecl.children_eq, h]

theorem enteredTypes_tail_of_nil (known : Universe) {decl : ClassDecl}
    (h : decl.nestedTypes = []) : (enteredTypes known decl).tail = [] := by
  rw [enteredTypes, TypeTree.steps_of, nestedSteps_of_nil known h]
  cases OwnDrafts.read known decl <;> rfl

theorem superEdges_genericClass :
    (extract {} (.ofList []) genericClass.withoutSignature).map
        (superEdges genericClass.qualifiedName) =
      .ok [(.extendsType, "b.B$C"), (.implementsType, "c.I")] := by
  have hplain : HeaderNames (.ofList []) genericClass.withoutSignature genericClass.superTypes :=
    headerNames_of_none rfl
  obtain ⟨references, hreferences⟩ :=
    @exists_extract_of_bare {} (.ofList []) genericClass.withoutSignature rfl rfl rfl
  have honce := nodup_superEdges hreferences (by rw [enteredTypes_tail_of_nil _ rfl]; simp)
  have hdistinct := distinct_superEdges_of_headerNames hplain hreferences
  rw [distinctBy_of_nodup id (by simpa using honce), nestedSteps_of_nil _ rfl,
    distinctBy_eq_distinctAfter] at hdistinct
  rw [hreferences]
  exact congrArg Except.ok (hdistinct.trans (by decide +kernel))

theorem extract_genericClass_keeps_superTypes :
    genericSignature.Describes genericClass ∧
      (∀ inner ∈ (enteredTypes (.ofList []) genericClass).tail,
        inner.qualifiedName ≠ genericClass.qualifiedName) ∧
      (extract {} (.ofList []) genericClass).map (superEdges genericClass.qualifiedName) =
        .ok [(.extendsType, "b.B$C"), (.implementsType, "c.I")] := by
  have hapart : ∀ inner ∈ (enteredTypes (.ofList []) genericClass).tail,
      inner.qualifiedName ≠ genericClass.qualifiedName := by
    rw [enteredTypes_tail_of_nil _ rfl]
    exact fun inner hinner => absurd hinner List.not_mem_nil
  have hsame := (extract_keeps_superTypes {} (.ofList []) genericSignature_describes).2 hapart
  exact ⟨genericSignature_describes, hapart, hsame.trans superEdges_genericClass⟩

/-! A class whose name comes up again below it. -/

/-- The signature `Lb/B;`. -/
def baseSignature : Signature.ClassSignature where
  parameters := []
  superClass := plainType (letterName 'b' (by decide)) (letterName 'B' (by decide))
  interfaces := []

/-- The class that is known by the name, and the super type of both. -/
def namesakeClass : ClassDecl where
  name := "a/A"
  superName := some "b/B"

/-- A class that lists a member, which lists the name of the class. -/
def loopingClass (signature : Option String) : ClassDecl where
  name := "a/A"
  superName := some "b/B"
  signature := signature
  nestedTypes := [⟨"a/A$B", some "a/A", .member⟩]

def loopMember : ClassDecl where
  name := "a/A$B"
  nestedTypes := [⟨"a/A", some "a/A$B", .member⟩]

def loopUniverse : Universe := .ofList [loopMember, namesakeClass]

def loopTrees : NestedTrees :=
  .cons "a.A$B" (.node loopMember (.cons "a.A" (.node namesakeClass .nil) .nil)) .nil

theorem baseSignature_describes : baseSignature.Describes (loopingClass (some "Lb/B;")) where
  signature_eq := by decide +kernel
  superName_eq := by decide +kernel
  interfaces_eq := by decide +kernel

theorem children_loopingClass (signature : Option String) :
    (loopingClass signature).children = [⟨"a.A$B", .member⟩] := by
  have hname : qualifiedName "a/A$B" = "a.A$B" := by decide +kernel
  rw [ClassDecl.children_eq_singleton _ rfl (by simp [isDirectChild, loopingClass]), hname]

theorem children_loopMember : loopMember.children = [⟨"a.A", .member⟩] := by
  have hname : qualifiedName "a/A" = "a.A" := by decide +kernel
  rw [ClassDecl.children_eq_singleton _ rfl (by decide), hname]

theorem typeTree_loopingClass (signature : Option String) :
    TypeTree.of loopUniverse (loopingClass signature) =
      .node (loopingClass signature) loopTrees := by
  have hmember : loopUniverse.lookup "a.A$B" = some loopMember := by
    rw [loopUniverse, Universe.lookup_ofList]
    decide +kernel
  have hnamesake : loopUniverse.lookup "a.A" = some namesakeClass := by
    rw [loopUniverse, Universe.lookup_ofList]
    decide +kernel
  obtain ⟨member, hmember, hmemberDecl⟩ := Universe.lookup_eq_some_iff.mp hmember
  obtain ⟨namesake, hnamesake, hnamesakeDecl⟩ := Universe.lookup_eq_some_iff.mp hnamesake
  rw [TypeTree.of, ClassDecl.childNames_eq_singleton (children_loopingClass signature),
    NestedTrees.ofNames_cons_known hmember (by simp), hmemberDecl,
    ClassDecl.childNames_eq_singleton children_loopMember,
    NestedTrees.ofNames_cons_known hnamesake (by simp), hnamesakeDecl,
    ClassDecl.childNames_eq_nil (namesakeClass.children_eq_nil rfl)]
  simp only [NestedTrees.ofNames_nil, loopTrees]

/-- The entry for the super type, with the signature that it is read from. -/
def baseEntry (signature : Option String) : Entry :=
  ExtractOptions.record {} { name := qualifiedName "a/A" } (.ofReference
    { Reference.ofType (.type (qualifiedName "a/A")) (qualifiedName "b/B") .extendsType with
      signature := signature })

theorem headerEntries_namesakeClass (known : Universe) :
    headerEntries {} (TypeSite.of known namesakeClass) = .ok [baseEntry none] := by
  simp [headerEntries, TypeSite.headerReferences, TypeSite.annotationReferences, TypeSite.decl_of,
    namesakeClass, Glossary.typeReferences, bind, Except.bind, pure, Except.pure]
  rfl

theorem headerEntries_loopMember (known : Universe) :
    headerEntries {} (TypeSite.of known loopMember) = .ok [] := by
  simp [headerEntries, TypeSite.headerReferences, TypeSite.annotationReferences, TypeSite.decl_of,
    loopMember, Glossary.typeReferences, bind, Except.bind, pure, Except.pure]

theorem headerEntries_loopingClass (known : Universe) {signature : Option String}
    (h : signature ∈ [none, some "Lb/B;"]) :
    headerEntries {} (TypeSite.of known (loopingClass signature)) = .ok [baseEntry signature] := by
  have hread : readSignature (.type false) "Lb/B;" =
      .ok [⟨qualifiedName "b/B", .extendsType⟩] := by cbv
  simp only [List.mem_cons, List.not_mem_nil, or_false] at h
  rcases h with rfl | rfl
  · simp [headerEntries, TypeSite.headerReferences, TypeSite.annotationReferences,
      TypeSite.decl_of, loopingClass, Glossary.typeReferences, bind, Except.bind, pure,
      Except.pure]
    rfl
  · simp [headerEntries, TypeSite.headerReferences, TypeSite.annotationReferences,
      TypeSite.decl_of, loopingClass, hread, signatureReferences, Glossary.typeReferences, bind,
      Except.bind, pure, Except.pure]
    rfl

/-- The entries of a class without members are those of its header and of what is nested in it. -/
theorem entries_of_header {known : Universe} {decl : ClassDecl} {nested : NestedTrees}
    {header : List Entry} (hfields : decl.fields = []) (hmethods : decl.methods = [])
    (hheader : headerEntries {} (TypeSite.of known decl) = .ok header) :
    (TypeTree.node decl nested).entries {} known =
      .ok (decl.children.foldl (TypeEntries.addChild (nested.addEntries {} known ∅))
        { entries := header.toArray }).entries := by
  rw [TypeTree.entries, hheader, hfields, hmethods]
  rfl

theorem entries_loopingClass (known : Universe) {signature : Option String}
    (h : signature ∈ [none, some "Lb/B;"]) :
    (TypeTree.node (loopingClass signature) loopTrees).entries {} known =
      .ok #[baseEntry signature, baseEntry none] := by
  have hnamesake := @entries_of_header known namesakeClass .nil _ rfl rfl
    (headerEntries_namesakeClass known)
  have hmember := @entries_of_header known loopMember
    (.cons "a.A" (.node namesakeClass .nil) .nil) _ rfl rfl (headerEntries_loopMember known)
  rw [namesakeClass.children_eq_nil rfl] at hnamesake
  rw [children_loopMember] at hmember
  simp only [NestedTrees.addEntries, hnamesake, List.foldl_cons, List.foldl_nil,
    TypeEntries.addChild] at hmember
  rw [entries_of_header rfl rfl (headerEntries_loopingClass known h), children_loopingClass]
  simp only [loopTrees, NestedTrees.addEntries, hmember, List.foldl_cons, List.foldl_nil,
    TypeEntries.addChild]
  simp

theorem superEdges_loopingClass {signature : Option String}
    (h : signature ∈ [none, some "Lb/B;"]) :
    (extract {} loopUniverse (loopingClass signature)).map (superEdges (qualifiedName "a/A")) =
      .ok ((distinctBy Entry.repeatKey [baseEntry signature, baseEntry none]).map
        (fun entry => entry.reference.superEdge)) := by
  rw [extract, typeTree_loopingClass, entries_loopingClass _ h]
  have hplain : SupersPlain [baseEntry signature, baseEntry none] := by
    intro entry hentry _
    simp only [List.mem_cons, List.not_mem_nil, or_false] at hentry
    rcases hentry with rfl | rfl <;> rfl
  have hall : supersAmong (qualifiedName "a/A") [baseEntry signature, baseEntry none] =
      [baseEntry signature, baseEntry none] := by
    simp only [List.mem_cons, List.not_mem_nil, or_false] at h
    rcases h with rfl | rfl <;> decide +kernel
  refine congrArg Except.ok ((superEdges_delivered {} _ hplain).trans ?_)
  rw [hall]

/-- Where a type below the class has its name, the signature keeps a repeat from being left out. -/
theorem extract_loopingClass_repeats_superType :
    baseSignature.Describes (loopingClass (some "Lb/B;")) ∧
      (extract {} loopUniverse (loopingClass (some "Lb/B;"))).map
          (superEdges (loopingClass (some "Lb/B;")).qualifiedName) ≠
        (extract {} loopUniverse (loopingClass (some "Lb/B;")).withoutSignature).map
          (superEdges (loopingClass (some "Lb/B;")).qualifiedName) := by
  refine ⟨baseSignature_describes, fun hsame => ?_⟩
  have hsigned := superEdges_loopingClass (by simp : some "Lb/B;" ∈ [none, some "Lb/B;"])
  have hplain := superEdges_loopingClass (by simp : none ∈ [none, some "Lb/B;"])
  change (extract {} loopUniverse (loopingClass (some "Lb/B;"))).map
    (superEdges (qualifiedName "a/A")) = (extract {} loopUniverse (loopingClass none)).map
      (superEdges (qualifiedName "a/A")) at hsame
  rw [hsigned, hplain, distinctBy_eq_distinctAfter, distinctBy_eq_distinctAfter] at hsame
  exact absurd (congrArg List.length (Except.ok.inj hsame)) (by decide +kernel)

end Linkage
