import Linkage.Proofs.UniverseGrowth
/-
Synthetic members in the way of look-ups.  A look-up along the super classes stops at the
first declaration of what a reference names, and only then is a synthetic member turned
down.  So the first declaration alone decides whether the reference has a target: a
synthetic one hides the others that come after it.
-/

namespace Linkage

/-- A class that declares what a reference names, and whether the member is synthetic. -/
structure Candidate where
  owner : ClassDecl
  isSynthetic : Bool
  deriving DecidableEq, Repr

/-- The fields of a class that have a name. -/
def ClassDecl.fieldsNamed (decl : ClassDecl) (name : String) : List FieldDecl :=
  decl.fields.filter (fun field => field.name = name)

/-- The methods of a class that have a name and descriptor. -/
def ClassDecl.methodsNamed (decl : ClassDecl) (name descriptor : String) : List MethodDecl :=
  decl.methods.filter (fun method => method.name = name && method.descriptor = descriptor)

/-- The declarations in a class of what a reference names, in order. -/
def ClassDecl.candidates (decl : ClassDecl) (reference : Reference) : List Candidate :=
  match reference.target, reference.memberName, reference.signature with
  | .field, some name, _ =>
      (decl.fieldsNamed name).map (fun field => ⟨decl, field.access.isSynthetic⟩)
  | .method, some name, some descriptor =>
      (decl.methodsNamed name descriptor).map (fun method => ⟨decl, method.access.isSynthetic⟩)
  | _, _, _ => []

/-- The declarations along a path of what a reference names, in the order of look-up. -/
def candidatesOn (path : List ClassDecl) (reference : Reference) : List Candidate :=
  path.flatMap (fun decl => decl.candidates reference)

/-- A call that its owner accepts with any descriptor. -/
def TakesAnyDescriptor (known : Universe) (reference : Reference) : Prop :=
  reference.kind = .virtualCall ∧
    ∃ name, reference.memberName = some name ∧ PolymorphicCall known reference.typeName name

theorem ClassDecl.findField_eq_head? (decl : ClassDecl) (name : String) :
    decl.findField name = (decl.fieldsNamed name).head? :=
  List.head?_filter.symm

theorem ClassDecl.findMethod_eq_head? (decl : ClassDecl) (name descriptor : String) :
    decl.findMethod name descriptor = (decl.methodsNamed name descriptor).head? :=
  List.head?_filter.symm

theorem flatMap_eq_cons {α β : Type} {images : α → List β} {items : List α} {first : β}
    {rest : List β} (h : items.flatMap images = first :: rest) :
    ∃ before item after more, items = before ++ item :: after ∧
      (∀ other ∈ before, images other = []) ∧ images item = first :: more := by
  induction items with
  | nil => cases h
  | cons item after ih =>
      cases hitem : images item with
      | nil =>
          rw [List.flatMap_cons, hitem, List.nil_append] at h
          obtain ⟨before, found, later, more, hsplit, hbefore, hfound⟩ := ih h
          exact ⟨item :: before, found, later, more, by rw [hsplit, List.cons_append],
            List.forall_mem_cons.mpr ⟨hitem, hbefore⟩, hfound⟩
      | cons image more =>
          rw [List.flatMap_cons, hitem, List.cons_append, List.cons.injEq] at h
          exact ⟨[], item, after, more, rfl, by simp, by rw [hitem, h.1]⟩

/-- The first declaration along a path is that of the nearest class that has one, and the
first of that class. -/
theorem candidatesOn_eq_cons {path : List ClassDecl} {reference : Reference}
    {first : Candidate} {rest : List Candidate}
    (h : candidatesOn path reference = first :: rest) :
    ∃ nearer farther more, path = nearer ++ first.owner :: farther ∧
      (∀ type ∈ nearer, type.candidates reference = []) ∧
      first.owner.candidates reference = first :: more := by
  obtain ⟨nearer, type, farther, more, hsplit, hnearer, htype⟩ := flatMap_eq_cons h
  have howner : first.owner = type := by
    have hmem : first ∈ type.candidates reference := by simp [htype]
    rw [ClassDecl.candidates] at hmem
    split at hmem
    · obtain ⟨field, -, rfl⟩ := List.mem_map.mp hmem
      rfl
    · obtain ⟨method, -, rfl⟩ := List.mem_map.mp hmem
      rfl
    · cases hmem
  subst howner
  exact ⟨nearer, farther, more, hsplit, hnearer, htype⟩

/-- The first declaration on a path is the first member of the class that is nearest. -/
theorem nearestOn_of_candidatesOn {α : Type} {reference : Reference}
    {declares : ClassDecl → Prop} {member? : ClassDecl → Option α}
    {members : ClassDecl → List α} {isSynthetic : α → Bool}
    (hcandidates : ∀ decl, decl.candidates reference =
      (members decl).map (fun member => ⟨decl, isSynthetic member⟩))
    (hhead : ∀ decl, member? decl = (members decl).head?)
    (hnone : ∀ decl, member? decl = none ↔ ¬ declares decl) {path : List ClassDecl}
    {first : Candidate} {rest : List Candidate} (h : candidatesOn path reference = first :: rest) :
    ∃ member, NearestOn path declares member? first.owner member ∧
      isSynthetic member = first.isSynthetic := by
  obtain ⟨nearer, farther, more, hsplit, hnearer, hfirst⟩ := candidatesOn_eq_cons h
  rw [hcandidates] at hfirst
  obtain ⟨member, others, hmembers, hmember, -⟩ := List.map_eq_cons_iff.mp hfirst
  refine ⟨member, ⟨nearer, farther, hsplit, fun type htype => ?_, ?_⟩, by rw [← hmember]⟩
  · have hempty := hnearer type htype
    rw [hcandidates, List.map_eq_nil_iff] at hempty
    rw [← hnone, hhead, hempty, List.head?_nil]
  · rw [hhead, hmembers, List.head?_cons]

section Fields

variable {reference : Reference} {name : String}

theorem ClassDecl.candidates_field (htarget : reference.target = .field)
    (hname : reference.memberName = some name) (decl : ClassDecl) :
    decl.candidates reference =
      (decl.fieldsNamed name).map (fun field => ⟨decl, field.access.isSynthetic⟩) := by
  simp only [candidates, htarget, hname]

theorem nearestField_of_candidatesOn (htarget : reference.target = .field)
    (hname : reference.memberName = some name) {path : List ClassDecl} {first : Candidate}
    {rest : List Candidate} (h : candidatesOn path reference = first :: rest) :
    ∃ field, NearestField path name ⟨first.owner, field⟩ ∧
      field.access.isSynthetic = first.isSynthetic :=
  nearestOn_of_candidatesOn (ClassDecl.candidates_field htarget hname)
    (fun decl => decl.findField_eq_head? name) (fun _ => ClassDecl.findField_eq_none_iff) h

end Fields

section Methods

variable {reference : Reference} {name descriptor : String}

theorem ClassDecl.candidates_method (htarget : reference.target = .method)
    (hname : reference.memberName = some name)
    (hdescriptor : reference.signature = some descriptor) (decl : ClassDecl) :
    decl.candidates reference = (decl.methodsNamed name descriptor).map
      (fun method => ⟨decl, method.access.isSynthetic⟩) := by
  simp only [candidates, htarget, hname, hdescriptor]

theorem nearestDeclaration_of_candidatesOn (htarget : reference.target = .method)
    (hname : reference.memberName = some name)
    (hdescriptor : reference.signature = some descriptor) {path : List ClassDecl}
    {first : Candidate} {rest : List Candidate}
    (h : candidatesOn path reference = first :: rest) :
    ∃ method, NearestDeclaration path name descriptor ⟨first.owner, method⟩ ∧
      method.access.isSynthetic = first.isSynthetic :=
  nearestOn_of_candidatesOn (ClassDecl.candidates_method htarget hname hdescriptor)
    (fun decl => decl.findMethod_eq_head? name descriptor)
    (fun _ => ClassDecl.findMethod_eq_none_iff) h

end Methods

namespace Resolution

variable {known : Universe} {owner name descriptor : String} {path : List ClassDecl}

theorem fieldTarget_isSome_iff {found : FoundField} (hpath : IsClassPath known owner path)
    (hnearest : NearestField path name found) :
    (fieldTarget known owner name).isSome ↔ found.field.access.isSynthetic = false := by
  have hfound := Universe.findField_eq_some_iff.mpr ⟨path, hpath, hnearest⟩
  simp only [fieldTarget, hfound]
  split <;> simp_all

theorem methodTarget_isSome_iff {kind : ReferenceKind} (hkind : kind ≠ .interfaceCall)
    {found : FoundMethod} (hpath : IsClassPath known owner path)
    (hnearest : NearestDeclaration path name descriptor found) :
    (methodTarget known kind owner name descriptor).isSome ↔
      (kind = .virtualCall ∧ PolymorphicCall known owner name) ∨
        found.method.access.isSynthetic = false := by
  by_cases hpolymorphic : kind = .virtualCall ∧ PolymorphicCall known owner name
  · obtain ⟨rfl, hcall⟩ := hpolymorphic
    simp [methodTarget, polymorphicTarget_eq_some hcall, hcall]
  · have hplain := polymorphicTarget_eq_none
      (Classical.not_and_iff_not_or_not.mp hpolymorphic) descriptor
    obtain ⟨other, hother, -, hlaws, -⟩ := findMethod_dispatch known owner name descriptor
    have hlaw := hlaws kind hkind
    rw [hother.unique hpath] at hlaw
    simp only [methodTarget, hplain, hlaw.nearest found hnearest, hpolymorphic, false_or]
    split <;> simp_all

/-- A reference that is no interface call has a target exactly if the first declaration on
the path of its owner is not synthetic; calls that take any descriptor always have one. -/
theorem target_isSome_iff_first (known : Universe) (reference : Reference)
    (hkind : reference.kind ≠ .interfaceCall) (path : List ClassDecl)
    (hpath : IsClassPath known reference.typeName path) (first : Candidate)
    (rest : List Candidate) (hfirst : candidatesOn path reference = first :: rest) :
    (target known reference).isSome ↔
      TakesAnyDescriptor known reference ∨ first.isSynthetic = false := by
  obtain ⟨nearer, farther, more, -, -, howner⟩ := candidatesOn_eq_cons hfirst
  rw [ClassDecl.candidates] at howner
  split at howner
  · rename_i name signature htarget hname
    -- A use of a field is no call, so no descriptor is left open.
    have hnone : ¬ TakesAnyDescriptor known reference := by
      rintro ⟨hvirtual, -⟩
      rw [Reference.target, hvirtual] at htarget
      cases htarget
    obtain ⟨field, hnearest, hsynthetic⟩ := nearestField_of_candidatesOn htarget hname hfirst
    simp only [target, htarget, hname, fieldTarget_isSome_iff hpath hnearest, hsynthetic, hnone,
      false_or]
  · rename_i name descriptor htarget hname hdescriptor
    have hany : TakesAnyDescriptor known reference ↔
        reference.kind = .virtualCall ∧ PolymorphicCall known reference.typeName name := by
      simp [TakesAnyDescriptor, hname]
    obtain ⟨method, hnearest, hsynthetic⟩ :=
      nearestDeclaration_of_candidatesOn htarget hname hdescriptor hfirst
    simp only [target, htarget, hname, hdescriptor, methodTarget_isSome_iff hkind hpath hnearest,
      hsynthetic, hany]
  · cases howner

end Resolution

/-! A class that overrides a method of its super class; one of the two methods is synthetic. -/

def copyMethod (isSynthetic : Bool) : MethodDecl where
  name := "copy"
  descriptor := "()Ljava/lang/Object;"
  access := { isPublic := true, isSynthetic }

def copiedBase (isSynthetic : Bool) : ClassDecl where
  name := "lib/Base"
  methods := [copyMethod isSynthetic]

def copiedChild (isSynthetic : Bool) : ClassDecl where
  name := "lib/Child"
  superName := some "lib/Base"
  methods := [copyMethod isSynthetic]

/-- A universe where the method of the child is synthetic, or else that of the base. -/
def copiedUniverse (inChild : Bool) : Universe :=
  .ofList [copiedBase (!inChild), copiedChild inChild]

def copyCall : Reference :=
  Reference.ofMethod (.method "app.Client" "run" "()V") "lib.Child" "copy"
    "()Ljava/lang/Object;" .virtualCall 0

theorem isClassPath_copiedChild (inChild : Bool) :
    IsClassPath (copiedUniverse inChild) copyCall.typeName
      [copiedChild inChild, copiedBase (!inChild)] := by
  have hchild : (copiedUniverse inChild).lookup "lib.Child" = some (copiedChild inChild) := by
    rw [copiedUniverse, Universe.lookup_ofList]
    cases inChild <;> decide +kernel
  have hbase : (copiedUniverse inChild).lookup "lib.Base" = some (copiedBase (!inChild)) := by
    rw [copiedUniverse, Universe.lookup_ofList]
    cases inChild <;> decide +kernel
  have hsuper : (copiedChild inChild).superName.map qualifiedName = some "lib.Base" := by
    cases inChild <;> decide +kernel
  refine .step (by simp) hchild ?_
  rw [hsuper]
  exact .step (by decide) hbase (.top _)

theorem candidatesOn_copyCall (inChild : Bool) :
    candidatesOn [copiedChild inChild, copiedBase (!inChild)] copyCall =
      [⟨copiedChild inChild, inChild⟩, ⟨copiedBase (!inChild), !inChild⟩] := by
  cases inChild <;> decide +kernel

/-- The synthetic method of the base is no obstacle to finding that of the child. -/
theorem target_copyCall_isSome :
    copyCall.kind ≠ .interfaceCall ∧
      IsClassPath (copiedUniverse false) copyCall.typeName [copiedChild false, copiedBase true] ∧
      candidatesOn [copiedChild false, copiedBase true] copyCall =
        [⟨copiedChild false, false⟩, ⟨copiedBase true, true⟩] ∧
      (Resolution.target (copiedUniverse false) copyCall).isSome :=
  ⟨by decide, isClassPath_copiedChild false, candidatesOn_copyCall false,
    (Resolution.target_isSome_iff_first _ copyCall (by decide) _ (isClassPath_copiedChild false) _
      _ (candidatesOn_copyCall false)).mpr (.inr rfl)⟩

/-- The synthetic method of the child hides that of the base, which is not synthetic. -/
theorem target_copyCall_eq_none :
    copyCall.kind = .virtualCall ∧
      IsClassPath (copiedUniverse true) copyCall.typeName [copiedChild true, copiedBase false] ∧
      ⟨copiedBase false, false⟩ ∈ candidatesOn [copiedChild true, copiedBase false] copyCall ∧
      Resolution.target (copiedUniverse true) copyCall = none := by
  have hpath := isClassPath_copiedChild true
  have hcandidates : candidatesOn [copiedChild true, copiedBase false] copyCall =
      [⟨copiedChild true, true⟩, ⟨copiedBase false, false⟩] := candidatesOn_copyCall true
  obtain ⟨method, hnearest, hsynthetic⟩ :=
    @nearestDeclaration_of_candidatesOn copyCall _ _ rfl rfl rfl _ _ _ hcandidates
  refine ⟨rfl, hpath, by rw [hcandidates]; simp, ?_⟩
  have hnone : ¬ PolymorphicCall (copiedUniverse true) copyCall.typeName "copy" :=
    fun hcall => absurd hcall.1 (by decide)
  have htarget : ¬ (Resolution.methodTarget (copiedUniverse true) .virtualCall
      copyCall.typeName "copy" "()Ljava/lang/Object;").isSome := by
    rw [Resolution.methodTarget_isSome_iff (by decide) hpath hnearest, hsynthetic]
    simp [hnone]
  rwa [Bool.not_eq_true, Option.isSome_eq_false_iff, Option.isNone_iff_eq_none] at htarget

end Linkage
