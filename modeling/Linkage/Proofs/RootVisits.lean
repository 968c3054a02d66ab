import Linkage.ClassFile.Load
import Linkage.Proofs.Visits
import Mathlib.Data.List.Perm.Basic
import Mathlib.Order.WellFoundedSet
/-
Visits from the roots.  One rule says which classes of a list are roots, another
which listed types are nested directly in a class.  Where the classes agree on how
they are nested, the two rules fit together: the visits from the roots enter every
class of the list once.
-/

namespace Linkage

/-! The type around a nested type. -/

theorem exists_split_of_dropWhile {mark first : Char} {text tail : List Char}
    (h : text.dropWhile (· ≠ mark) = first :: tail) :
    ∃ start, text = start ++ mark :: tail ∧ mark ∉ start := by
  induction text with
  | nil => cases h
  | cons head rest ih =>
      by_cases heq : head = mark
      · subst heq
        rw [List.dropWhile_cons_of_neg (by simp), List.cons.injEq] at h
        exact ⟨[], by rw [h.2, List.nil_append], List.not_mem_nil⟩
      · rw [List.dropWhile_cons_of_pos (by simpa using heq)] at h
        obtain ⟨start, rfl, hstart⟩ := ih h
        exact ⟨head :: start, rfl, by simp [Ne.symm heq, hstart]⟩

theorem beforeLast_eq_some_iff {mark : Char} {text head : List Char} :
    beforeLast mark text = some head ↔ ∃ rest, text = head ++ mark :: rest ∧ mark ∉ rest := by
  constructor
  · intro h
    rw [beforeLast] at h
    split at h
    · cases h
    · rename_i first tail hdrop
      cases h
      obtain ⟨start, hsplit, hstart⟩ := exists_split_of_dropWhile hdrop
      refine ⟨start.reverse, ?_, by simpa using hstart⟩
      rw [← List.reverse_reverse text, hsplit]
      simp
  · rintro ⟨rest, rfl, hrest⟩
    have hdrop : (rest.reverse ++ mark :: head.reverse).dropWhile (· ≠ mark) =
        mark :: head.reverse := by
      rw [List.dropWhile_append_of_pos]
      · simp
      · intro other hother
        rw [List.mem_reverse] at hother
        simpa using fun heq : other = mark => hrest (heq ▸ hother)
    rw [beforeLast, List.reverse_append, List.reverse_cons, List.append_assoc,
      List.singleton_append, hdrop]
    simp

theorem outerByDollar_eq_some_iff {name outer : String} :
    outerByDollar name = some outer ↔
      ∃ rest, name.toList = outer.toList ++ '$' :: rest ∧ '$' ∉ rest := by
  rw [← beforeLast_eq_some_iff, outerByDollar, Option.map_eq_some_iff]
  constructor
  · rintro ⟨head, hhead, rfl⟩
    rw [hhead, String.toList_ofList]
  · intro hhead
    exact ⟨_, hhead, String.ofList_toList⟩

/-- The type around a listed type, as it says or else by its name. -/
def NestedType.enclosing? (nested : NestedType) : Option String :=
  nested.outerName.or (outerByDollar nested.name)

theorem isDirectChild_iff {decl : ClassDecl} {nested : NestedType} :
    isDirectChild decl nested = true ↔
      nested.name ≠ decl.name ∧ nested.enclosing? = some decl.name := by
  rw [isDirectChild, NestedType.enclosing?]
  by_cases hname : nested.name = decl.name
  · simp [hname]
  · rw [if_neg hname]
    cases nested.outerName with
    | some outer => simp [hname]
    | none =>
        rw [Option.none_or, outerByDollar_eq_some_iff]
        simp only [← dropStart_eq_some_iff, ne_eq, hname, not_false_eq_true, true_and]
        cases hdrop : dropStart decl.name.toList nested.name.toList with
        | none => simp
        | some tail =>
            cases tail with
            | nil => simp
            | cons first rest =>
                by_cases hfirst : first = '$'
                · simp [hfirst]
                · simp [hfirst]

theorem enclosingName?_eq {decl : ClassDecl} {nesting : NestedType}
    (hnesting : decl.nesting = some nesting) (hname : nesting.name = decl.name) :
    enclosingName? decl = nesting.enclosing? := by
  rw [enclosingName?, hnesting, NestedType.enclosing?, hname]
  rcases nesting with ⟨name, outer, kind⟩
  cases outer <;> rfl

/-- The nesting of every class carries the name of the class. -/
def NestingNamed (classes : List ClassDecl) : Prop :=
  ∀ decl ∈ classes, ∀ nesting ∈ decl.nesting, nesting.name = decl.name

/-- A loaded class has the artifact it is loaded for, and its nesting is the last that its
class file lists under its name. -/
theorem fields_of_load {bytes : List UInt8} {artifact : Int} {decl : ClassDecl}
    (h : ClassFile.load bytes artifact = .ok decl) :
    decl.artifact = artifact ∧ ∃ nested : List NestedType,
      decl.nesting = nested.reverse.find? (fun entry => entry.name = decl.name) := by
  obtain ⟨layout, -, h⟩ := bind_eq_ok h
  obtain ⟨name, -, h⟩ := bind_eq_ok h
  obtain ⟨superName, -, h⟩ := bind_eq_ok h
  obtain ⟨interfaces, -, h⟩ := bind_eq_ok h
  obtain ⟨nested, -, h⟩ := bind_eq_ok h
  obtain ⟨signature, -, h⟩ := bind_eq_ok h
  obtain ⟨annotations, -, h⟩ := bind_eq_ok h
  obtain ⟨fields, -, h⟩ := bind_eq_ok h
  obtain ⟨methods, -, h⟩ := bind_eq_ok h
  cases h
  exact ⟨rfl, nested, rfl⟩

/-- The nesting of a class that is loaded from a class file carries the name of the class. -/
theorem nestingNamed_of_load {classes : List ClassDecl}
    (h : ∀ decl ∈ classes, ∃ bytes artifact, ClassFile.load bytes artifact = .ok decl) :
    NestingNamed classes := by
  intro decl hdecl nesting hnesting
  obtain ⟨bytes, artifact, hload⟩ := h decl hdecl
  obtain ⟨-, nested, hnested⟩ := fields_of_load hload
  rw [hnested] at hnesting
  simpa using List.find?_some (Option.mem_def.mp hnesting)

/-! Classes that agree on how they are nested. -/

/-- A class of a list is the type around another. -/
structure Encloses (classes : List ClassDecl) (outer inner : ClassDecl) : Prop where
  outer_mem : outer ∈ classes
  inner_mem : inner ∈ classes
  name_eq : enclosingName? inner = some outer.name

/-- Classes of distinct names that agree on how they are nested. -/
structure ConsistentNesting (classes : List ClassDecl) : Prop where
  names_nodup : (classes.map ClassDecl.qualifiedName).Nodup
  /-- The type around a class lists the nesting of the class once. -/
  listed_once : ∀ outer ∈ classes, ∀ inner ∈ classes, ∀ nesting ∈ inner.nesting,
    enclosingName? inner = some outer.name → outer.nestedTypes.count nesting = 1
  /-- What a class lists as nested directly is the nesting of that type. -/
  nesting_eq : ∀ outer ∈ classes, ∀ nested ∈ outer.nestedTypes,
    isDirectChild outer nested = true → ∀ inner ∈ classes,
      inner.qualifiedName = qualifiedName nested.name → inner.nesting = some nested
  /-- No class lies around itself. -/
  acyclic : ∀ decl, ¬ Relation.TransGen (Encloses classes) decl decl

namespace ConsistentNesting

variable {classes : List ClassDecl} (h : ConsistentNesting classes)

include h

theorem eq_of_qualifiedName {decl other : ClassDecl} (hdecl : decl ∈ classes)
    (hother : other ∈ classes) (hname : decl.qualifiedName = other.qualifiedName) :
    decl = other :=
  List.inj_on_of_nodup_map h.names_nodup hdecl hother hname

theorem eq_of_name {decl other : ClassDecl} (hdecl : decl ∈ classes)
    (hother : other ∈ classes) (hname : decl.name = other.name) : decl = other :=
  h.eq_of_qualifiedName hdecl hother (congrArg qualifiedName hname)

theorem lookup_eq_some_iff {name : String} {decl : ClassDecl} :
    (Universe.ofList classes).lookup name = some decl ↔
      decl ∈ classes ∧ decl.qualifiedName = name := by
  rw [Universe.lookup_ofList]
  constructor
  · intro hfind
    exact ⟨List.mem_of_find?_eq_some hfind, by simpa using List.find?_some hfind⟩
  · rintro ⟨hdecl, rfl⟩
    cases hfind : classes.find? (fun other => other.qualifiedName = decl.qualifiedName) with
    | none => simpa using List.find?_eq_none.mp hfind decl hdecl
    | some other =>
        have hname : other.qualifiedName = decl.qualifiedName := by
          simpa using List.find?_some hfind
        rw [h.eq_of_qualifiedName (List.mem_of_find?_eq_some hfind) hdecl hname]

theorem mem_of_nestsDirectly {outer inner : ClassDecl}
    (hnested : NestsDirectly (.ofList classes) outer inner) : inner ∈ classes := by
  obtain ⟨child, -, hlookup⟩ := hnested
  exact (h.lookup_eq_some_iff.mp hlookup).1

/-- The two rules agree: a class lists another as nested directly exactly if it is the type
around it. -/
theorem child?_lookup_iff (hnamed : NestingNamed classes) {outer inner : ClassDecl}
    (houter : outer ∈ classes) {nested : NestedType} (hnested : nested ∈ outer.nestedTypes) :
    (outer.child? nested).bind (fun child => (Universe.ofList classes).lookup child.name) =
        some inner ↔
      Encloses classes outer inner ∧ inner.nesting = some nested := by
  rw [ClassDecl.child?]
  constructor
  · intro hfound
    split at hfound
    · rename_i hchild
      rw [Option.bind_some, h.lookup_eq_some_iff] at hfound
      obtain ⟨hinner, hname⟩ := hfound
      have hnesting := h.nesting_eq outer houter nested hnested hchild inner hinner hname
      have hownName := hnamed inner hinner nested hnesting
      refine ⟨⟨houter, hinner, ?_⟩, hnesting⟩
      rw [enclosingName?_eq hnesting hownName]
      exact (isDirectChild_iff.mp hchild).2
    · cases hfound
  · rintro ⟨hencloses, hnesting⟩
    have hownName := hnamed inner hencloses.inner_mem nested hnesting
    have hchild : isDirectChild outer nested = true := by
      rw [isDirectChild_iff, ← enclosingName?_eq hnesting hownName]
      refine ⟨fun hname => ?_, hencloses.name_eq⟩
      have hsame := h.eq_of_name hencloses.inner_mem houter (hownName.symm.trans hname)
      subst hsame
      exact h.acyclic inner (.single hencloses)
    rw [if_pos hchild, Option.bind_some, h.lookup_eq_some_iff, hownName]
    exact ⟨hencloses.inner_mem, rfl⟩

theorem encloses_of_nestsDirectly (hnamed : NestingNamed classes) {outer inner : ClassDecl}
    (houter : outer ∈ classes) (hnested : NestsDirectly (.ofList classes) outer inner) :
    Encloses classes outer inner := by
  obtain ⟨child, hchild, hlookup⟩ := hnested
  rw [ClassDecl.children_eq] at hchild
  obtain ⟨nested, hmem, hchild⟩ := List.mem_filterMap.mp hchild
  have hfound : (outer.child? nested).bind (fun child =>
      (Universe.ofList classes).lookup child.name) = some inner := by
    rw [hchild, Option.bind_some, hlookup]
  exact ((h.child?_lookup_iff hnamed houter hmem).mp hfound).1

theorem acyclicNesting (hnamed : NestingNamed classes) : AcyclicNesting (.ofList classes) := by
  have hpath : ∀ {outer inner}, outer ∈ classes →
      Relation.TransGen (NestsDirectly (.ofList classes)) outer inner →
        inner ∈ classes ∧ Relation.TransGen (Encloses classes) outer inner := by
    intro outer inner houter hnests
    induction hnests with
    | single hnested =>
        have hencloses := h.encloses_of_nestsDirectly hnamed houter hnested
        exact ⟨hencloses.inner_mem, .single hencloses⟩
    | tail _ hnested ih =>
        have hencloses := h.encloses_of_nestsDirectly hnamed ih.1 hnested
        exact ⟨hencloses.inner_mem, .tail ih.2 hencloses⟩
  intro decl hcycle
  have hdecl : decl ∈ classes := by
    cases hcycle with
    | single hnested => exact h.mem_of_nestsDirectly hnested
    | tail _ hnested => exact h.mem_of_nestsDirectly hnested
  exact h.acyclic decl (hpath hdecl hcycle).2

end ConsistentNesting

/-! The types that a visit enters. -/

theorem NestedTrees.stepsOf_eq_lastOf {known : Universe} (nested : NestedTrees)
    (name : String) :
    nested.stepsOf known name =
      nested.lastOf (fun tree => (tree.steps known).toOption) name := by
  cases nested with
  | nil => rfl
  | cons other tree rest => rw [stepsOf, lastOf, stepsOf_eq_lastOf rest name]

/-- The known types nested directly in a class, as often as it lists them. -/
def knownChildren (known : Universe) (decl : ClassDecl) : List ClassDecl :=
  decl.children.filterMap (fun child => known.lookup child.name)

theorem flatMap_knownChildren {β : Type} (known : Universe) (decl : ClassDecl)
    (f : ClassDecl → List β) :
    (knownChildren known decl).flatMap f =
      decl.children.flatMap (fun child => (known.lookup child.name).toList.flatMap f) := by
  rw [knownChildren, List.filterMap_eq_flatMap_toList, List.flatMap_assoc]

theorem mem_knownChildren {known : Universe} {outer inner : ClassDecl} :
    inner ∈ knownChildren known outer ↔ NestsDirectly known outer inner :=
  List.mem_filterMap

/-- The types that the visit of a class enters, in order; none if the visit fails. -/
def enteredTypes (known : Universe) (decl : ClassDecl) : List ClassDecl :=
  (((TypeTree.of known decl).steps known).toOption.getD []).filterMap VisitStep.entered?

/-- A visit enters the class, and then what the visits of its children enter. -/
theorem enteredTypes_eq {known : Universe} (hacyclic : AcyclicNesting known)
    {decl : ClassDecl} {steps : List (VisitStep known)}
    (h : (TypeTree.of known decl).steps known = .ok steps) :
    enteredTypes known decl =
      decl :: (knownChildren known decl).flatMap (enteredTypes known) := by
  have hnested : ∀ child ∈ decl.children,
      (((NestedTrees.ofNames known ∅ decl.childNames).stepsOf known child.name).getD []).filterMap
          VisitStep.entered? =
        (known.lookup child.name).toList.flatMap (enteredTypes known) := by
    intro child hchild
    have hmem : child.name ∈ decl.childNames := mem_childNames.mpr ⟨child, hchild, rfl⟩
    rw [NestedTrees.stepsOf_eq_lastOf, NestedTrees.lastOf_ofNames hacyclic, if_pos hmem]
    cases known.lookup child.name with
    | none => rfl
    | some inner => simp [enteredTypes]
  have hentered : enteredTypes known decl = steps.filterMap VisitStep.entered? := by
    rw [enteredTypes, h]
    rfl
  rw [TypeTree.of, TypeTree.steps] at h
  obtain ⟨own, -, rfl⟩ := map_eq_ok h
  rw [hentered, flatMap_knownChildren, ← List.flatMap_congr hnested]
  simp [VisitStep.entered?, List.filterMap_flatMap]

/-- Extraction of a class succeeds exactly if its visit does. -/
theorem exists_steps_iff (options : ExtractOptions) (known : Universe) (decl : ClassDecl) :
    (∃ references, extract options known decl = .ok references) ↔
      ∃ steps, (TypeTree.of known decl).steps known = .ok steps := by
  rw [extract_eq_ok_iff, TypeTree.records_eq_steps]
  cases (TypeTree.of known decl).steps known <;> simp [Except.map]

/-- If the list below each item consists of the item and the children of that list, the list
below all items consists of the items and the children of that list. -/
theorem flatMap_perm_append {α : Type} {items : List α} {below children : α → List α}
    (h : ∀ item ∈ items, (below item).Perm (item :: (below item).flatMap children)) :
    (items.flatMap below).Perm (items ++ (items.flatMap below).flatMap children) := by
  have hsplit := List.map_append_flatMap_perm items id
    (fun item => (below item).flatMap children)
  rw [List.map_id, ← List.flatMap_assoc] at hsplit
  exact (List.Perm.flatMap_left items h).trans hsplit.symm

/-- Classes that agree on how they are nested, and whose visits succeed. -/
structure VisitableClasses (classes : List ClassDecl) : Prop extends
    ConsistentNesting classes where
  named : NestingNamed classes
  visits : ∀ decl ∈ classes,
    ∃ steps, (TypeTree.of (.ofList classes) decl).steps (.ofList classes) = .ok steps

namespace VisitableClasses

variable {classes : List ClassDecl} (h : VisitableClasses classes)

include h

/-- A class is among the children of the type around it, once, and of no other. -/
theorem count_knownChildren {outer inner : ClassDecl} (houter : outer ∈ classes)
    (hinner : inner ∈ classes) :
    (knownChildren (.ofList classes) outer).count inner =
      if enclosingName? inner = some outer.name then 1 else 0 := by
  rw [knownChildren, ClassDecl.children_eq, List.filterMap_filterMap, List.count_filterMap]
  have hlisted : ∀ nested ∈ outer.nestedTypes,
      ((outer.child? nested).bind (fun child => (Universe.ofList classes).lookup child.name)
        == some inner) = true ↔ Encloses classes outer inner ∧ inner.nesting = some nested := by
    intro nested hnested
    rw [beq_iff_eq]
    exact h.child?_lookup_iff h.named houter hnested
  split
  · rename_i hname
    obtain ⟨nesting, hnesting⟩ : ∃ nesting, inner.nesting = some nesting := by
      cases hnesting : inner.nesting with
      | none => simp [enclosingName?, hnesting] at hname
      | some nesting => exact ⟨nesting, rfl⟩
    rw [← h.listed_once outer houter inner hinner nesting hnesting hname, List.count]
    apply List.countP_congr
    intro nested hnested
    rw [hlisted nested hnested, hnesting, beq_iff_eq, Option.some.injEq, eq_comm]
    exact and_iff_right ⟨houter, hinner, hname⟩
  · rename_i hname
    rw [List.countP_eq_zero]
    intro nested hnested hfound
    exact hname ((hlisted nested hnested).mp hfound).1.name_eq

theorem entered_eq {decl : ClassDecl} (hdecl : decl ∈ classes) :
    enteredTypes (.ofList classes) decl =
      decl :: (knownChildren (.ofList classes) decl).flatMap (enteredTypes (.ofList classes)) := by
  obtain ⟨steps, hsteps⟩ := h.visits decl hdecl
  exact enteredTypes_eq (h.acyclicNesting h.named) hsteps

theorem mem_of_entered {root decl : ClassDecl} (hroot : root ∈ classes)
    (hdecl : decl ∈ enteredTypes (.ofList classes) root) : decl ∈ classes := by
  rw [h.entered_eq hroot, List.mem_cons, List.mem_flatMap] at hdecl
  rcases hdecl with rfl | ⟨inner, hinner, hdecl⟩
  · exact hroot
  · have hnested := mem_knownChildren.mp hinner
    have hsize := sizeOf_typeTree_lt (h.acyclicNesting h.named) hnested
    exact mem_of_entered (h.mem_of_nestsDirectly hnested) hdecl
termination_by sizeOf (TypeTree.of (.ofList classes) root)
decreasing_by exact hsize

/-- What a visit enters besides the class are the children of what it enters. -/
theorem entered_perm {root : ClassDecl} (hroot : root ∈ classes) :
    (enteredTypes (.ofList classes) root).Perm
      (root :: (enteredTypes (.ofList classes) root).flatMap
        (knownChildren (.ofList classes))) := by
  have hinner : ∀ inner ∈ knownChildren (.ofList classes) root,
      (enteredTypes (.ofList classes) inner).Perm
        (inner :: (enteredTypes (.ofList classes) inner).flatMap
          (knownChildren (.ofList classes))) := by
    intro inner hinner
    have hnested := mem_knownChildren.mp hinner
    have hsize := sizeOf_typeTree_lt (h.acyclicNesting h.named) hnested
    exact entered_perm (h.mem_of_nestsDirectly hnested)
  rw [h.entered_eq hroot, List.flatMap_cons]
  exact (flatMap_perm_append hinner).cons root
termination_by sizeOf (TypeTree.of (.ofList classes) root)
decreasing_by exact hsize

end VisitableClasses

/-! The visits from the roots. -/

theorem isRoot_iff {classes : List ClassDecl} {decl : ClassDecl} :
    isRoot (classes.map ClassDecl.name) decl = true ↔
      ∀ outer ∈ classes, enclosingName? decl ≠ some outer.name := by
  rw [isRoot]
  cases enclosingName? decl with
  | none => simp
  | some name => simp [eq_comm]

theorem mem_rootTypes {classes : List ClassDecl} {decl : ClassDecl} :
    decl ∈ rootTypes classes ↔
      decl ∈ classes ∧ ∀ outer ∈ classes, enclosingName? decl ≠ some outer.name := by
  rw [rootTypes, sortByName, (sortByNames_perm _ _).mem_iff, List.mem_filter, isRoot_iff]

/-- The types that the visits from the roots of a list enter. -/
def enteredFromRoots (classes : List ClassDecl) : List ClassDecl :=
  (rootTypes classes).flatMap (enteredTypes (.ofList classes))

namespace VisitableClasses

variable {classes : List ClassDecl} (h : VisitableClasses classes)

include h

theorem nodup : classes.Nodup :=
  h.names_nodup.of_map _

theorem nodup_rootTypes : (rootTypes classes).Nodup :=
  (sortByNames_perm _ _).nodup_iff.mpr (h.nodup.filter _)

theorem mem_of_enteredFromRoots {decl : ClassDecl} (hdecl : decl ∈ enteredFromRoots classes) :
    decl ∈ classes := by
  obtain ⟨root, hroot, hdecl⟩ := List.mem_flatMap.mp hdecl
  exact h.mem_of_entered (mem_rootTypes.mp hroot).1 hdecl

theorem enteredFromRoots_perm : (enteredFromRoots classes).Perm
    (rootTypes classes ++
      (enteredFromRoots classes).flatMap (knownChildren (.ofList classes))) :=
  flatMap_perm_append (fun _ hroot => h.entered_perm (mem_rootTypes.mp hroot).1)

/-- A class is a child as often as the type around it occurs. -/
theorem count_flatMap_knownChildren {decl : ClassDecl} (hdecl : decl ∈ classes)
    {types : List ClassDecl} (htypes : ∀ type ∈ types, type ∈ classes) :
    (types.flatMap (knownChildren (.ofList classes))).count decl =
      types.countP (fun type => enclosingName? decl = some type.name) := by
  induction types with
  | nil => rfl
  | cons type rest ih =>
      rw [List.forall_mem_cons] at htypes
      rw [List.flatMap_cons, List.count_append, h.count_knownChildren htypes.1 hdecl,
        ih htypes.2, List.countP_cons]
      simp [Nat.add_comm]

theorem wellFoundedOn_encloses : {decl | decl ∈ classes}.WellFoundedOn
    (Relation.TransGen (Encloses classes)) := by
  have hstrict : IsStrictOrder ClassDecl (Relation.TransGen (Encloses classes)) :=
    { irrefl := h.acyclic
      trans := fun _ _ _ => Relation.TransGen.trans }
  exact (List.finite_toSet classes).wellFoundedOn

/-- Every class of the list is entered once: as a root, or as a child of the type around
it. -/
theorem count_enteredFromRoots {decl : ClassDecl} (hdecl : decl ∈ classes) :
    (enteredFromRoots classes).count decl = 1 := by
  -- By induction along the enclosing types: the type around a class is entered once.
  refine h.wellFoundedOn_encloses.induction hdecl
    (P := fun decl => (enteredFromRoots classes).count decl = 1) ?_
  intro decl (hdecl : decl ∈ classes) ih
  have hcount := h.enteredFromRoots_perm.count_eq decl
  rw [List.count_append, h.count_flatMap_knownChildren hdecl (fun _ => h.mem_of_enteredFromRoots)]
    at hcount
  rw [hcount]
  by_cases hroot : decl ∈ rootTypes classes
  · rw [List.count_eq_one_of_mem h.nodup_rootTypes hroot, List.countP_eq_zero.mpr]
    intro outer houter
    simpa using (mem_rootTypes.mp hroot).2 outer (h.mem_of_enteredFromRoots houter)
  · rw [List.count_eq_zero_of_not_mem hroot, Nat.zero_add]
    obtain ⟨outer, houter, hname⟩ :
        ∃ outer ∈ classes, enclosingName? decl = some outer.name := by
      simpa [mem_rootTypes, hdecl] using hroot
    rw [← ih outer houter (.single ⟨houter, hdecl, hname⟩), List.count]
    apply List.countP_congr
    intro other hother
    rw [decide_eq_true_iff, beq_iff_eq, hname, Option.some.injEq]
    constructor
    · intro hsame
      exact h.eq_of_name (h.mem_of_enteredFromRoots hother) houter hsame.symm
    · intro hsame
      rw [hsame]

theorem enteredFromRoots_perm_classes : (enteredFromRoots classes).Perm classes := by
  rw [List.perm_iff_count]
  intro decl
  by_cases hdecl : decl ∈ classes
  · rw [h.count_enteredFromRoots hdecl, List.count_eq_one_of_mem h.nodup hdecl]
  · rw [List.count_eq_zero_of_not_mem hdecl,
      List.count_eq_zero_of_not_mem (fun hmem => hdecl (h.mem_of_enteredFromRoots hmem))]

end VisitableClasses

/-- The steps of the visit that extraction of a root makes: its entries are what the steps
record, each on some line. -/
structure IsVisit (options : ExtractOptions) (known : Universe) (root : ClassDecl)
    (steps : List (VisitStep known)) : Prop where
  steps_eq : (TypeTree.of known root).steps known = .ok steps
  entries_eq : ∃ entries, (TypeTree.of known root).entries options known = .ok entries ∧
    unlinedAll entries = (steps.flatMap VisitStep.records).map (Record.unlined options)

/-- The visits that extraction of a list of classes makes, one from each root. -/
structure EntersEachOnce (options : ExtractOptions) (classes : List ClassDecl)
    (visit : ClassDecl → List (VisitStep (.ofList classes))) : Prop where
  /-- Every root is extracted. -/
  roots_eq : (extractAll options (.ofList classes) classes).types.map TypeReferences.typeName =
    (rootTypes classes).map ClassDecl.qualifiedName
  visits : ∀ root ∈ rootTypes classes, IsVisit options (.ofList classes) root (visit root)
  /-- No class is left out, and none is entered twice. -/
  entered_perm : ((rootTypes classes).flatMap (fun root =>
    (visit root).filterMap VisitStep.entered?)).Perm classes

theorem typeNames_extractAll {options : ExtractOptions} {known : Universe}
    {classes : List ClassDecl} (h : ∀ root ∈ rootTypes classes,
      ∃ references, extract options known root = .ok references) :
    (extractAll options known classes).types.map TypeReferences.typeName =
      (rootTypes classes).map ClassDecl.qualifiedName := by
  rw [extractAll, List.filterMap_map, List.map_filterMap, ← List.filterMap_eq_map]
  apply List.filterMap_congr
  intro root hroot
  obtain ⟨references, hreferences⟩ := h root hroot
  simp [hreferences]

/-- Where classes agree on how they are nested and no visit fails, the visits from the roots
enter every class once. -/
theorem rootVisits_enter_each_once (options : ExtractOptions) (classes : List ClassDecl)
    (hconsistent : ConsistentNesting classes) (hnamed : NestingNamed classes)
    (hextract : ∀ decl ∈ classes,
      ∃ references, extract options (.ofList classes) decl = .ok references) :
    ∃ visit, EntersEachOnce options classes visit := by
  have hvisitable : VisitableClasses classes :=
    { hconsistent with
      named := hnamed
      visits := fun decl hdecl => (exists_steps_iff options _ _).mp (hextract decl hdecl) }
  have hroots : ∀ root ∈ rootTypes classes,
      ∃ references, extract options (.ofList classes) root = .ok references :=
    fun root hroot => hextract root (mem_rootTypes.mp hroot).1
  refine ⟨fun root =>
    ((TypeTree.of (.ofList classes) root).steps (.ofList classes)).toOption.getD [],
    typeNames_extractAll hroots, ?_, hvisitable.enteredFromRoots_perm_classes⟩
  intro root hroot
  obtain ⟨references, hreferences⟩ := hroots root hroot
  obtain ⟨entries, steps, hentries, hsteps, hunlined, -⟩ := exists_steps_of_extract hreferences
  rw [hsteps]
  exact ⟨hsteps, entries, hentries, hunlined⟩

/-- The header of a class without signature can be read. -/
theorem exists_headerReferences (known : Universe) {decl : ClassDecl}
    (hsignature : decl.signature = none) :
    ∃ header, (TypeSite.of known decl).headerReferences = .ok header := by
  rw [TypeSite.headerReferences, TypeSite.decl_of, hsignature]
  cases decl.access.isInterface with
  | false => exact ⟨_, rfl⟩
  | true => exact ⟨_, rfl⟩

/-- A class without signature, fields and methods has nothing that cannot be read. -/
theorem exists_extract_of_bare (options : ExtractOptions) (known : Universe) {decl : ClassDecl}
    (hsignature : decl.signature = none) (hfields : decl.fields = [])
    (hmethods : decl.methods = []) :
    ∃ references, extract options known decl = .ok references := by
  obtain ⟨header, hheader⟩ := exists_headerReferences known hsignature
  rw [extract_eq_ok_iff, TypeTree.of, TypeTree.records, TypeSite.headerDrafts, hheader,
    TypeSite.fieldsDrafts, TypeSite.methodsDrafts, TypeSite.decl_of, hfields, hmethods]
  exact ⟨_, rfl⟩

/-! A class nested in another that is nested in a third. -/

def outermostClass : ClassDecl where
  name := "a/A"
  nestedTypes := [⟨"a/A$B", some "a/A", .member⟩, ⟨"a/A$B$1", none, .anonymous⟩]

def memberClass : ClassDecl where
  name := "a/A$B"
  nestedTypes := [⟨"a/A$B$1", none, .anonymous⟩]
  nesting := some ⟨"a/A$B", some "a/A", .member⟩

def innermostClass : ClassDecl where
  name := "a/A$B$1"
  nestedTypes := [⟨"a/A$B", some "a/A", .member⟩]
  nesting := some ⟨"a/A$B$1", none, .anonymous⟩

theorem acyclic_of_rank {classes : List ClassDecl} (rank : ClassDecl → Nat)
    (h : ∀ outer ∈ classes, ∀ inner ∈ classes, enclosingName? inner = some outer.name →
      rank outer < rank inner) (decl : ClassDecl) :
    ¬ Relation.TransGen (Encloses classes) decl decl := by
  have hlt : ∀ {outer inner}, Relation.TransGen (Encloses classes) outer inner →
      rank outer < rank inner := by
    intro outer inner hpath
    induction hpath with
    | single hstep => exact h _ hstep.outer_mem _ hstep.inner_mem hstep.name_eq
    | tail _ hstep ih =>
        exact Nat.lt_trans ih (h _ hstep.outer_mem _ hstep.inner_mem hstep.name_eq)
  exact fun hcycle => Nat.lt_irrefl _ (hlt hcycle)

theorem consistentNesting_outermost :
    ConsistentNesting [innermostClass, outermostClass, memberClass] where
  names_nodup := by decide +kernel
  listed_once := by decide +kernel
  nesting_eq := by decide +kernel
  acyclic := acyclic_of_rank (fun decl => decl.name.length) (by decide +kernel)

theorem nestingNamed_outermost :
    NestingNamed [innermostClass, outermostClass, memberClass] := by
  unfold NestingNamed
  decide +kernel

/-- The visit from the outermost class enters all three. -/
theorem rootVisits_outermost :
    ConsistentNesting [innermostClass, outermostClass, memberClass] ∧
      NestingNamed [innermostClass, outermostClass, memberClass] ∧
      ∃ visit, EntersEachOnce {} [innermostClass, outermostClass, memberClass] visit := by
  refine ⟨consistentNesting_outermost, nestingNamed_outermost,
    rootVisits_enter_each_once {} _ consistentNesting_outermost nestingNamed_outermost ?_⟩
  intro decl hdecl
  simp only [List.mem_cons, List.not_mem_nil, or_false] at hdecl
  rcases hdecl with rfl | rfl | rfl
  · exact exists_extract_of_bare _ _ rfl rfl rfl
  · exact exists_extract_of_bare _ _ rfl rfl rfl
  · exact exists_extract_of_bare _ _ rfl rfl rfl

/-! A class that is listed under another name. -/

def holderClass : ClassDecl where
  name := "a/A"
  superName := some "lib/Base"
  nestedTypes := [⟨"x/Y", some "a/A", .member⟩]

def misnamedClass : ClassDecl where
  name := "a/C"
  superName := some "lib/Other"
  nesting := some ⟨"x/Y", some "a/A", .member⟩

theorem consistentNesting_misnamed : ConsistentNesting [holderClass, misnamedClass] where
  names_nodup := by decide +kernel
  listed_once := by decide +kernel
  nesting_eq := by decide +kernel
  acyclic := acyclic_of_rank (fun decl => if decl.name = "a/A" then 0 else 1) (by decide +kernel)

theorem NestedTrees.stepsOf_unknown {known : Universe} {name : String}
    (hname : known.lookup name = none) (path : Std.HashSet String) (names : List String) :
    (ofNames known path names).stepsOf known name = none := by
  have hfind : known.find? name = none := by simpa [Universe.lookup] using hname
  fun_induction ofNames known path names with
  | case1 => rfl
  | case2 path head rest hmem ih => exact ih
  | case3 path head rest hmem hhead ih => exact ih
  | case4 path head rest hmem type hhead ihchildren ihrest =>
      have hne : head ≠ name := by
        rintro rfl
        simp [hfind] at hhead
      rw [stepsOf, ihrest, if_neg hne]
      rfl

/-- The type around the misnamed class lists nothing that is known. -/
theorem enteredTypes_holderClass {known : Universe} (hunknown : known.lookup "x.Y" = none)
    {steps : List (VisitStep known)}
    (h : (TypeTree.of known holderClass).steps known = .ok steps) :
    steps.filterMap VisitStep.entered? = [holderClass] := by
  have hchildren : holderClass.children = [⟨"x.Y", .member⟩] := by
    rw [ClassDecl.children_eq]
    decide +kernel
  rw [TypeTree.of, TypeTree.steps, hchildren] at h
  obtain ⟨own, -, rfl⟩ := map_eq_ok h
  simp [NestedTrees.stepsOf_unknown hunknown, VisitStep.entered?]

/-- A class whose nesting carries another name is entered from no root. -/
theorem misnamedClass_not_entered : ConsistentNesting [holderClass, misnamedClass] ∧
    (∀ decl ∈ [holderClass, misnamedClass],
      ∃ references, extract {} (.ofList [holderClass, misnamedClass]) decl = .ok references) ∧
    ¬ ∃ visit, EntersEachOnce {} [holderClass, misnamedClass] visit := by
  refine ⟨consistentNesting_misnamed, ?_, ?_⟩
  · intro decl hdecl
    simp only [List.mem_cons, List.not_mem_nil, or_false] at hdecl
    rcases hdecl with rfl | rfl
    · exact exists_extract_of_bare _ _ rfl rfl rfl
    · exact exists_extract_of_bare _ _ rfl rfl rfl
  · rintro ⟨visit, hvisit⟩
    have hentered := hvisit.entered_perm.mem_iff.mpr
      (List.mem_cons_of_mem holderClass (List.mem_singleton_self misnamedClass))
    obtain ⟨root, hroot, hentered⟩ := List.mem_flatMap.mp hentered
    have hholder : root = holderClass := by
      obtain ⟨hmem, houtermost⟩ := mem_rootTypes.mp hroot
      simp only [List.mem_cons, List.not_mem_nil, or_false] at hmem
      refine hmem.resolve_right ?_
      rintro rfl
      exact houtermost holderClass List.mem_cons_self rfl
    subst hholder
    have hunknown : (Universe.ofList [holderClass, misnamedClass]).lookup "x.Y" = none := by
      rw [Universe.lookup_ofList]
      decide +kernel
    rw [enteredTypes_holderClass hunknown (hvisit.visits _ hroot).steps_eq] at hentered
    exact absurd hentered (by decide +kernel)

end Linkage
