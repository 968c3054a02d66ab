import Linkage.Proofs.Distinct
import Linkage.Proofs.Records
/-
Nested types.  In a universe whose nesting is acyclic, the tree of a type does not
depend on where the type is met, so that the records of a root are those of the
types that it visits: the root, and the nested types of a visited type whose own
extraction does not fail.
-/

namespace Linkage

/-- A known type is listed as nested directly in another. -/
def NestsDirectly (known : Universe) (outer inner : ClassDecl) : Prop :=
  ∃ child ∈ outer.children, known.lookup child.name = some inner

/-- No type of the universe lies below itself. -/
def AcyclicNesting (known : Universe) : Prop :=
  ∀ decl, ¬ Relation.TransGen (NestsDirectly known) decl decl

/-- The types that extraction of a root visits without error. -/
inductive Visited (options : ExtractOptions) (known : Universe) (root : ClassDecl) :
    ClassDecl → Prop where
  | root : Visited options known root root
  | nested {outer inner : ClassDecl} (houter : Visited options known root outer)
      (hnested : NestsDirectly known outer inner)
      (hextract : ∃ references, extract options known inner = .ok references) :
      Visited options known root inner

theorem Visited.eq_root {options : ExtractOptions} {known : Universe} {root decl : ClassDecl}
    (hroot : root.children = []) (h : Visited options known root decl) : decl = root := by
  induction h with
  | root => rfl
  | nested _ hnested _ ih =>
      obtain ⟨child, hchild, -⟩ := hnested
      rw [ih, hroot] at hchild
      cases hchild

theorem mem_childNames {decl : ClassDecl} {name : String} :
    name ∈ decl.childNames ↔ ∃ child ∈ decl.children, child.name = name := by
  simp [ClassDecl.childNames]

theorem ClassDecl.childNames_eq_nil {decl : ClassDecl} (h : decl.children = []) :
    decl.childNames = [] := by
  rw [childNames, h]
  rfl

theorem ClassDecl.childNames_eq_singleton {decl : ClassDecl} {child : ChildType}
    (h : decl.children = [child]) : decl.childNames = [child.name] := by
  rw [childNames, h, distinctBy_eq_distinctAfter]
  simp [distinctAfter]

theorem NestsDirectly.of_childName {known : Universe} {outer : ClassDecl}
    {inner : IndexedClass} {name : String} (hname : name ∈ outer.childNames)
    (hinner : known.find? name = some inner) : NestsDirectly known outer inner.decl := by
  obtain ⟨child, hchild, rfl⟩ := mem_childNames.mp hname
  exact ⟨child, hchild, Universe.lookup_eq_some_iff.mpr ⟨inner, hinner, rfl⟩⟩

theorem acyclicNesting_empty : AcyclicNesting (.ofList []) := by
  have hnone : ∀ {outer inner}, ¬ NestsDirectly (.ofList []) outer inner := by
    rintro outer inner ⟨child, -, hlookup⟩
    simp [Universe.lookup_ofList] at hlookup
  intro decl h
  cases h with
  | single h => exact hnone h
  | tail _ h => exact hnone h

/-- Every known type on a path lies above every known type of some names. -/
def PathAbove (known : Universe) (path : Std.HashSet String) (names : List String) : Prop :=
  ∀ above ∈ path, ∀ outer, known.find? above = some outer →
    ∀ name ∈ names, ∀ inner, known.find? name = some inner →
      Relation.TransGen (NestsDirectly known) outer.decl inner.decl

namespace PathAbove

variable {known : Universe} {path : Std.HashSet String}

theorem tail {name : String} {rest : List String} (h : PathAbove known path (name :: rest)) :
    PathAbove known path rest :=
  fun above habove outer houter other hother inner hinner =>
    h above habove outer houter other (List.mem_cons_of_mem name hother) inner hinner

/-- Where nesting is acyclic, a known type is not on the path above it. -/
theorem not_mem (hacyclic : AcyclicNesting known) {name : String} {rest : List String}
    {type : IndexedClass} (h : PathAbove known path (name :: rest))
    (htype : known.find? name = some type) : name ∉ path := by
  intro hmem
  exact hacyclic type.decl (h name hmem type htype name List.mem_cons_self type htype)

theorem children {name : String} {rest : List String} {type : IndexedClass}
    (h : PathAbove known path (name :: rest)) (htype : known.find? name = some type) :
    PathAbove known (path.insert name) type.decl.childNames := by
  intro above habove outer houter other hother inner hinner
  have hnested := NestsDirectly.of_childName hother hinner
  rcases Std.HashSet.mem_insert.mp habove with heq | habove
  · rw [beq_iff_eq] at heq
    rw [← heq, htype, Option.some.injEq] at houter
    subst houter
    exact .single hnested
  · exact .tail (h above habove outer houter name List.mem_cons_self type htype) hnested

theorem empty (names : List String) : PathAbove known ∅ names :=
  fun _ hmem => absurd hmem (by simp)

end PathAbove

namespace NestedTrees

variable {known : Universe}

theorem ofNames_cons_unknown {path : Std.HashSet String} {name : String}
    {rest : List String} (hname : known.find? name = none) :
    ofNames known path (name :: rest) = ofNames known path rest := by
  rw [ofNames]
  split
  · rfl
  · split
    · rfl
    · rename_i type htype
      simp [hname] at htype

theorem ofNames_cons_known {path : Std.HashSet String} {name : String}
    {rest : List String} {type : IndexedClass} (hname : known.find? name = some type)
    (hpath : name ∉ path) :
    ofNames known path (name :: rest) =
      .cons name (.node type.decl (ofNames known (path.insert name) type.decl.childNames))
        (ofNames known path rest) := by
  rw [ofNames, dif_neg hpath]
  split
  · rename_i hunknown
    simp [hname] at hunknown
  · rename_i other hother
    rw [hname, Option.some.injEq] at hother
    rw [hother]

theorem ofNames_nil (known : Universe) (path : Std.HashSet String) :
    ofNames known path [] = .nil := by
  rw [ofNames]

/-- Where nesting is acyclic, the trees of named types do not depend on the path. -/
theorem ofNames_eq (hacyclic : AcyclicNesting known) (path : Std.HashSet String)
    (names : List String) (other : Std.HashSet String)
    (hpath : PathAbove known path names) (hother : PathAbove known other names) :
    ofNames known path names = ofNames known other names := by
  fun_induction ofNames known path names generalizing other with
  | case1 => simp [ofNames]
  | case2 path name rest hmem ih =>
      cases hname : known.find? name with
      | none => rw [ih other hpath.tail hother.tail, ofNames_cons_unknown hname]
      | some type => exact absurd hmem (hpath.not_mem hacyclic hname)
  | case3 path name rest _ hname ih =>
      rw [ih other hpath.tail hother.tail, ofNames_cons_unknown hname]
  | case4 path name rest _ type hname ihchildren ihrest =>
      rw [ofNames_cons_known hname (hother.not_mem hacyclic hname),
        ihchildren _ (hpath.children hname) (hother.children hname),
        ihrest other hpath.tail hother.tail]

/-- The tree of a nested type is the tree of the type by itself. -/
theorem ofNames_cons_eq (hacyclic : AcyclicNesting known) {name : String}
    {rest : List String} {type : IndexedClass} (hname : known.find? name = some type) :
    ofNames known ∅ (name :: rest) =
      .cons name (TypeTree.of known type.decl) (ofNames known ∅ rest) := by
  have habove : PathAbove known ∅ (name :: rest) := .empty _
  rw [ofNames_cons_known hname (by simp),
    ofNames_eq hacyclic _ _ ∅ (habove.children hname) (.empty _), TypeTree.of]

/-- The last value that the trees of a name have. -/
def lastOf {β : Type} (value : TypeTree → Option β) : NestedTrees → String → Option β
  | .nil, _ => none
  | .cons other tree rest, name =>
      (lastOf value rest name).or (if other = name then value tree else none)

theorem recordsOf_eq_lastOf (nested : NestedTrees) (name : String) :
    nested.recordsOf known name =
      nested.lastOf (fun tree => (tree.records known).toOption) name := by
  cases nested with
  | nil => rfl
  | cons other tree rest => rw [recordsOf, lastOf, recordsOf_eq_lastOf rest name]

/-- The last value for a name is that of the known type of that name. -/
theorem lastOf_ofNames (hacyclic : AcyclicNesting known) {β : Type}
    (value : TypeTree → Option β) (names : List String) (name : String) :
    (ofNames known ∅ names).lastOf value name =
      if name ∈ names then
        (known.lookup name).bind (fun inner => value (TypeTree.of known inner))
      else none := by
  have hlookup : known.lookup name = (known.find? name).map IndexedClass.decl := rfl
  rw [hlookup, Option.bind_map]
  induction names with
  | nil => simp [ofNames, lastOf]
  | cons head rest ih =>
      cases hhead : known.find? head with
      | none =>
          rw [ofNames_cons_unknown hhead, ih]
          by_cases heq : name = head
          · simp [heq, hhead]
          · simp [heq]
      | some type =>
          rw [ofNames_cons_eq hacyclic hhead, lastOf, ih]
          by_cases heq : head = name
          · subst heq
            by_cases hmem : head ∈ rest <;> simp [hhead, hmem]
          · have hne : name ≠ head := fun h => heq h.symm
            simp [heq, hne]

end NestedTrees

/-- The tree of a type in which nothing is nested. -/
theorem TypeTree.of_childless (known : Universe) {decl : ClassDecl} (h : decl.children = []) :
    TypeTree.of known decl = .node decl .nil := by
  rw [TypeTree.of, ClassDecl.childNames_eq_nil h, NestedTrees.ofNames_nil]

/-- The tree of a type with one known child, in which nothing is nested. -/
theorem TypeTree.of_onlyChild {known : Universe} {decl : ClassDecl} {child : ChildType}
    {type : IndexedClass} (h : decl.children = [child])
    (htype : known.find? child.name = some type) (hinner : type.decl.children = []) :
    TypeTree.of known decl = .node decl (.cons child.name (.node type.decl .nil) .nil) := by
  rw [TypeTree.of, ClassDecl.childNames_eq_singleton h,
    NestedTrees.ofNames_cons_known htype (by simp), ClassDecl.childNames_eq_nil hinner,
    NestedTrees.ofNames_nil, NestedTrees.ofNames_nil]

/-- The records of a nested type by its name; none if it is unknown or fails. -/
def recordsNamed (known : Universe) (name : String) : List Record :=
  ((known.lookup name).bind (fun inner =>
    ((TypeTree.of known inner).records known).toOption)).getD []

/-- What a type records itself: its header, its fields and its methods. -/
structure OwnDrafts (known : Universe) (decl : ClassDecl) where
  header : List Draft
  fields : List (List Draft)
  methods : List (List Draft)
  header_eq : (TypeSite.of known decl).headerDrafts = .ok header
  fields_eq : (TypeSite.of known decl).fieldsDrafts = .ok fields
  methods_eq : (TypeSite.of known decl).methodsDrafts = .ok methods

/-- The records of a type whose extraction succeeds. -/
theorem records_of_eq_ok {known : Universe} (hacyclic : AcyclicNesting known)
    {decl : ClassDecl} {found : List Record}
    (h : (TypeTree.of known decl).records known = .ok found) :
    ∃ own : OwnDrafts known decl,
      found = (TypeSite.of known decl).recorded own.header
        ++ decl.children.flatMap (fun child => recordsNamed known child.name)
        ++ (TypeSite.of known decl).recorded (own.fields.flatten ++ own.methods.flatten) := by
  have hnamed : ∀ child ∈ decl.children,
      ((NestedTrees.ofNames known ∅ decl.childNames).recordsOf known child.name).getD [] =
        recordsNamed known child.name := by
    intro child hchild
    have hmem : child.name ∈ decl.childNames := mem_childNames.mpr ⟨child, hchild, rfl⟩
    rw [NestedTrees.recordsOf_eq_lastOf, NestedTrees.lastOf_ofNames hacyclic, if_pos hmem,
      recordsNamed]
  have hinner : decl.children.flatMap (fun child =>
      ((NestedTrees.ofNames known ∅ decl.childNames).recordsOf known child.name).getD []) =
      decl.children.flatMap (fun child => recordsNamed known child.name) := by
    simp only [List.flatMap_def]
    rw [List.map_congr_left hnamed]
  rw [TypeTree.of, TypeTree.records] at h
  obtain ⟨header, hheader, h⟩ := bind_eq_ok h
  obtain ⟨fields, hfields, h⟩ := bind_eq_ok h
  obtain ⟨methods, hmethods, h⟩ := bind_eq_ok h
  refine ⟨⟨header, fields, methods, hheader, hfields, hmethods⟩, ?_⟩
  simp only [pure, Except.pure, Except.ok.injEq] at h
  rw [← h, hinner]

theorem mem_recordsNamed {known : Universe} {name : String} {record : Record} :
    record ∈ recordsNamed known name ↔ ∃ inner found, known.lookup name = some inner ∧
      (TypeTree.of known inner).records known = .ok found ∧ record ∈ found := by
  rw [recordsNamed]
  cases hinner : known.lookup name with
  | none => simp
  | some inner =>
      cases hfound : (TypeTree.of known inner).records known <;>
        simp [Except.toOption, hfound]

/-- Extraction succeeds exactly if all texts that records come from can be read. -/
theorem extract_eq_ok_iff (options : ExtractOptions) (known : Universe) (decl : ClassDecl) :
    (∃ references, extract options known decl = .ok references) ↔
      ∃ found, (TypeTree.of known decl).records known = .ok found := by
  have hview := TypeTree.entries_unlined options known (TypeTree.of known decl)
  constructor
  · rintro ⟨references, h⟩
    obtain ⟨entries, hentries, _⟩ := bind_eq_ok h
    rw [hentries] at hview
    obtain ⟨found, hfound, _⟩ := map_eq_ok hview.symm
    exact ⟨found, hfound⟩
  · rintro ⟨found, hfound⟩
    rw [hfound] at hview
    obtain ⟨entries, hentries, _⟩ := map_eq_ok hview
    exact ⟨_, by rw [extract, hentries]; rfl⟩

/-- A visited type has records, and they are among those of the root. -/
theorem Visited.records {options : ExtractOptions} {known : Universe}
    (hacyclic : AcyclicNesting known) {root decl : ClassDecl} {found : List Record}
    (hroot : (TypeTree.of known root).records known = .ok found)
    (h : Visited options known root decl) :
    ∃ part, (TypeTree.of known decl).records known = .ok part ∧
      ∀ record ∈ part, record ∈ found := by
  induction h with
  | root => exact ⟨found, hroot, fun _ hmem => hmem⟩
  | nested _ hnested hextract ih =>
      obtain ⟨outerPart, houter, hsubset⟩ := ih
      obtain ⟨part, hpart⟩ := (extract_eq_ok_iff options known _).mp hextract
      obtain ⟨child, hchild, hlookup⟩ := hnested
      obtain ⟨own, hown⟩ := records_of_eq_ok hacyclic houter
      refine ⟨part, hpart, fun record hmem => hsubset record ?_⟩
      have hinner : record ∈ recordsNamed known child.name :=
        mem_recordsNamed.mpr ⟨_, part, hlookup, hpart, hmem⟩
      rw [hown]
      simp only [List.mem_append, List.mem_flatMap]
      exact .inl (.inr ⟨child, hchild, hinner⟩)

/-- The tree of a nested type is smaller. -/
theorem sizeOf_typeTree_lt {known : Universe} (hacyclic : AcyclicNesting known)
    {outer inner : ClassDecl} (h : NestsDirectly known outer inner) :
    sizeOf (TypeTree.of known inner) < sizeOf (TypeTree.of known outer) := by
  obtain ⟨child, hchild, hlookup⟩ := h
  obtain ⟨type, htype, rfl⟩ := Universe.lookup_eq_some_iff.mp hlookup
  have hbelow : ∀ names : List String, child.name ∈ names →
      sizeOf (TypeTree.of known type.decl) < sizeOf (NestedTrees.ofNames known ∅ names) := by
    intro names hmem
    induction names with
    | nil => simp at hmem
    | cons head rest ih =>
        cases hhead : known.find? head with
        | none =>
            rcases List.mem_cons.mp hmem with heq | hrest
            · rw [heq, hhead] at htype
              simp at htype
            · rw [NestedTrees.ofNames_cons_unknown hhead]
              exact ih hrest
        | some first =>
            rw [NestedTrees.ofNames_cons_eq hacyclic hhead]
            rcases List.mem_cons.mp hmem with heq | hrest
            · rw [heq, hhead, Option.some.injEq] at htype
              subst htype
              simp only [NestedTrees.cons.sizeOf_spec]
              omega
            · have hsmaller := ih hrest
              simp only [NestedTrees.cons.sizeOf_spec]
              omega
  have hlt := hbelow outer.childNames (mem_childNames.mpr ⟨child, hchild, rfl⟩)
  have hnode : sizeOf (NestedTrees.ofNames known ∅ outer.childNames) <
      sizeOf (TypeTree.of known outer) := by
    rw [TypeTree.of, TypeTree.node.sizeOf_spec]
    omega
  omega

/-- Every record of a root is one that a visited type makes itself. -/
theorem exists_visited_of_mem_records {options : ExtractOptions} {known : Universe}
    (hacyclic : AcyclicNesting known) {root decl : ClassDecl} {found : List Record}
    (hvisited : Visited options known root decl)
    (hfound : (TypeTree.of known decl).records known = .ok found) {record : Record}
    (hmem : record ∈ found) :
    ∃ inner, ∃ own : OwnDrafts known inner, Visited options known root inner ∧
      record ∈ (TypeSite.of known inner).recorded
        (own.header ++ own.fields.flatten ++ own.methods.flatten) := by
  obtain ⟨own, hown⟩ := records_of_eq_ok hacyclic hfound
  rw [hown] at hmem
  simp only [List.mem_append, List.mem_flatMap] at hmem
  rcases hmem with (hheader | ⟨child, hchild, hinner⟩) | hmembers
  · refine ⟨decl, own, hvisited, ?_⟩
    simp only [TypeSite.recorded, List.map_append, List.mem_append] at hheader ⊢
    exact .inl (.inl hheader)
  · obtain ⟨inner, part, hlookup, hpart, hrecord⟩ := mem_recordsNamed.mp hinner
    have hnested : NestsDirectly known decl inner := ⟨child, hchild, hlookup⟩
    have hsize := sizeOf_typeTree_lt hacyclic hnested
    exact exists_visited_of_mem_records hacyclic
      (.nested hvisited hnested ((extract_eq_ok_iff options known inner).mpr ⟨part, hpart⟩))
      hpart hrecord
  · refine ⟨decl, own, hvisited, ?_⟩
    simp only [TypeSite.recorded, List.map_append, List.mem_append] at hmembers ⊢
    exact hmembers.imp (fun hfields => .inr hfields) id
termination_by sizeOf (TypeTree.of known decl)
decreasing_by exact hsize

end Linkage
