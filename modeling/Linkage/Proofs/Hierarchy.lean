import Linkage.Hierarchy
/-
The type hierarchy as relations: the class path of a type, and the interfaces
that are reached through declared ones.  The walks of a universe are compared
with them.  Hierarchies may be incomplete or cyclic, so a walk that passes over
names met before still has to account for everything that is reached.
-/

namespace Linkage

/-- Whether a class declares a method with a name and descriptor. -/
def ClassDecl.Declares (decl : ClassDecl) (name descriptor : String) : Prop :=
  ∃ method ∈ decl.methods, method.name = name ∧ method.descriptor = descriptor

theorem ClassDecl.findMethod_eq_none_iff {decl : ClassDecl} {name descriptor : String} :
    decl.findMethod name descriptor = none ↔ ¬ decl.Declares name descriptor := by
  simp [ClassDecl.findMethod, ClassDecl.Declares]

theorem ClassDecl.declares_of_findMethod {decl : ClassDecl} {name descriptor : String}
    {method : MethodDecl} (h : decl.findMethod name descriptor = some method) :
    decl.Declares name descriptor :=
  ⟨method, ClassDecl.findMethod_mem h, ClassDecl.findMethod_name h⟩

/-- The classes from a name upwards: a type, its super class, and so on, until a
name is unknown or was met before. -/
inductive ClassesFrom (known : Universe) :
    (met : List String) → (next : Option String) → List ClassDecl → Prop where
  | top (met : List String) : ClassesFrom known met none []
  | unknown {met : List String} {name : String} (hname : known.lookup name = none) :
      ClassesFrom known met (some name) []
  | repeated {met : List String} {name : String} (hname : name ∈ met) :
      ClassesFrom known met (some name) []
  | step {met : List String} {name : String} {decl : ClassDecl} {rest : List ClassDecl}
      (hfresh : name ∉ met) (hname : known.lookup name = some decl)
      (hrest : ClassesFrom known (name :: met) (decl.superName.map qualifiedName) rest) :
      ClassesFrom known met (some name) (decl :: rest)

/-- The class path of a type. -/
def IsClassPath (known : Universe) (owner : String) (path : List ClassDecl) : Prop :=
  ClassesFrom known [] (some owner) path

theorem ClassesFrom.unique {known : Universe} {met : List String} {next : Option String}
    {left right : List ClassDecl} (hleft : ClassesFrom known met next left)
    (hright : ClassesFrom known met next right) : left = right := by
  induction hleft generalizing right with
  | top => cases hright; rfl
  | unknown hname =>
      cases hright with
      | unknown => rfl
      | repeated => rfl
      | step _ hother => simp [hname] at hother
  | repeated hname =>
      cases hright with
      | unknown => rfl
      | repeated => rfl
      | step hfresh => exact absurd hname hfresh
  | step hfresh hname _ ih =>
      cases hright with
      | unknown hother => simp [hname] at hother
      | repeated hother => exact absurd hother hfresh
      | step _ hother hrest =>
          rw [hname, Option.some.injEq] at hother
          subst hother
          rw [ih hrest]

namespace Universe

theorem lookup_of_find? {known : Universe} {name : String} {type : IndexedClass}
    (h : known.find? name = some type) : known.lookup name = some type.decl := by
  simp [lookup, h]

theorem lookup_eq_none_iff {known : Universe} {name : String} :
    known.lookup name = none ↔ known.find? name = none := by
  simp [lookup]

/-! One step of each walk. -/

section Steps

variable {known : Universe}

theorem superClasses_unknown {seen : Std.HashSet String} {name : String}
    (hfound : known.find? name = none) : known.superClasses seen (some name) = [] := by
  rw [superClasses]
  split
  · rfl
  · split
    · rfl
    · rename_i type htype
      simp [hfound] at htype

theorem superClasses_known {seen : Std.HashSet String} {name : String} {type : IndexedClass}
    (hseen : name ∉ seen) (hfound : known.find? name = some type) :
    known.superClasses seen (some name) =
      type :: known.superClasses (seen.insert name) type.superName := by
  rw [superClasses, dif_neg hseen]
  split
  · rename_i hunknown
    simp [hfound] at hunknown
  · rename_i twin htwin
    rw [hfound, Option.some.injEq] at htwin
    rw [htwin]

theorem searchInterfaces_met {name descriptor head : String} {seen : Std.HashSet String}
    {rest : List String} (hseen : head ∈ seen) :
    known.searchInterfaces name descriptor seen (head :: rest) =
      known.searchInterfaces name descriptor seen rest := by
  rw [searchInterfaces, dif_pos hseen]

theorem searchInterfaces_unknown {name descriptor head : String} {seen : Std.HashSet String}
    {rest : List String} (hfound : known.find? head = none) :
    known.searchInterfaces name descriptor seen (head :: rest) =
      known.searchInterfaces name descriptor seen rest := by
  rw [searchInterfaces]
  split
  · rfl
  · split
    · rfl
    · rename_i type htype
      simp [hfound] at htype

theorem searchInterfaces_known {name descriptor head : String} {seen : Std.HashSet String}
    {rest : List String} {type : IndexedClass} (hseen : head ∉ seen)
    (hfound : known.find? head = some type) :
    known.searchInterfaces name descriptor seen (head :: rest) =
      match type.findMethod name descriptor with
      | some method => some ⟨type.decl, method⟩
      | none =>
          known.searchInterfaces name descriptor (seen.insert head) (type.interfaces ++ rest) := by
  rw [searchInterfaces, dif_neg hseen]
  split
  · rename_i hunknown
    simp [hfound] at hunknown
  · rename_i twin htwin
    rw [hfound, Option.some.injEq] at htwin
    subst htwin
    rfl

end Steps

/-- The walk along super classes meets the classes from its first name upwards. -/
theorem superClasses_classesFrom (known : Universe) (seen : Std.HashSet String)
    (next : Option String) (met : List String) (hmet : ∀ name, name ∈ seen ↔ name ∈ met) :
    ClassesFrom known met next ((known.superClasses seen next).map IndexedClass.decl) := by
  fun_induction superClasses known seen next generalizing met with
  | case1 => exact .top _
  | case2 seen name hseen => exact .repeated ((hmet name).mp hseen)
  | case3 seen name _ hfound => exact .unknown (lookup_eq_none_iff.mpr hfound)
  | case4 seen name hseen type hfound ih =>
      have hrest := ih (name :: met) (by
        intro other
        simp only [Std.HashSet.mem_insert, beq_iff_eq, hmet other, List.mem_cons]
        rw [eq_comm])
      rw [type.superName_eq] at hrest
      exact .step (mt (hmet name).mpr hseen) (lookup_of_find? hfound)
        (by simpa [type.superName_eq] using hrest)

theorem superClassPath_isClassPath {known : Universe} {owner : String}
    {start : IndexedClass} (hstart : known.find? owner = some start) :
    IsClassPath known owner ((known.superClassPath start).map IndexedClass.decl) := by
  have hname : start.name = owner := known.named owner start hstart
  have hmet : ∀ other, other ∈ Std.HashSet.ofList [owner] ↔ other ∈ [owner] := by
    intro other
    rw [Std.HashSet.mem_ofList, List.contains_iff_mem]
  have hrest := superClasses_classesFrom known (.ofList [owner]) start.superName [owner] hmet
  rw [start.superName_eq] at hrest
  refine .step (by simp) (lookup_of_find? hstart) ?_
  rw [properSuperClasses, hname, start.superName_eq]
  exact hrest

end Universe

/-- One type declares another, known one as its interface. -/
def DeclaresInterface (known : Universe) (sub super : ClassDecl) : Prop :=
  ∃ name ∈ sub.interfaces, known.lookup (qualifiedName name) = some super

/-- An interface that a type declares itself or through its interfaces. -/
def SuperInterface (known : Universe) : ClassDecl → ClassDecl → Prop :=
  Relation.TransGen (DeclaresInterface known)

/-- A type that is listed by its qualified name, or reached from listed ones through
declared interfaces. -/
inductive Reached (known : Universe) (names : List String) : ClassDecl → Prop where
  | listed {name : String} {decl : ClassDecl} (hmem : name ∈ names)
      (hname : known.lookup name = some decl) : Reached known names decl
  | inherited {sub super : ClassDecl} (hsub : Reached known names sub)
      (hsuper : DeclaresInterface known sub super) : Reached known names super

namespace Reached

variable {known : Universe}

/-- Names that are listed elsewhere, or that a type reached there declares, reach
nothing further. -/
theorem of_names {names others : List String} {decl : ClassDecl}
    (h : Reached known names decl)
    (hnames : ∀ name ∈ names, name ∈ others ∨
      ∃ sub, Reached known others sub ∧ name ∈ sub.interfaces.map qualifiedName) :
    Reached known others decl := by
  induction h with
  | listed hmem hname =>
      rcases hnames _ hmem with hother | ⟨sub, hsub, hdeclared⟩
      · exact .listed hother hname
      · obtain ⟨internal, hinternal, rfl⟩ := List.mem_map.mp hdeclared
        exact .inherited hsub ⟨internal, hinternal, hname⟩
  | inherited _ hsuper ih => exact .inherited ih hsuper

/-- The interfaces that some of the given classes declare reach exactly the super
interfaces of these classes. -/
theorem flatMap_interfaces_iff {classes : List IndexedClass} {decl : ClassDecl} :
    Reached known (classes.flatMap IndexedClass.interfaces) decl ↔
      ∃ type ∈ classes, SuperInterface known type.decl decl := by
  constructor
  · intro h
    induction h with
    | listed hmem hname =>
        obtain ⟨type, htype, hdeclared⟩ := List.mem_flatMap.mp hmem
        rw [type.interfaces_eq] at hdeclared
        obtain ⟨internal, hinternal, rfl⟩ := List.mem_map.mp hdeclared
        exact ⟨type, htype, .single ⟨internal, hinternal, hname⟩⟩
    | inherited _ hsuper ih =>
        obtain ⟨type, htype, hsub⟩ := ih
        exact ⟨type, htype, .tail hsub hsuper⟩
  · rintro ⟨type, htype, h⟩
    induction h with
    | single hdeclared =>
        obtain ⟨internal, hinternal, hname⟩ := hdeclared
        refine .listed (List.mem_flatMap.mpr ⟨type, htype, ?_⟩) hname
        rw [type.interfaces_eq]
        exact List.mem_map_of_mem hinternal
    | tail _ hsuper ih => exact .inherited ih hsuper

end Reached

/-- Names that lead to no declaration of a method: no known type among them declares
it, and the interfaces of these types are among them. -/
def WithoutMethod (known : Universe) (name descriptor : String) (names : String → Prop) :
    Prop :=
  ∀ other, names other → ∀ type, known.find? other = some type →
    ¬ type.decl.Declares name descriptor ∧ ∀ next ∈ type.interfaces, names next

theorem WithoutMethod.not_declares {known : Universe} {name descriptor : String}
    {names : String → Prop} (hnames : WithoutMethod known name descriptor names)
    {listed : List String} (hlisted : ∀ other ∈ listed, names other) {decl : ClassDecl}
    (h : Reached known listed decl) : ¬ decl.Declares name descriptor := by
  -- Every type that is reached is known under one of the names.
  have hnamed : ∃ other type, names other ∧ known.find? other = some type
      ∧ type.decl = decl := by
    induction h with
    | listed hmem hname =>
        obtain ⟨type, hfound, hdecl⟩ := Universe.lookup_eq_some_iff.mp hname
        exact ⟨_, type, hlisted _ hmem, hfound, hdecl⟩
    | inherited _ hsuper ih =>
        obtain ⟨other, type, hother, hfound, rfl⟩ := ih
        obtain ⟨internal, hinternal, hname⟩ := hsuper
        obtain ⟨super, hsuper, hdecl⟩ := Universe.lookup_eq_some_iff.mp hname
        refine ⟨_, super, (hnames other hother type hfound).2 _ ?_, hsuper, hdecl⟩
        rw [type.interfaces_eq]
        exact List.mem_map_of_mem hinternal
  obtain ⟨other, type, hother, hfound, rfl⟩ := hnamed
  exact (hnames other hother type hfound).1

namespace Universe

variable {known : Universe} {name descriptor : String}

/-- What the search finds is a declaration of a type that is reached. -/
theorem searchInterfaces_sound {seen : Std.HashSet String} {pending : List String}
    {found : FoundMethod}
    (h : known.searchInterfaces name descriptor seen pending = some found) :
    Reached known pending found.owner ∧
      found.owner.findMethod name descriptor = some found.method := by
  fun_induction searchInterfaces known name descriptor seen pending with
  | case1 => simp at h
  | case2 seen head rest _ ih =>
      obtain ⟨hreached, hmethod⟩ := ih h
      exact ⟨hreached.of_names (fun _ hmem => .inl (List.mem_cons_of_mem head hmem)), hmethod⟩
  | case3 seen head rest _ _ ih =>
      obtain ⟨hreached, hmethod⟩ := ih h
      exact ⟨hreached.of_names (fun _ hmem => .inl (List.mem_cons_of_mem head hmem)), hmethod⟩
  | case4 seen head rest _ type hfound method hmethod =>
      rw [Option.some.injEq] at h
      subst h
      rw [IndexedClass.findMethod_eq] at hmethod
      exact ⟨.listed List.mem_cons_self (lookup_of_find? hfound), hmethod⟩
  | case5 seen head rest _ type hfound _ ih =>
      obtain ⟨hreached, hmethod⟩ := ih h
      have hhead : Reached known (head :: rest) type.decl :=
        .listed List.mem_cons_self (lookup_of_find? hfound)
      refine ⟨hreached.of_names (fun other hmem => ?_), hmethod⟩
      rcases List.mem_append.mp hmem with hdeclared | hrest
      · rw [type.interfaces_eq] at hdeclared
        exact .inr ⟨type.decl, hhead, hdeclared⟩
      · exact .inl (List.mem_cons_of_mem head hrest)

/-- Every name that a search has met belongs to a type that lacks the method and whose
interfaces have been met, are still to come, or are unknown. -/
def Searched (known : Universe) (name descriptor : String) (seen : Std.HashSet String)
    (pending : List String) : Prop :=
  ∀ other ∈ seen, ∀ type, known.find? other = some type →
    ¬ type.decl.Declares name descriptor ∧
      ∀ next ∈ type.interfaces, next ∈ seen ∨ next ∈ pending ∨ known.find? next = none

/-- A search may pass over names that it has met or that are unknown. -/
theorem Searched.passOver {seen : Std.HashSet String} {head : String} {rest : List String}
    (h : Searched known name descriptor seen (head :: rest))
    (hhead : head ∈ seen ∨ known.find? head = none) :
    Searched known name descriptor seen rest := by
  intro other hother type hfound
  obtain ⟨hlacks, hnext⟩ := h other hother type hfound
  refine ⟨hlacks, fun next hmem => ?_⟩
  rcases hnext next hmem with hmet | hpending | hunknown
  · exact .inl hmet
  · rcases List.mem_cons.mp hpending with rfl | hrest
    · exact hhead.imp id .inr
    · exact .inr (.inl hrest)
  · exact .inr (.inr hunknown)

/-- A search may exchange a type that lacks the method for its interfaces. -/
theorem Searched.meet {seen : Std.HashSet String} {head : String} {rest : List String}
    {type : IndexedClass} (h : Searched known name descriptor seen (head :: rest))
    (hhead : known.find? head = some type)
    (hlacks : ¬ type.decl.Declares name descriptor) :
    Searched known name descriptor (seen.insert head) (type.interfaces ++ rest) := by
  intro other hother found hfound
  rcases Std.HashSet.mem_insert.mp hother with heq | hother
  · rw [beq_iff_eq] at heq
    rw [← heq, hhead, Option.some.injEq] at hfound
    subst hfound
    exact ⟨hlacks, fun next hmem => .inr (.inl (List.mem_append.mpr (.inl hmem)))⟩
  · obtain ⟨hother, hnext⟩ := h other hother found hfound
    refine ⟨hother, fun next hmem => ?_⟩
    rcases hnext next hmem with hmet | hpending | hunknown
    · exact .inl (Std.HashSet.mem_insert.mpr (.inr hmet))
    · rcases List.mem_cons.mp hpending with rfl | hrest
      · exact .inl (Std.HashSet.mem_insert.mpr (.inl (by simp)))
      · exact .inr (.inl (List.mem_append.mpr (.inr hrest)))
    · exact .inr (.inr hunknown)

/-- A search that finds nothing has met only names that lead to no declaration. -/
theorem searchInterfaces_exhausts {seen : Std.HashSet String} {pending : List String}
    (hsearched : Searched known name descriptor seen pending)
    (h : known.searchInterfaces name descriptor seen pending = none) :
    ∃ names, WithoutMethod known name descriptor names ∧
      (∀ other, other ∈ seen ∨ known.find? other = none → names other) ∧
      ∀ other ∈ pending, names other := by
  fun_induction searchInterfaces known name descriptor seen pending with
  | case1 seen =>
      refine ⟨fun other => other ∈ seen ∨ known.find? other = none, ?_,
        fun _ hmem => hmem, by simp⟩
      intro other hother type hfound
      rcases hother with hother | hunknown
      · obtain ⟨hlacks, hnext⟩ := hsearched other hother type hfound
        exact ⟨hlacks, fun next hmem => by simpa using hnext next hmem⟩
      · simp [hfound] at hunknown
  | case2 seen head rest hseen ih =>
      obtain ⟨names, hnames, hmet, hpending⟩ := ih (hsearched.passOver (.inl hseen)) h
      exact ⟨names, hnames, hmet,
        List.forall_mem_cons.mpr ⟨hmet head (.inl hseen), hpending⟩⟩
  | case3 seen head rest _ hunknown ih =>
      obtain ⟨names, hnames, hmet, hpending⟩ := ih (hsearched.passOver (.inr hunknown)) h
      exact ⟨names, hnames, hmet,
        List.forall_mem_cons.mpr ⟨hmet head (.inr hunknown), hpending⟩⟩
  | case4 => simp at h
  | case5 seen head rest hseen type hfound hmethod ih =>
      rw [IndexedClass.findMethod_eq, ClassDecl.findMethod_eq_none_iff] at hmethod
      obtain ⟨names, hnames, hmet, hpending⟩ := ih (hsearched.meet hfound hmethod) h
      refine ⟨names, hnames, ?_, List.forall_mem_cons.mpr ⟨?_, ?_⟩⟩
      · intro other hother
        exact hmet other (hother.imp (fun hmem => Std.HashSet.mem_insert.mpr (.inr hmem)) id)
      · exact hmet head (.inl (Std.HashSet.mem_insert.mpr (.inl (by simp))))
      · exact fun other hmem => hpending other (List.mem_append.mpr (.inr hmem))

/-- The search finds nothing exactly when no type that is reached declares the method,
although it enters no type twice. -/
theorem searchInterfaces_eq_none_iff {pending : List String} :
    known.searchInterfaces name descriptor ∅ pending = none ↔
      ∀ decl, Reached known pending decl → ¬ decl.Declares name descriptor := by
  constructor
  · intro hnone decl hreached
    obtain ⟨names, hnames, _, hpending⟩ :=
      searchInterfaces_exhausts (fun _ hmem => absurd hmem (by simp)) hnone
    exact hnames.not_declares hpending hreached
  · intro hlacks
    cases hfound : known.searchInterfaces name descriptor ∅ pending with
    | none => rfl
    | some found =>
        obtain ⟨hreached, hmethod⟩ := searchInterfaces_sound hfound
        exact absurd (ClassDecl.declares_of_findMethod hmethod) (hlacks _ hreached)

end Universe

end Linkage
