import Linkage.Proofs.Hierarchy
/-
The two walks along super classes.  One compares names as they are written, the
other compares qualified names, and a class may be written in more than one way:
the first walk goes further than the second on a cycle whose names change their
spelling.  What it meets there are classes that it has met before, so that lookups
along the two walks agree.
-/

namespace Linkage

namespace Universe

variable {known : Universe} {name descriptor : String}

/-- The known types of some names have their super class among these names, or next. -/
def ClosedUpTo (known : Universe) (names : Std.HashSet String) (next : Option String) : Prop :=
  ∀ other ∈ names, ∀ type, known.find? other = some type →
    type.superName = next ∨ ∃ super ∈ names, type.superName = some super

/-- The names stay closed if the next one is added. -/
theorem ClosedUpTo.insert {names : Std.HashSet String} {next : String} {type : IndexedClass}
    (h : ClosedUpTo known names (some next)) (hfound : known.find? next = some type) :
    ClosedUpTo known (names.insert next) type.superName := by
  intro other hother met hmet
  rcases Std.HashSet.mem_insert.mp hother with heq | hold
  · rw [beq_iff_eq] at heq
    rw [← heq, hfound, Option.some.injEq] at hmet
    exact .inl (by rw [hmet])
  · rcases h other hold met hmet with hnext | ⟨super, hsuper, hname⟩
    · exact .inr ⟨next, Std.HashSet.mem_insert_self, hnext⟩
    · exact .inr ⟨super, Std.HashSet.mem_insert.mpr (.inr hsuper), hname⟩

/-- Names that are closed up to one of them contain the super class of each known type. -/
theorem ClosedUpTo.super_mem {names : Std.HashSet String} {last name : String}
    {type : IndexedClass} (h : ClosedUpTo known names (some last)) (hlast : last ∈ names)
    (hname : name ∈ names) (hfound : known.find? name = some type) {written : String}
    (hwritten : type.decl.superName = some written) : qualifiedName written ∈ names := by
  have hsuper : type.superName = some (qualifiedName written) := by
    rw [type.superName_eq, hwritten, Option.map_some]
  rcases h name hname type hfound with heq | ⟨super, hmem, heq⟩
  · rw [hsuper, Option.some.injEq] at heq
    rwa [heq]
  · rw [hsuper, Option.some.injEq] at heq
    rwa [heq]

/-- A walk by written names stays among names that are closed. -/
theorem mem_superChain_of_closedUpTo {names met : Std.HashSet String} {next : Option String}
    {last : String} (hclosed : ClosedUpTo known names (some last)) (hlast : last ∈ names)
    (hnext : ∀ written, next = some written → qualifiedName written ∈ names)
    {type : IndexedClass} (htype : type ∈ known.superChain met next) :
    ∃ other ∈ names, known.find? other = some type := by
  fun_induction superChain known met next with
  | case1 => simp at htype
  | case2 => simp at htype
  | case3 => simp at htype
  | case4 met written _ head hfound ih =>
      have hwritten := hnext written rfl
      rcases List.mem_cons.mp htype with rfl | hrest
      · exact ⟨_, hwritten, hfound⟩
      · exact ih (fun _ hsuper => hclosed.super_mem hlast hwritten hfound hsuper) hrest

/-- Some names are the qualified names of written names. -/
def SpelledBy (met seen : Std.HashSet String) : Prop :=
  ∀ name, name ∈ seen ↔ ∃ written ∈ met, qualifiedName written = name

theorem SpelledBy.insert {met seen : Std.HashSet String} (h : SpelledBy met seen)
    (written : String) :
    SpelledBy (met.insert written) (seen.insert (qualifiedName written)) := by
  intro name
  simp only [Std.HashSet.mem_insert, beq_iff_eq, h name]
  constructor
  · rintro (rfl | ⟨spelling, hspelling, rfl⟩)
    · exact ⟨written, .inl rfl, rfl⟩
    · exact ⟨spelling, .inr hspelling, rfl⟩
  · rintro ⟨spelling, rfl | hspelling, rfl⟩
    · exact .inl rfl
    · exact .inr ⟨spelling, hspelling, rfl⟩

/-- The walk by written names is the walk by qualified names, and then meets classes
again. -/
theorem superChain_eq_append {met seen : Std.HashSet String} {next : Option String}
    {front : List IndexedClass}
    (hmet : SpelledBy met seen)
    (hfront : ∀ name ∈ seen, ∀ type, known.find? name = some type → type ∈ front)
    (hclosed : ClosedUpTo known seen (next.map qualifiedName)) :
    ∃ again, known.superChain met next =
        known.superClasses seen (next.map qualifiedName) ++ again ∧
      again ⊆ front ++ known.superClasses seen (next.map qualifiedName) := by
  fun_induction superChain known met next generalizing seen front with
  | case1 => exact ⟨[], by simp [superClasses], by simp⟩
  | case2 met written hwritten =>
      have hseen : qualifiedName written ∈ seen := (hmet _).mpr ⟨written, hwritten, rfl⟩
      exact ⟨[], by simp [superClasses, hseen], by simp⟩
  | case3 met written _ hunknown =>
      exact ⟨[], by rw [Option.map_some, superClasses_unknown hunknown]; rfl, by simp⟩
  | case4 met written hwritten type hfound ih =>
      rw [Option.map_some] at hclosed ⊢
      by_cases hseen : qualifiedName written ∈ seen
      · -- Another spelling of a name that was met: the walk by qualified names ends.
        rw [superClasses, dif_pos hseen]
        refine ⟨_, rfl, fun again hagain => ?_⟩
        rw [List.append_nil]
        rcases List.mem_cons.mp hagain with rfl | hrest
        · exact hfront _ hseen _ hfound
        · obtain ⟨other, hother, hknown⟩ := mem_superChain_of_closedUpTo hclosed hseen
            (fun _ hsuper => hclosed.super_mem hseen hseen hfound hsuper) hrest
          exact hfront other hother again hknown
      · have hmore : ∀ name ∈ seen.insert (qualifiedName written), ∀ other,
            known.find? name = some other → other ∈ front ++ [type] := by
          intro name hname other hother
          rcases Std.HashSet.mem_insert.mp hname with heq | hold
          · rw [beq_iff_eq] at heq
            rw [← heq, hfound, Option.some.injEq] at hother
            simp [hother]
          · exact List.mem_append_left _ (hfront name hold other hother)
        have hinsert := hclosed.insert hfound
        rw [type.superName_eq] at hinsert
        obtain ⟨again, heq, hagain⟩ := ih (hmet.insert written) hmore hinsert
        rw [superClasses_known hseen hfound, type.superName_eq, heq]
        exact ⟨again, rfl, fun other hother => by simpa using hagain hother⟩

/-- A known class has the same super classes along both walks, some of them again. -/
theorem superClassChain_eq_append {owner : String} {start : IndexedClass}
    (hstart : known.find? owner = some start) :
    ∃ again, known.superClassChain start = known.superClassPath start ++ again ∧
      again ⊆ known.superClassPath start := by
  have hname : start.name = owner := known.named owner start hstart
  have hmem : ∀ only name : String, name ∈ Std.HashSet.ofList [only] ↔ name = only := by
    intro only name
    rw [Std.HashSet.mem_ofList, List.contains_iff_mem, List.mem_singleton]
  have hself : ∀ name ∈ Std.HashSet.ofList [start.name], ∀ type,
      known.find? name = some type → type ∈ [start] := by
    intro name hseen type hfound
    rw [(hmem _ _).mp hseen, hname, hstart, Option.some.injEq] at hfound
    exact List.mem_singleton.mpr hfound.symm
  have hspelled : SpelledBy (.ofList [start.decl.name]) (.ofList [start.name]) := by
    intro name
    simp only [hmem, exists_eq_left, start.name_eq, ClassDecl.qualifiedName]
    exact eq_comm
  have hclosed : ClosedUpTo known (.ofList [start.name])
      (start.decl.superName.map qualifiedName) := by
    intro name hseen type hfound
    rw [List.mem_singleton.mp (hself name hseen type hfound)]
    exact .inl start.superName_eq
  obtain ⟨again, heq, hagain⟩ := superChain_eq_append hspelled hself hclosed
  rw [← start.superName_eq] at heq hagain
  exact ⟨again, by rw [superClassChain, heq]; rfl, hagain⟩

/-! Lookups do not notice classes that are met again. -/

theorem findSome?_append_of_subset {α β : Type} {read : α → Option β} {items again : List α}
    (h : again ⊆ items) : (items ++ again).findSome? read = items.findSome? read := by
  rw [List.findSome?_append]
  cases hfirst : items.findSome? read with
  | some => rfl
  | none =>
      rw [Option.none_or, List.findSome?_eq_none_iff]
      exact fun item hitem => List.findSome?_eq_none_iff.mp hfirst item (h hitem)

theorem searchInterfaces_append_of_some {seen : Std.HashSet String} {pending : List String}
    {found : FoundMethod} (more : List String)
    (h : known.searchInterfaces name descriptor seen pending = some found) :
    known.searchInterfaces name descriptor seen (pending ++ more) = some found := by
  fun_induction searchInterfaces known name descriptor seen pending with
  | case1 => simp at h
  | case2 seen head rest hseen ih =>
      rw [List.cons_append, searchInterfaces, dif_pos hseen]
      exact ih h
  | case3 seen head rest _ hfound ih =>
      rw [List.cons_append, searchInterfaces_unknown hfound]
      exact ih h
  | case4 seen head rest hseen type hfound method hmethod =>
      rw [List.cons_append, searchInterfaces_known hseen hfound, hmethod]
      exact h
  | case5 seen head rest hseen type hfound hmethod ih =>
      rw [List.cons_append, searchInterfaces_known hseen hfound, hmethod]
      rw [List.append_assoc] at ih
      exact ih h

theorem searchInterfaces_append_of_subset {pending again : List String}
    (h : again ⊆ pending) :
    known.searchInterfaces name descriptor ∅ (pending ++ again) =
      known.searchInterfaces name descriptor ∅ pending := by
  cases hfirst : known.searchInterfaces name descriptor ∅ pending with
  | some found => exact searchInterfaces_append_of_some again hfirst
  | none =>
      rw [searchInterfaces_eq_none_iff] at hfirst ⊢
      intro decl hreached
      apply hfirst decl
      apply hreached.of_names
      intro other hother
      exact .inl ((List.mem_append.mp hother).elim id (fun hagain => h hagain))

/-- A field is looked up along the class path. -/
theorem findField_eq {owner : String} {start : IndexedClass}
    (hstart : known.find? owner = some start) :
    known.findField owner name = (known.superClassPath start).findSome? (fun type =>
      (type.findField name).map (fun field => ⟨type.decl, field⟩)) := by
  obtain ⟨again, heq, hagain⟩ := superClassChain_eq_append hstart
  simp only [findField, hstart]
  rw [heq, findSome?_append_of_subset hagain]

/-- A method is looked up along the class path and then, for an open class, in the
interfaces of the classes on it. -/
theorem findClassMethod_eq {owner : String} {start : IndexedClass}
    (hstart : known.find? owner = some start) :
    known.findClassMethod start name descriptor =
      match declaredIn (known.superClassPath start) name descriptor with
      | some found => some found
      | none =>
          if start.decl.access.isAbstract || start.decl.access.isInterface then
            known.searchInterfaces name descriptor ∅
              ((known.superClassPath start).flatMap IndexedClass.interfaces)
          else none := by
  obtain ⟨again, heq, hagain⟩ := superClassChain_eq_append hstart
  rw [findClassMethod, heq, declaredIn, findSome?_append_of_subset hagain, List.flatMap_append,
    searchInterfaces_append_of_subset]
  · rfl
  · intro other hother
    obtain ⟨type, htype, hdeclared⟩ := List.mem_flatMap.mp hother
    exact List.mem_flatMap.mpr ⟨type, hagain htype, hdeclared⟩

end Universe

end Linkage
