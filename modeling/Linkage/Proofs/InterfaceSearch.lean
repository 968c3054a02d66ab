import Linkage.Proofs.Hierarchy
import Mathlib.Logic.Relation
/-
The search through interfaces is depth-first.  It enters no name twice, which only
saves work: on an acyclic hierarchy a name that comes up again has been searched to
its end without success, so that the search finds the first declaration of the plain
depth-first order.
-/

namespace Linkage

/-- A direct super type: the super class or a declared interface. -/
def SuperType (known : Universe) (sub super : ClassDecl) : Prop :=
  (∃ name, sub.superName = some name ∧ known.lookup (qualifiedName name) = some super) ∨
    DeclaresInterface known sub super

/-- No type is above itself. -/
def AcyclicHierarchy (known : Universe) : Prop :=
  ∀ decl, ¬ Relation.TransGen (SuperType known) decl decl

/-- No interface is among its own super interfaces. -/
def AcyclicInterfaces (known : Universe) : Prop :=
  ∀ decl, ¬ SuperInterface known decl decl

theorem AcyclicHierarchy.acyclicInterfaces {known : Universe} (h : AcyclicHierarchy known) :
    AcyclicInterfaces known := by
  intro decl hcycle
  have hsuper : DeclaresInterface known ≤ SuperType known := fun _ _ hdeclares => .inr hdeclares
  exact h decl (Relation.TransGen.mono hsuper decl decl hcycle)

theorem declaresInterface_of_mem {known : Universe} {type super : IndexedClass} {name : String}
    (hmem : name ∈ type.interfaces) (hfound : known.find? name = some super) :
    DeclaresInterface known type.decl super.decl := by
  rw [type.interfaces_eq] at hmem
  obtain ⟨internal, hinternal, rfl⟩ := List.mem_map.mp hmem
  exact ⟨internal, hinternal, Universe.lookup_of_find? hfound⟩

theorem SuperType.lookup_eq {known : Universe} {sub super : ClassDecl}
    (h : SuperType known sub super) : known.lookup super.qualifiedName = some super := by
  rcases h with ⟨name, -, hname⟩ | ⟨name, -, hname⟩ <;>
    rw [Universe.lookup_name hname] <;> exact hname

theorem lookup_eq_of_above {known : Universe} {sub super : ClassDecl}
    (h : Relation.TransGen (SuperType known) sub super) :
    known.lookup super.qualifiedName = some super := by
  cases h with
  | single hstep => exact hstep.lookup_eq
  | tail _ hstep => exact hstep.lookup_eq

/-- A hierarchy is acyclic if its types are ranked above their super types. -/
theorem AcyclicHierarchy.of_rank {known : Universe} (rank : ClassDecl → Nat)
    (hrank : ∀ sub super, known.lookup sub.qualifiedName = some sub →
      SuperType known sub super → rank super < rank sub) : AcyclicHierarchy known := by
  have habove : ∀ {sub super}, known.lookup sub.qualifiedName = some sub →
      Relation.TransGen (SuperType known) sub super → rank super < rank sub := by
    intro sub super hsub h
    induction h with
    | single hsuper => exact hrank _ _ hsub hsuper
    | tail hmiddle hsuper ih =>
        exact Nat.lt_trans (hrank _ _ (lookup_eq_of_above hmiddle) hsuper) ih
  intro decl hcycle
  exact Nat.lt_irrefl _ (habove (lookup_eq_of_above hcycle) hcycle)

/-- The first declaration of a method in depth-first order: a listed type comes before
what it inherits, and this before the names that are listed later.  No name is remembered, so
that what comes up again is searched again. -/
inductive FirstDeclared (known : Universe) (name descriptor : String) :
    List String → Option FoundMethod → Prop where
  | nil : FirstDeclared known name descriptor [] none
  | unknown {head : String} {rest : List String} {result : Option FoundMethod}
      (hhead : known.find? head = none) (hrest : FirstDeclared known name descriptor rest result) :
      FirstDeclared known name descriptor (head :: rest) result
  | declares {head : String} {rest : List String} {type : IndexedClass} {method : MethodDecl}
      (hhead : known.find? head = some type)
      (hmethod : type.decl.findMethod name descriptor = some method) :
      FirstDeclared known name descriptor (head :: rest) (some ⟨type.decl, method⟩)
  | inherited {head : String} {rest : List String} {type : IndexedClass} {found : FoundMethod}
      (hhead : known.find? head = some type) (hlacks : ¬ type.decl.Declares name descriptor)
      (hbelow : FirstDeclared known name descriptor type.interfaces (some found)) :
      FirstDeclared known name descriptor (head :: rest) (some found)
  | later {head : String} {rest : List String} {type : IndexedClass}
      {result : Option FoundMethod}
      (hhead : known.find? head = some type) (hlacks : ¬ type.decl.Declares name descriptor)
      (hbelow : FirstDeclared known name descriptor type.interfaces none)
      (hrest : FirstDeclared known name descriptor rest result) :
      FirstDeclared known name descriptor (head :: rest) result

namespace FirstDeclared

variable {known : Universe} {name descriptor : String}

/-- Names without a declaration may stand before others. -/
theorem append {front rest : List String} {result : Option FoundMethod}
    (hfront : FirstDeclared known name descriptor front none)
    (hrest : FirstDeclared known name descriptor rest result) :
    FirstDeclared known name descriptor (front ++ rest) result := by
  generalize hnone : (none : Option FoundMethod) = missing at hfront
  induction hfront with
  | nil => exact hrest
  | unknown hhead _ ih => exact .unknown hhead (ih hnone)
  | declares => cases hnone
  | inherited => cases hnone
  | later hhead hlacks hbelow _ _ ih => exact .later hhead hlacks hbelow (ih hnone)

/-- The first declaration is among the first names, or these have none. -/
theorem of_append {front rest : List String} {result : Option FoundMethod}
    (h : FirstDeclared known name descriptor (front ++ rest) result) :
    (∃ found, result = some found ∧ FirstDeclared known name descriptor front (some found)) ∨
      (FirstDeclared known name descriptor front none ∧
        FirstDeclared known name descriptor rest result) := by
  induction front with
  | nil => exact .inr ⟨.nil, h⟩
  | cons head front ih =>
      rw [List.cons_append] at h
      cases h with
      | unknown hhead hrest =>
          exact (ih hrest).imp (fun ⟨found, heq, hfront⟩ => ⟨found, heq, .unknown hhead hfront⟩)
            (fun ⟨hfront, hrest⟩ => ⟨.unknown hhead hfront, hrest⟩)
      | declares hhead hmethod => exact .inl ⟨_, rfl, .declares hhead hmethod⟩
      | inherited hhead hlacks hbelow => exact .inl ⟨_, rfl, .inherited hhead hlacks hbelow⟩
      | later hhead hlacks hbelow hrest =>
          exact (ih hrest).imp
            (fun ⟨found, heq, hfront⟩ => ⟨found, heq, .later hhead hlacks hbelow hfront⟩)
            (fun ⟨hfront, hrest⟩ => ⟨.later hhead hlacks hbelow hfront, hrest⟩)

/-- There is one first declaration at most, or there is none. -/
theorem unique {names : List String} {left right : Option FoundMethod}
    (hleft : FirstDeclared known name descriptor names left)
    (hright : FirstDeclared known name descriptor names right) : left = right := by
  have hsame : ∀ {head : String} {type twin : IndexedClass}, known.find? head = some type →
      known.find? head = some twin → twin = type :=
    fun htype htwin => Option.some.inj (htwin.symm.trans htype)
  induction hleft generalizing right with
  | nil => cases hright; rfl
  | unknown hhead _ ih =>
      cases hright with
      | unknown _ hrest => exact ih hrest
      | declares hother => simp [hhead] at hother
      | inherited hother => simp [hhead] at hother
      | later hother => simp [hhead] at hother
  | declares hhead hmethod =>
      have hdeclares := ClassDecl.declares_of_findMethod hmethod
      cases hright with
      | unknown hother => simp [hhead] at hother
      | declares hother hmet =>
          obtain rfl := hsame hhead hother
          rw [hmethod, Option.some.injEq] at hmet
          rw [hmet]
      | inherited hother hlacks => exact absurd (hsame hhead hother ▸ hdeclares) hlacks
      | later hother hlacks => exact absurd (hsame hhead hother ▸ hdeclares) hlacks
  | inherited hhead hlacks _ ih =>
      cases hright with
      | unknown hother => simp [hhead] at hother
      | declares hother hmet =>
          obtain rfl := hsame hhead hother
          exact absurd (ClassDecl.declares_of_findMethod hmet) hlacks
      | inherited hother _ hbelow => exact ih (hsame hhead hother ▸ hbelow)
      | later hother _ hnone => cases ih (hsame hhead hother ▸ hnone)
  | later hhead hlacks _ _ ihBelow ihRest =>
      cases hright with
      | unknown hother => simp [hhead] at hother
      | declares hother hmet =>
          obtain rfl := hsame hhead hother
          exact absurd (ClassDecl.declares_of_findMethod hmet) hlacks
      | inherited hother _ hbelow => cases ihBelow (hsame hhead hother ▸ hbelow)
      | later _ _ _ hrest => exact ihRest hrest

/-- A listed type that declares the method comes before everything else. -/
theorem eq_head {head : String} {rest : List String} {result : Option FoundMethod}
    {decl : ClassDecl} {method : MethodDecl}
    (h : FirstDeclared known name descriptor (head :: rest) result)
    (hhead : known.lookup head = some decl)
    (hmethod : decl.findMethod name descriptor = some method) :
    result = some ⟨decl, method⟩ := by
  have hdeclares := ClassDecl.declares_of_findMethod hmethod
  obtain ⟨type, hfound, rfl⟩ := Universe.lookup_eq_some_iff.mp hhead
  cases h with
  | unknown hunknown => simp [hfound] at hunknown
  | declares hother hmet =>
      rw [hfound, Option.some.injEq] at hother
      rw [← hother, hmethod, Option.some.injEq] at hmet
      rw [hother, hmet]
  | inherited hother hlacks =>
      rw [hfound, Option.some.injEq] at hother
      exact absurd (hother ▸ hdeclares) hlacks
  | later hother hlacks =>
      rw [hfound, Option.some.injEq] at hother
      exact absurd (hother ▸ hdeclares) hlacks

end FirstDeclared

namespace Universe

variable {known : Universe} {name descriptor : String}

/-- A name that a search has entered, with what is left of its search: names above it, at
the front of those to come. -/
def Underway (known : Universe) (name descriptor : String) (pending : List String)
    (entered : String) : Prop :=
  ∃ type mine rest, known.find? entered = some type ∧ pending = mine ++ rest ∧
    (∀ other ∈ mine, ∀ above, known.find? other = some above →
      SuperInterface known type.decl above.decl) ∧
    (FirstDeclared known name descriptor mine none →
      FirstDeclared known name descriptor [entered] none)

/-- A name that comes up again has been searched to its end. -/
theorem Underway.finished (hacyclic : AcyclicInterfaces known) {head : String}
    {rest : List String} (h : Underway known name descriptor (head :: rest) head) :
    FirstDeclared known name descriptor [head] none := by
  obtain ⟨type, mine, later, hfound, hpending, habove, hdone⟩ := h
  cases mine with
  | nil => exact hdone .nil
  | cons other mine =>
      rw [List.cons_append, List.cons.injEq] at hpending
      rw [← hpending.1] at habove
      exact absurd (habove head List.mem_cons_self type hfound) (hacyclic type.decl)

/-- A name without a declaration may be passed over. -/
theorem Underway.passOver {head entered : String} {rest : List String}
    (hhead : FirstDeclared known name descriptor [head] none)
    (h : Underway known name descriptor (head :: rest) entered) :
    Underway known name descriptor rest entered := by
  obtain ⟨type, mine, later, hfound, hpending, habove, hdone⟩ := h
  cases mine with
  | nil => exact ⟨type, [], rest, hfound, rfl, by simp, hdone⟩
  | cons other mine =>
      rw [List.cons_append, List.cons.injEq] at hpending
      obtain ⟨rfl, rfl⟩ := hpending
      exact ⟨type, mine, later, hfound, rfl,
        fun next hnext => habove next (List.mem_cons_of_mem _ hnext),
        fun hmine => hdone (hhead.append hmine)⟩

/-- A type without the method may be exchanged for its interfaces. -/
theorem Underway.enter {head entered : String} {rest : List String} {type : IndexedClass}
    (hfound : known.find? head = some type) (hlacks : ¬ type.decl.Declares name descriptor)
    (h : Underway known name descriptor (head :: rest) entered) :
    Underway known name descriptor (type.interfaces ++ rest) entered := by
  obtain ⟨start, mine, later, hentered, hpending, habove, hdone⟩ := h
  cases mine with
  | nil => exact ⟨start, [], _, hentered, rfl, by simp, hdone⟩
  | cons other mine =>
      rw [List.cons_append, List.cons.injEq] at hpending
      obtain ⟨rfl, rfl⟩ := hpending
      refine ⟨start, type.interfaces ++ mine, later, hentered, by simp, ?_, ?_⟩
      · intro next hnext above hknown
        rcases List.mem_append.mp hnext with hdeclared | hmine
        · have htype := habove head List.mem_cons_self type hfound
          exact htype.tail (declaresInterface_of_mem hdeclared hknown)
        · exact habove next (List.mem_cons_of_mem _ hmine) above hknown
      · intro hnone
        rcases hnone.of_append with ⟨found, heq, -⟩ | ⟨hbelow, hmine⟩
        · cases heq
        · exact hdone (.later hfound hlacks hbelow hmine)

/-- A type without the method is underway as soon as it is entered. -/
theorem Underway.start {head : String} {rest : List String} {type : IndexedClass}
    (hfound : known.find? head = some type) (hlacks : ¬ type.decl.Declares name descriptor) :
    Underway known name descriptor (type.interfaces ++ rest) head :=
  ⟨type, type.interfaces, rest, hfound, rfl,
    fun _ hother _ hknown => .single (declaresInterface_of_mem hother hknown),
    fun hbelow => .later hfound hlacks hbelow .nil⟩

theorem searchInterfaces_firstDeclared_of_underway (hacyclic : AcyclicInterfaces known)
    {seen : Std.HashSet String} {pending : List String}
    (hseen : ∀ entered ∈ seen, Underway known name descriptor pending entered) :
    FirstDeclared known name descriptor pending
      (known.searchInterfaces name descriptor seen pending) := by
  fun_induction searchInterfaces known name descriptor seen pending with
  | case1 => exact .nil
  | case2 seen head rest hhead ih =>
      have hfinished := (hseen head hhead).finished hacyclic
      exact hfinished.append (ih fun entered hentered =>
        (hseen entered hentered).passOver hfinished)
  | case3 seen head rest _ hfound ih =>
      exact .unknown hfound (ih fun entered hentered =>
        (hseen entered hentered).passOver (.unknown hfound .nil))
  | case4 seen head rest _ type hfound method hmethod =>
      rw [IndexedClass.findMethod_eq] at hmethod
      exact .declares hfound hmethod
  | case5 seen head rest _ type hfound hmethod ih =>
      rw [IndexedClass.findMethod_eq, ClassDecl.findMethod_eq_none_iff] at hmethod
      have hbelow := ih (fun entered hentered => by
        rcases Std.HashSet.mem_insert.mp hentered with heq | hold
        · rw [beq_iff_eq] at heq
          exact heq ▸ .start hfound hmethod
        · exact (hseen entered hold).enter hfound hmethod)
      rcases hbelow.of_append with ⟨found, heq, hinherited⟩ | ⟨hnone, hrest⟩
      · rw [heq]
        exact .inherited hfound hmethod hinherited
      · exact .later hfound hmethod hnone hrest

/-- Where interfaces are acyclic the search finds the first declaration. -/
theorem searchInterfaces_firstDeclared (hacyclic : AcyclicInterfaces known)
    (name descriptor : String) (pending : List String) :
    FirstDeclared known name descriptor pending
      (known.searchInterfaces name descriptor ∅ pending) :=
  searchInterfaces_firstDeclared_of_underway hacyclic (by simp)

end Universe

end Linkage
