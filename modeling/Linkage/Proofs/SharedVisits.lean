import Linkage.Proofs.DefaultProviders
/-
Searches that hand on the names that they have met.  A search through interfaces may go down
into each type before it goes on, and leave its names to the next search.  It finds what the
search over one list of pending names finds: a type that is passed over has been searched, or is
being searched further up, and what is below it is searched there.  Lists of interfaces that are
searched in turn need not be searched anew.
-/

namespace Linkage

/-- What a search through interfaces leaves: the declaration that it found, if any, and the
names that it has met, those from before among them. -/
structure InterfaceVisit (seen : Std.HashSet String) where
  found : Option FoundMethod
  met : Std.HashSet String
  kept : ∀ name ∈ seen, name ∈ met

/-- The same visit for a search that had met fewer names. -/
def InterfaceVisit.since {seen earlier : Std.HashSet String} (visit : InterfaceVisit seen)
    (h : ∀ name ∈ earlier, name ∈ seen) : InterfaceVisit earlier where
  found := visit.found
  met := visit.met
  kept name hname := visit.kept name (h name hname)

namespace Universe

theorem unseen_length_le (known : Universe) {seen met : Std.HashSet String}
    (h : ∀ name ∈ seen, name ∈ met) : (known.unseen met).length ≤ (known.unseen seen).length := by
  simp only [unseen, ← List.countP_eq_length_filter]
  apply List.countP_mono_left
  intro name _ hunmet
  simp only [decide_eq_true_eq] at hunmet ⊢
  exact mt (h name) hunmet

theorem mem_insert_of_mem {seen : Std.HashSet String} (head : String) {name : String}
    (h : name ∈ seen) : name ∈ seen.insert head :=
  Std.HashSet.mem_insert.mpr (.inr h)

/-- Depth-first search for a method through interfaces in declaration order, each with what is
below it before the next.  Names met before are passed over, wherever they were met. -/
def visitInterfaces (known : Universe) (name descriptor : String) (seen : Std.HashSet String)
    (pending : List String) : InterfaceVisit seen :=
  match pending with
  | [] => ⟨none, seen, fun _ h => h⟩
  | head :: rest =>
      if _hseen : head ∈ seen then known.visitInterfaces name descriptor seen rest
      else
        match _hfound : known.find? head with
        | none =>
            (known.visitInterfaces name descriptor (seen.insert head) rest).since
              (fun _ => mem_insert_of_mem head)
        | some type =>
            match type.findMethod name descriptor with
            | some method =>
                ⟨some ⟨type.decl, method⟩, seen.insert head, fun _ => mem_insert_of_mem head⟩
            | none =>
                let below :=
                  known.visitInterfaces name descriptor (seen.insert head) type.interfaces
                match below.found with
                | some found =>
                    ⟨some found, below.met, fun _ h => below.kept _ (mem_insert_of_mem head h)⟩
                | none =>
                    (known.visitInterfaces name descriptor below.met rest).since
                      (fun _ h => below.kept _ (mem_insert_of_mem head h))
termination_by ((known.unseen seen).length, pending.length)
decreasing_by
  · apply Prod.Lex.right
    simp
  · exact Prod.Lex.right' _ (known.unseen_length_le fun _ => mem_insert_of_mem head) (by simp)
  · apply Prod.Lex.left
    exact unseen_length_lt _hfound _hseen
  · apply Prod.Lex.left
    exact Nat.lt_of_le_of_lt (known.unseen_length_le below.kept)
      (unseen_length_lt _hfound _hseen)

/-- Searches through several lists of interfaces in turn, up to the first declaration.  Each
passes over the names that the ones before have met. -/
def visitLists (known : Universe) (name descriptor : String) (seen : Std.HashSet String) :
    List (List String) → Option FoundMethod
  | [] => none
  | pending :: others =>
      let visit := known.visitInterfaces name descriptor seen pending
      match visit.found with
      | some found => some found
      | none => known.visitLists name descriptor visit.met others

section Visits
variable {known : Universe} {name descriptor : String}

/-- Names that have been met, or are unknown, may be left out in front of others. -/
theorem searchInterfaces_append_met {seen : Std.HashSet String} {front rest : List String}
    (h : ∀ other ∈ front, other ∈ seen ∨ known.find? other = none) :
    known.searchInterfaces name descriptor seen (front ++ rest) =
      known.searchInterfaces name descriptor seen rest := by
  induction front with
  | nil => rfl
  | cons head front ih =>
      rw [List.forall_mem_cons] at h
      rw [List.cons_append]
      rcases h.1 with hseen | hunknown
      · rw [searchInterfaces_met hseen]
        exact ih h.2
      · rw [searchInterfaces_unknown hunknown]
        exact ih h.2

/-- A search that has met further names, all of which lead to no declaration, finds the same:
where one search goes down from such a name, the other passes over everything there. -/
theorem searchInterfaces_eq_of_withoutMethod {names : String → Prop}
    (hnames : WithoutMethod known name descriptor names) {seen met : Std.HashSet String}
    {pending : List String} (hkept : ∀ other ∈ seen, other ∈ met)
    (hmore : ∀ other ∈ met, other ∈ seen ∨ names other)
    (hcovered : ∀ other, names other → other ∈ met ∨ known.find? other = none) :
    known.searchInterfaces name descriptor seen pending =
      known.searchInterfaces name descriptor met pending := by
  fun_induction searchInterfaces known name descriptor seen pending generalizing met with
  | case1 => rw [searchInterfaces]
  | case2 seen head rest hseen ih =>
      rw [ih hkept hmore hcovered, searchInterfaces_met (hkept head hseen)]
  | case3 seen head rest _ hunknown ih =>
      rw [ih hkept hmore hcovered, searchInterfaces_unknown hunknown]
  | case4 seen head rest hseen type hfound method hmethod =>
      have hdeclares := ClassDecl.declares_of_findMethod (type.findMethod_eq .. ▸ hmethod)
      have hmet : head ∉ met := by
        intro hmet
        rcases hmore head hmet with hold | hpassed
        · exact hseen hold
        · exact (hnames head hpassed type hfound).1 hdeclares
      rw [searchInterfaces_known hmet hfound, hmethod]
  | case5 seen head rest hseen type hfound hmethod ih =>
      by_cases hmet : head ∈ met
      · have hpassed : names head := (hmore head hmet).resolve_left hseen
        have hbelow := (hnames head hpassed type hfound).2
        rw [searchInterfaces_met hmet, ih _ _ hcovered,
          searchInterfaces_append_met fun other h => hcovered _ (hbelow other h)]
        · intro other hother
          rcases Std.HashSet.mem_insert.mp hother with heq | hold
          · exact beq_iff_eq.mp heq ▸ hmet
          · exact hkept other hold
        · exact fun other hother => (hmore other hother).imp (mem_insert_of_mem head) id
      · rw [searchInterfaces_known hmet hfound, hmethod]
        apply ih
        · intro other hother
          exact Std.HashSet.mem_insert.mpr ((Std.HashSet.mem_insert.mp hother).imp id (hkept other))
        · intro other hother
          rcases Std.HashSet.mem_insert.mp hother with heq | hold
          · exact .inl (Std.HashSet.mem_insert.mpr (.inl heq))
          · exact (hmore other hold).imp (mem_insert_of_mem head) id
        · exact fun other hother => (hcovered other hother).imp (mem_insert_of_mem head) id

/-- It does not matter whether an unknown name has been met. -/
theorem searchInterfaces_insert_unknown {seen : Std.HashSet String} {head : String}
    (hunknown : known.find? head = none) (pending : List String) :
    known.searchInterfaces name descriptor (seen.insert head) pending =
      known.searchInterfaces name descriptor seen pending := by
  have hnames : WithoutMethod known name descriptor (fun other => known.find? other = none) := by
    intro other hother type hfound
    simp [hother] at hfound
  refine (searchInterfaces_eq_of_withoutMethod hnames (fun _ => mem_insert_of_mem head) ?_
    fun _ => .inr).symm
  intro other hother
  rcases Std.HashSet.mem_insert.mp hother with heq | hold
  · exact .inr (beq_iff_eq.mp heq ▸ hunknown)
  · exact .inl hold

/-- A visit is the part of a search that comes before further pending names. -/
theorem searchInterfaces_append (seen : Std.HashSet String) (pending more : List String) :
    known.searchInterfaces name descriptor seen (pending ++ more) =
      (known.visitInterfaces name descriptor seen pending).found.or
        (known.searchInterfaces name descriptor
          (known.visitInterfaces name descriptor seen pending).met more) := by
  fun_induction visitInterfaces known name descriptor seen pending generalizing more with
  | case1 => rfl
  | case2 seen head rest hseen ih =>
      rw [List.cons_append, searchInterfaces_met hseen, ih]
  | case3 seen head rest _ hunknown ih =>
      rw [List.cons_append, searchInterfaces_unknown hunknown,
        ← searchInterfaces_insert_unknown hunknown, ih]
      rfl
  | case4 seen head rest hseen type hfound method hmethod =>
      rw [List.cons_append, searchInterfaces_known hseen hfound, hmethod]
      rfl
  | case5 seen head rest hseen type hfound hmethod below found hbelow ih =>
      have hfirst := ih (rest ++ more)
      change _ = below.found.or _ at hfirst
      rw [hbelow] at hfirst
      rw [List.cons_append, searchInterfaces_known hseen hfound, hmethod]
      exact hfirst
  | case6 seen head rest hseen type hfound hmethod below hbelow ih ihRest =>
      have hfirst := ih (rest ++ more)
      change _ = below.found.or (known.searchInterfaces name descriptor below.met _) at hfirst
      rw [hbelow, Option.none_or, ihRest] at hfirst
      rw [List.cons_append, searchInterfaces_known hseen hfound, hmethod]
      exact hfirst

/-- A visit finds what the search finds. -/
theorem visitInterfaces_found (seen : Std.HashSet String) (pending : List String) :
    (known.visitInterfaces name descriptor seen pending).found =
      known.searchInterfaces name descriptor seen pending := by
  have happend := @searchInterfaces_append known name descriptor seen pending []
  rw [List.append_nil] at happend
  rw [happend, searchInterfaces, Option.or_none]

/-- A visit that finds nothing has met every pending name, and each name that it has met leads
only to names that it has met. -/
theorem visitInterfaces_exhausts {seen : Std.HashSet String} {pending : List String}
    (h : (known.visitInterfaces name descriptor seen pending).found = none) :
    (∀ other ∈ pending, other ∈ (known.visitInterfaces name descriptor seen pending).met) ∧
      ∀ other ∈ (known.visitInterfaces name descriptor seen pending).met, other ∈ seen ∨
        ∀ type, known.find? other = some type → ¬ type.decl.Declares name descriptor ∧
          ∀ next ∈ type.interfaces,
            next ∈ (known.visitInterfaces name descriptor seen pending).met := by
  fun_induction visitInterfaces known name descriptor seen pending with
  | case1 => exact ⟨by simp, fun _ => .inl⟩
  | case2 seen head rest hseen ih =>
      obtain ⟨hpending, hmet⟩ := ih h
      exact ⟨List.forall_mem_cons.mpr ⟨InterfaceVisit.kept _ head hseen, hpending⟩, hmet⟩
  | case3 seen head rest _ hunknown ih =>
      obtain ⟨hpending, hmet⟩ := ih h
      have hkept := (known.visitInterfaces name descriptor (seen.insert head) rest).kept
      refine ⟨List.forall_mem_cons.mpr ⟨hkept head Std.HashSet.mem_insert_self, hpending⟩, ?_⟩
      intro other hother
      rcases hmet other hother with hold | hexhausted
      · rcases Std.HashSet.mem_insert.mp hold with heq | hseen
        · refine .inr fun type hfound => ?_
          rw [← beq_iff_eq.mp heq, hunknown] at hfound
          cases hfound
        · exact .inl hseen
      · exact .inr hexhausted
  | case4 => cases h
  | case5 => cases h
  | case6 seen head rest hseen type hfound hmethod below hbelow ih ihRest =>
      obtain ⟨hinterfaces, hmet⟩ := ih hbelow
      obtain ⟨hpending, hrest⟩ := ihRest h
      have hkept := (known.visitInterfaces name descriptor below.met rest).kept
      rw [IndexedClass.findMethod_eq, ClassDecl.findMethod_eq_none_iff] at hmethod
      refine ⟨List.forall_mem_cons.mpr
        ⟨hkept head (below.kept head Std.HashSet.mem_insert_self), hpending⟩, ?_⟩
      intro other hother
      rcases hrest other hother with hmiddle | hexhausted
      · rcases hmet other hmiddle with hold | hexhausted
        · rcases Std.HashSet.mem_insert.mp hold with heq | hseen
          · refine .inr fun met hknown => ?_
            rw [← beq_iff_eq.mp heq, hfound, Option.some.injEq] at hknown
            rw [← hknown]
            exact ⟨hmethod, fun next hnext => hkept next (hinterfaces next hnext)⟩
          · exact .inl hseen
        · refine .inr fun met hknown => ?_
          obtain ⟨hlacks, hnext⟩ := hexhausted met hknown
          exact ⟨hlacks, fun next hmem => hkept next (hnext next hmem)⟩
      · exact .inr hexhausted

/-- Names that lead to no declaration stay so if a visit that finds nothing adds to them. -/
theorem withoutMethod_met {seen : Std.HashSet String} {pending : List String}
    (hseen : WithoutMethod known name descriptor (· ∈ seen))
    (h : (known.visitInterfaces name descriptor seen pending).found = none) :
    WithoutMethod known name descriptor
      (· ∈ (known.visitInterfaces name descriptor seen pending).met) := by
  intro other hother type hfound
  rcases (visitInterfaces_exhausts h).2 other hother with hold | hexhausted
  · obtain ⟨hlacks, hnext⟩ := hseen other hold type hfound
    exact ⟨hlacks, fun next hmem => InterfaceVisit.kept _ next (hnext next hmem)⟩
  · exact hexhausted type hfound

/-- Lists that are searched in turn, each passing over what the ones before have met, are
searched as one list. -/
theorem visitLists_eq_flatten (seen : Std.HashSet String) (lists : List (List String)) :
    known.visitLists name descriptor seen lists =
      known.searchInterfaces name descriptor seen lists.flatten := by
  induction lists generalizing seen with
  | nil => rw [List.flatten_nil, searchInterfaces, visitLists]
  | cons pending others ih =>
      rw [List.flatten_cons, searchInterfaces_append, visitLists]
      cases (known.visitInterfaces name descriptor seen pending).found with
      | some found => rfl
      | none => exact ih _

/-- Lists that are searched in turn need not be searched anew, if the names met before lead to
no declaration. -/
theorem visitLists_eq_findSome? {seen : Std.HashSet String}
    (hseen : WithoutMethod known name descriptor (· ∈ seen)) (lists : List (List String)) :
    known.visitLists name descriptor seen lists = lists.findSome? (fun pending =>
      (known.visitInterfaces name descriptor ∅ pending).found) := by
  induction lists generalizing seen with
  | nil => rfl
  | cons pending others ih =>
      have hanew : (known.visitInterfaces name descriptor ∅ pending).found =
          (known.visitInterfaces name descriptor seen pending).found := by
        rw [visitInterfaces_found, visitInterfaces_found]
        exact searchInterfaces_eq_of_withoutMethod hseen (by simp) (fun _ => .inr) (fun _ => .inl)
      rw [visitLists, List.findSome?_cons, hanew]
      cases hfound : (known.visitInterfaces name descriptor seen pending).found with
      | some found => rfl
      | none => exact ih (withoutMethod_met hseen hfound)

end Visits

end Universe

/-- The search through interfaces is exact on every universe, cyclic and incomplete ones included.
Going down into each type before the next, and handing on the names that it has met, it finds
what the search over pending names finds; it finds nothing exactly if no type that is reached
declares the method; where interfaces are acyclic, its answer is the one of the depth-first
search that remembers no names; and lists that are searched in turn, with the names met handed
on, give the first answer that searches of their own give, as do all the lists in one. -/
theorem visitInterfaces_exact (known : Universe) (name descriptor : String) :
    (∀ seen pending, (known.visitInterfaces name descriptor seen pending).found =
      known.searchInterfaces name descriptor seen pending) ∧
    (∀ pending, (known.visitInterfaces name descriptor ∅ pending).found = none ↔
      ∀ decl, Reached known pending decl → ¬ decl.Declares name descriptor) ∧
    (AcyclicInterfaces known → ∀ pending result,
      FirstDeclared known name descriptor pending result ↔
        (known.visitInterfaces name descriptor ∅ pending).found = result) ∧
    (∀ lists, known.visitLists name descriptor ∅ lists =
      lists.findSome? (fun pending => (known.visitInterfaces name descriptor ∅ pending).found)) ∧
    ∀ lists, known.visitLists name descriptor ∅ lists =
      known.searchInterfaces name descriptor ∅ lists.flatten := by
  refine ⟨Universe.visitInterfaces_found, fun pending => ?_, fun hacyclic pending result => ?_,
    Universe.visitLists_eq_findSome? ?_, Universe.visitLists_eq_flatten ∅⟩
  · rw [Universe.visitInterfaces_found]
    exact Universe.searchInterfaces_eq_none_iff
  · have hfirst := Universe.searchInterfaces_firstDeclared hacyclic name descriptor pending
    rw [Universe.visitInterfaces_found]
    constructor
    · exact fun h => hfirst.unique h
    · exact fun h => h ▸ hfirst
  · intro other hother
    simp at hother

/-- An interface that is listed and is also above another listed one: its method is found at the
lower one, and a method that neither declares is not found, though the upper one comes up
again. -/
theorem visitInterfaces_readerUniverse :
    AcyclicInterfaces readerUniverse ∧
      (readerUniverse.visitInterfaces "read" "()V" ∅ ["lib.Buffered", "lib.Source"]).found =
        some ⟨bufferedApi, readMethod false⟩ ∧
      (readerUniverse.visitInterfaces "skip" "()V" ∅ ["lib.Buffered", "lib.Source"]).found =
        none := by
  have hacyclic := acyclic_readerUniverse.acyclicInterfaces
  obtain ⟨source, hsource, hsourceDecl⟩ := Universe.lookup_eq_some_iff.mp lookup_sourceApi
  obtain ⟨buffered, hbuffered, hbufferedDecl⟩ := Universe.lookup_eq_some_iff.mp lookup_bufferedApi
  have hname : qualifiedName "lib/Source" = "lib.Source" := by decide +kernel
  have hbelow : buffered.interfaces = ["lib.Source"] := by
    rw [buffered.interfaces_eq, hbufferedDecl, ← hname]
    rfl
  have hlacks : ¬ bufferedApi.Declares "skip" "()V" ∧ ¬ sourceApi.Declares "skip" "()V" := by
    simp [ClassDecl.Declares, bufferedApi, sourceApi, readMethod]
  refine ⟨hacyclic, ?_, ?_⟩
  · refine ((visitInterfaces_exact readerUniverse "read" "()V").2.2.1 hacyclic _ _).mp ?_
    rw [← hbufferedDecl]
    exact .declares hbuffered (hbufferedDecl ▸ rfl)
  · refine ((visitInterfaces_exact readerUniverse "skip" "()V").2.2.1 hacyclic _ _).mp ?_
    have hupper : FirstDeclared readerUniverse "skip" "()V" ["lib.Source"] none :=
      .later hsource (hsourceDecl ▸ hlacks.2) (by
        rw [source.interfaces_eq, hsourceDecl]
        exact .nil) .nil
    exact .later hbuffered (hbufferedDecl ▸ hlacks.1) (hbelow ▸ hupper) hupper

end Linkage
