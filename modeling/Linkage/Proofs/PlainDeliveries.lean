import Linkage.Proofs.Origins
import Mathlib.Data.List.Nodup
/-
Deliveries without folding.  Folding follows static calls, and the uses and declarations of
fields; it passes over every other kind of reference.  Of dependencies chosen among those
kinds, extraction delivers what its visit records, in the same order and without repeats.
-/

namespace Linkage

/-- Folding passes over references of a kind. -/
def ReferenceKind.IsPlain (kind : ReferenceKind) : Prop :=
  kind ≠ .staticCall ∧ kind.target ≠ .field ∧ kind ≠ .fieldDeclaration

instance : DecidablePred ReferenceKind.IsPlain := fun kind =>
  inferInstanceAs (Decidable (kind ≠ .staticCall ∧ kind.target ≠ .field ∧
    kind ≠ .fieldDeclaration))

theorem DraftOrigin.trail_eq_plain {decl : ClassDecl} {draft : Draft} (h : DraftOrigin decl draft)
    (hkind : draft.reference.kind.IsPlain) : draft.trail = .plain := by
  obtain ⟨hcall, htarget, hfield⟩ := hkind
  cases h with
  | instruction _ _ htrail => rw [htrail, bodyTrail_plain hcall htarget]
  | syntheticField _ hdraft =>
      exact absurd (congrArg (fun draft => draft.reference.kind) hdraft) hfield
  | other htrail _ => exact htrail

/-- Folding passes over every entry of some kinds. -/
def PlainAmong (kinds : List ReferenceKind) (entries : List Entry) : Prop :=
  ∀ entry ∈ entries, entry.reference.kind ∈ kinds → entry.trail = .plain

/-- A choice of dependencies among some kinds. -/
structure Choice (kinds : List ReferenceKind) where
  chosen : Reference.Identity → Bool
  kind_mem : ∀ identity, chosen identity = true → identity.kind ∈ kinds

/-- Changing items that are taken neither before nor after leaves those that are taken. -/
theorem filter_map_of_eq {α : Type} {keep : α → Bool} {change : α → α} {items : List α}
    (h : ∀ item ∈ items, change item = item ∨ (keep item = false ∧ keep (change item) = false)) :
    (items.map change).filter keep = items.filter keep := by
  induction items with
  | nil => rfl
  | cons item rest ih =>
      rw [List.forall_mem_cons] at h
      rw [List.map_cons, List.filter_cons, List.filter_cons, ih h.2]
      rcases h.1 with hsame | ⟨hbefore, hafter⟩
      · rw [hsame]
      · rw [hbefore, hafter, if_neg Bool.false_ne_true, if_neg Bool.false_ne_true]

namespace Choice

variable {kinds : List ReferenceKind} (choice : Choice kinds)

/-- The chosen references. -/
def of (references : List Reference) : List Reference :=
  references.filter (fun reference => choice.chosen reference.identity)

/-- The delivered entries for chosen dependencies. -/
def among (entries : List Entry) : List Entry :=
  entries.filter (fun entry => choice.chosen entry.reference.identity && entry.retained)

theorem mem_among {entries : List Entry} {entry : Entry} (h : entry ∈ choice.among entries) :
    entry ∈ entries ∧ entry.reference.kind ∈ kinds := by
  obtain ⟨hmem, hchosen⟩ := List.mem_filter.mp h
  exact ⟨hmem, choice.kind_mem _ (Bool.and_eq_true_iff.mp hchosen).1⟩

theorem among_foldAccessors (options : ExtractOptions) {entries : List Entry}
    (hplain : PlainAmong kinds entries) :
    choice.among (foldAccessors options entries) = choice.among entries := by
  have hdirect : choice.among (directUses options (.ofEntries entries) entries) = [] := by
    refine List.eq_nil_iff_forall_not_mem.mpr fun use huse => ?_
    obtain ⟨hmem, hkind⟩ := choice.mem_among huse
    obtain ⟨access, haccess, call, -, hreaches, rfl⟩ := mem_directUses.mp hmem
    -- A direct use has the kind of the use that it stands for.
    have htrail : access.trail = .syntheticAccess := hreaches.access_trail
    rw [hplain access haccess hkind] at htrail
    cases htrail
  rw [foldAccessors_eq, among, List.filter_append]
  refine (congrArg _ hdirect).trans ((List.append_nil _).trans (filter_map_of_eq ?_))
  intro entry hmem
  cases hfolds : (AccessorTable.ofEntries entries).folds entry with
  | false => exact .inl (if_neg Bool.false_ne_true)
  | true =>
      refine .inr ⟨?_, by simp [Entry.hidden]⟩
      -- An entry that is folded has a trail, and so another kind.
      refine Bool.eq_false_iff.mpr fun hkept => ?_
      have hkind := choice.kind_mem _ (Bool.and_eq_true_iff.mp hkept).1
      rw [AccessorTable.folds, hplain entry hmem hkind] at hfolds
      cases hfolds

/-- Extraction delivers chosen dependencies as its entries have them, without repeats. -/
theorem of_delivered (options : ExtractOptions) {entries : List Entry}
    (hplain : PlainAmong kinds entries) :
    choice.of (delivered (foldAccessors options entries)) =
      (distinctBy Entry.repeatKey (choice.among entries)).map Entry.reference := by
  have hkeep : ∀ left right : Entry, left.repeatKey = right.repeatKey →
      choice.chosen left.reference.identity = choice.chosen right.reference.identity :=
    fun _ _ hkey => congrArg (fun key => choice.chosen key.1) hkey
  rw [of, delivered, List.filter_map, ← choice.among_foldAccessors options hplain, among,
    ← List.filter_filter, ← distinctBy_filter _ _ hkeep]
  rfl

section View
variable {γ : Type} (view : Reference.Identity → γ)

/-- What a view shows of the chosen dependencies that are delivered, without repeats. -/
theorem distinct_of_delivered [DecidableEq γ] [BEq γ] [LawfulBEq γ] [Hashable γ]
    (options : ExtractOptions)
    {entries : List Entry} (hplain : PlainAmong kinds entries) :
    distinctBy id ((choice.of (delivered (foldAccessors options entries))).map
        (fun reference => view reference.identity)) =
      distinctBy id ((choice.among entries).map (fun entry => view entry.reference.identity)) := by
  have hfine : ∀ left right : Entry, left.repeatKey = right.repeatKey →
      view left.reference.identity = view right.reference.identity :=
    fun _ _ hkey => congrArg (fun key => view key.1) hkey
  rw [choice.of_delivered options hplain, List.map_map, distinctBy_map, distinctBy_map]
  exact congrArg _ (distinctBy_distinctBy (fun entry : Entry => view entry.reference.identity)
    Entry.repeatKey hfine _)

/-- Chosen dependencies that a view tells apart are all delivered. -/
theorem map_of_delivered (options : ExtractOptions) {entries : List Entry}
    (hplain : PlainAmong kinds entries)
    (hnodup : ((choice.among entries).map (fun entry => view entry.reference.identity)).Nodup) :
    (choice.of (delivered (foldAccessors options entries))).map
        (fun reference => view reference.identity) =
      (choice.among entries).map (fun entry => view entry.reference.identity) := by
  have hkeys : ((choice.among entries).map Entry.repeatKey).Nodup := by
    refine List.Nodup.of_map (fun key => view key.1) ?_
    rwa [List.map_map]
  rw [choice.of_delivered options hplain, distinctBy_of_nodup _ hkeys, List.map_map]
  rfl

/-- The chosen entries of an extraction are the records of its visit. -/
theorem map_among {options : ExtractOptions} {known : Universe} {steps : List (VisitStep known)}
    {entries : Array Entry} (hunlined : unlinedAll entries =
      (steps.flatMap VisitStep.records).map (Record.unlined options)) :
    (choice.among entries.toList).map (fun entry => view entry.reference.identity) =
      ((steps.flatMap VisitStep.records).filter (fun record =>
        choice.chosen record.draft.reference.identity &&
          options.considers record.scope record.draft.reference)).map
            (fun record => view record.draft.reference.identity) := by
  have hview : (choice.among entries.toList).map (fun entry => view entry.reference.identity) =
      ((unlinedAll entries).filter (fun entry =>
        choice.chosen entry.reference.identity && entry.retained)).map
          (fun entry => view entry.reference.identity) := by
    rw [unlinedAll, List.filter_map, List.map_map]
    rfl
  rw [hview, hunlined, List.filter_map, List.map_map]
  rfl

end View

end Choice

theorem PlainAmong.of_steps {kinds : List ReferenceKind} (hkinds : ∀ kind ∈ kinds, kind.IsPlain)
    {options : ExtractOptions} {known : Universe} {steps : List (VisitStep known)}
    {entries : Array Entry} (hunlined : unlinedAll entries =
      (steps.flatMap VisitStep.records).map (Record.unlined options)) :
    PlainAmong kinds entries.toList := by
  intro entry hmem hkind
  by_contra htrail
  obtain ⟨decl, -, draft, horigin, hsame⟩ := exists_draftOrigin hunlined hmem (.inr htrail)
  have hdraft : draft.trail = entry.trail := congrArg Footprint.trail hsame
  have hkindEq : draft.reference.kind = entry.reference.kind :=
    congrArg (fun footprint => footprint.identity.kind) hsame
  exact htrail (hdraft ▸ horigin.trail_eq_plain (hkindEq ▸ hkinds _ hkind))

/-! Drafts that only methods make. -/

/-- What a view shows of drafts that neither headers nor fields make is what it shows of the
methods of the types that a visit leaves, in order. -/
theorem map_filter_drafts_steps {known : Universe} {γ : Type} {keep : Draft → Bool}
    {view : Draft → γ} {shown : ClassDecl → MethodDecl → List γ}
    (hothers : ∀ (decl : ClassDecl) (own : OwnDrafts known decl),
      ∀ draft ∈ own.header ++ own.fields.flatten, keep draft = false)
    (hmethods : ∀ decl method drafts, (TypeSite.of known decl).methodDrafts method = .ok drafts →
      (drafts.filter keep).map view = shown decl method)
    (steps : List (VisitStep known)) :
    (((steps.flatMap VisitStep.records).map Record.draft).filter keep).map view =
      (leftTypes steps).flatMap (fun decl => decl.methods.flatMap (shown decl)) := by
  have hrecorded : ∀ (type : TypeSite) (drafts : List Draft),
      (type.recorded drafts).map Record.draft = drafts := by
    intro type drafts
    simp [TypeSite.recorded, Function.comp_def]
  have hnone : ∀ drafts : List Draft, (∀ draft ∈ drafts, keep draft = false) →
      drafts.filter keep = [] := by
    intro drafts h
    rw [List.filter_eq_nil_iff]
    exact fun draft hdraft => Bool.eq_false_iff.mp (h draft hdraft)
  induction steps with
  | nil => rfl
  | cons step rest ih =>
      rw [List.flatMap_cons, List.map_append, List.filter_append, List.map_append, ih]
      cases step with
      | enter decl own =>
          rw [VisitStep.records, hrecorded, hnone _ (fun draft hdraft =>
            hothers decl own draft (List.mem_append_left _ hdraft))]
          rfl
      | leave decl own =>
          have hmembers : (own.methods.flatten.filter keep).map view =
              decl.methods.flatMap (shown decl) := by
            rw [List.filter_flatten, List.map_flatten, List.map_map, ← List.flatMap_def]
            exact flatMap_of_mapM_eq_ok own.methods_eq (fun method _ drafts hdrafts =>
              hmethods decl method drafts (mapError_eq_ok hdrafts))
          rw [VisitStep.records, hrecorded, OwnDrafts.members, List.filter_append,
            hnone _ (fun draft hdraft => hothers decl own draft (List.mem_append_right _ hdraft)),
            List.nil_append, hmembers]
          rfl

end Linkage
