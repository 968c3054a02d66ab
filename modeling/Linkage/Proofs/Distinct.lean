import Linkage.Name
/-
Leaving repeats out and sorting by names.  What is kept covers every key, each key
once and by its first item; leaving repeats out goes well with taking a part, with
finer keys and with images.
-/

namespace Linkage

theorem mem_distinctAfter_imp_mem {α κ : Type} [DecidableEq κ] {key : α → κ}
    {seen : List κ} {items : List α} {item : α} (h : item ∈ distinctAfter key seen items) :
    item ∈ items := by
  induction items generalizing seen with
  | nil => simp [distinctAfter] at h
  | cons head rest ih =>
      by_cases hseen : key head ∈ seen
      · rw [distinctAfter, if_pos hseen] at h
        exact List.mem_cons_of_mem head (ih h)
      · rw [distinctAfter, if_neg hseen] at h
        rcases List.mem_cons.mp h with rfl | hrest
        · exact List.mem_cons_self
        · exact List.mem_cons_of_mem head (ih hrest)

/-- The key of an item has been seen before, or the first item with it is kept. -/
theorem distinctAfter_covers {α κ : Type} [DecidableEq κ] (key : α → κ) (seen : List κ)
    {items : List α} {item : α} (h : item ∈ items) :
    key item ∈ seen ∨ ∃ kept ∈ distinctAfter key seen items, key kept = key item := by
  induction items generalizing seen with
  | nil => simp at h
  | cons head rest ih =>
      by_cases hseen : key head ∈ seen
      · rw [distinctAfter, if_pos hseen]
        rcases List.mem_cons.mp h with rfl | hrest
        · exact .inl hseen
        · exact ih seen hrest
      · rw [distinctAfter, if_neg hseen]
        rcases List.mem_cons.mp h with rfl | hrest
        · exact .inr ⟨item, List.mem_cons_self, rfl⟩
        · rcases ih (key head :: seen) hrest with hold | ⟨kept, hkept, hkey⟩
          · rcases List.mem_cons.mp hold with heq | hold
            · exact .inr ⟨head, List.mem_cons_self, heq.symm⟩
            · exact .inl hold
          · exact .inr ⟨kept, List.mem_cons_of_mem head hkept, hkey⟩

theorem mem_distinctBy_imp_mem {α κ : Type} [DecidableEq κ] [BEq κ] [LawfulBEq κ]
    [Hashable κ] {key : α → κ} {items : List α} {item : α}
    (h : item ∈ distinctBy key items) : item ∈ items := by
  rw [distinctBy_eq_distinctAfter] at h
  exact mem_distinctAfter_imp_mem h

theorem distinctBy_covers {α κ : Type} [DecidableEq κ] [BEq κ] [LawfulBEq κ] [Hashable κ]
    (key : α → κ) {items : List α} {item : α} (h : item ∈ items) :
    ∃ kept ∈ distinctBy key items, key kept = key item := by
  rw [distinctBy_eq_distinctAfter]
  rcases distinctAfter_covers key [] h with hseen | hkept
  · simp at hseen
  · exact hkept

/-- What is kept is the first item of its key, and its key is new. -/
theorem first_of_mem_distinctAfter {α κ : Type} [DecidableEq κ] {key : α → κ}
    {seen : List κ} {items : List α} {item : α} (h : item ∈ distinctAfter key seen items) :
    key item ∉ seen ∧ ∃ earlier later, items = earlier ++ item :: later ∧
      ∀ other ∈ earlier, key other ≠ key item := by
  induction items generalizing seen with
  | nil => simp [distinctAfter] at h
  | cons head rest ih =>
      by_cases hseen : key head ∈ seen
      · rw [distinctAfter, if_pos hseen] at h
        obtain ⟨hnew, earlier, later, hsplit, hearlier⟩ := ih h
        refine ⟨hnew, head :: earlier, later, by rw [hsplit, List.cons_append], ?_⟩
        refine List.forall_mem_cons.mpr ⟨fun heq => ?_, hearlier⟩
        rw [heq] at hseen
        exact hnew hseen
      · rw [distinctAfter, if_neg hseen] at h
        rcases List.mem_cons.mp h with rfl | hrest
        · exact ⟨hseen, [], rest, rfl, by simp⟩
        · obtain ⟨hnew, earlier, later, hsplit, hearlier⟩ := ih hrest
          rw [List.mem_cons, not_or] at hnew
          refine ⟨hnew.2, head :: earlier, later, by rw [hsplit, List.cons_append], ?_⟩
          exact List.forall_mem_cons.mpr ⟨fun heq => hnew.1 heq.symm, hearlier⟩

/-- Leaving repeats out keeps the first item with each key. -/
theorem mem_distinctAfter_nil_iff {α κ : Type} [DecidableEq κ] {key : α → κ} {items : List α}
    {item : α} : item ∈ distinctAfter key [] items ↔
      items.find? (fun other => key other = key item) = some item := by
  have hfirst : ∀ {kept : α}, kept ∈ distinctAfter key [] items →
      items.find? (fun other => key other = key kept) = some kept := by
    intro kept hkept
    obtain ⟨-, earlier, later, hsplit, hearlier⟩ := first_of_mem_distinctAfter hkept
    exact List.find?_eq_some_iff_append.mpr ⟨by simp, earlier, later, hsplit,
      fun other hother => by simpa using hearlier other hother⟩
  refine ⟨hfirst, fun hfind => ?_⟩
  rcases distinctAfter_covers key [] (List.mem_of_find?_eq_some hfind) with
    hseen | ⟨kept, hkept, hkey⟩
  · exact absurd hseen List.not_mem_nil
  · have hsame := hfirst hkept
    rw [hkey, hfind] at hsame
    cases hsame
    exact hkept

theorem distinctAfter_sublist {α κ : Type} [DecidableEq κ] (key : α → κ) (seen : List κ)
    (items : List α) : (distinctAfter key seen items).Sublist items := by
  induction items generalizing seen with
  | nil => exact .slnil
  | cons item rest ih =>
      by_cases hseen : key item ∈ seen
      · rw [distinctAfter, if_pos hseen]
        exact (ih seen).cons item
      · rw [distinctAfter, if_neg hseen]
        exact (ih (key item :: seen)).cons_cons item

theorem nodup_distinctAfter {α κ : Type} [DecidableEq κ] (key : α → κ) (seen : List κ)
    (items : List α) : ((distinctAfter key seen items).map key).Nodup := by
  induction items generalizing seen with
  | nil => simp [distinctAfter]
  | cons head rest ih =>
      by_cases hseen : key head ∈ seen
      · rw [distinctAfter, if_pos hseen]
        exact ih seen
      · rw [distinctAfter, if_neg hseen, List.map_cons, List.nodup_cons]
        refine ⟨fun hmem => ?_, ih (key head :: seen)⟩
        obtain ⟨item, hitem, heq⟩ := List.mem_map.mp hmem
        have hnew := (first_of_mem_distinctAfter hitem).1
        rw [heq] at hnew
        exact hnew List.mem_cons_self

theorem first_of_mem_distinctBy {α κ : Type} [DecidableEq κ] [BEq κ] [LawfulBEq κ]
    [Hashable κ] {key : α → κ} {items : List α} {item : α}
    (h : item ∈ distinctBy key items) :
    ∃ earlier later, items = earlier ++ item :: later ∧
      ∀ other ∈ earlier, key other ≠ key item := by
  rw [distinctBy_eq_distinctAfter] at h
  exact (first_of_mem_distinctAfter h).2

/-- Every key is kept once. -/
theorem nodup_distinctBy {α κ : Type} [DecidableEq κ] [BEq κ] [LawfulBEq κ] [Hashable κ]
    (key : α → κ) (items : List α) : ((distinctBy key items).map key).Nodup := by
  rw [distinctBy_eq_distinctAfter]
  exact nodup_distinctAfter key [] items

theorem distinctAfter_of_nodup {α κ : Type} [DecidableEq κ] (key : α → κ) {seen : List κ}
    {items : List α} (hnew : ∀ item ∈ items, key item ∉ seen) (h : (items.map key).Nodup) :
    distinctAfter key seen items = items := by
  induction items generalizing seen with
  | nil => rfl
  | cons head rest ih =>
      rw [List.map_cons, List.nodup_cons] at h
      rw [List.forall_mem_cons] at hnew
      rw [distinctAfter, if_neg hnew.1, ih (fun item hitem hseen => ?_) h.2]
      rcases List.mem_cons.mp hseen with heq | hseen
      · exact h.1 (heq ▸ List.mem_map_of_mem hitem)
      · exact hnew.2 item hitem hseen

/-- Where every key occurs once there is nothing to leave out. -/
theorem distinctBy_of_nodup {α κ : Type} [DecidableEq κ] [BEq κ] [LawfulBEq κ] [Hashable κ]
    (key : α → κ) {items : List α} (h : (items.map key).Nodup) : distinctBy key items = items := by
  rw [distinctBy_eq_distinctAfter]
  exact distinctAfter_of_nodup key (by simp) h

/-- Keys that no item has need not be remembered. -/
theorem distinctAfter_congr {α κ : Type} [DecidableEq κ] (key : α → κ) {seen other : List κ}
    {items : List α} (h : ∀ item ∈ items, key item ∈ seen ↔ key item ∈ other) :
    distinctAfter key seen items = distinctAfter key other items := by
  induction items generalizing seen other with
  | nil => rfl
  | cons head rest ih =>
      have hhead := h head List.mem_cons_self
      have hrest : ∀ item ∈ rest, key item ∈ seen ↔ key item ∈ other :=
        fun item hitem => h item (List.mem_cons_of_mem head hitem)
      by_cases hseen : key head ∈ seen
      · rw [distinctAfter, distinctAfter, if_pos hseen, if_pos (hhead.mp hseen), ih hrest]
      · rw [distinctAfter, distinctAfter, if_neg hseen, if_neg (mt hhead.mpr hseen)]
        congr 1
        apply ih
        intro item hitem
        rw [List.mem_cons, List.mem_cons, hrest item hitem]

theorem distinctAfter_filter {α κ : Type} [DecidableEq κ] (key : α → κ) (keep : α → Bool)
    (hkeep : ∀ a b, key a = key b → keep a = keep b) (seen : List κ) (items : List α) :
    (distinctAfter key seen items).filter keep = distinctAfter key seen (items.filter keep) := by
  induction items generalizing seen with
  | nil => rfl
  | cons head rest ih =>
      by_cases hseen : key head ∈ seen
      · rw [distinctAfter, if_pos hseen, ih]
        cases hhead : keep head with
        | false => rw [List.filter_cons_of_neg (by simp [hhead])]
        | true => rw [List.filter_cons_of_pos hhead, distinctAfter, if_pos hseen]
      · rw [distinctAfter, if_neg hseen]
        cases hhead : keep head with
        | false =>
            have hnot : ¬ keep head = true := by simp [hhead]
            rw [List.filter_cons_of_neg hnot, List.filter_cons_of_neg hnot, ih]
            apply distinctAfter_congr
            intro item hitem
            have hne : key item ≠ key head := by
              intro heq
              have hkept := (List.mem_filter.mp hitem).2
              rw [hkeep item head heq, hhead] at hkept
              cases hkept
            simp [hne]
        | true =>
            rw [List.filter_cons_of_pos hhead, List.filter_cons_of_pos hhead, distinctAfter,
              if_neg hseen, ih]

/-- Taking a part that the keys decide goes well with leaving repeats out. -/
theorem distinctBy_filter {α κ : Type} [DecidableEq κ] [BEq κ] [LawfulBEq κ] [Hashable κ]
    (key : α → κ) (keep : α → Bool) (hkeep : ∀ a b, key a = key b → keep a = keep b)
    (items : List α) :
    (distinctBy key items).filter keep = distinctBy key (items.filter keep) := by
  rw [distinctBy_eq_distinctAfter, distinctBy_eq_distinctAfter]
  exact distinctAfter_filter key keep hkeep [] items

theorem distinctAfter_distinctAfter {α κ η : Type} [DecidableEq κ] [DecidableEq η]
    (key : α → κ) (fine : α → η) (hfine : ∀ a b, fine a = fine b → key a = key b)
    (seen : List κ) (seenFine : List η)
    (items : List α) (h : ∀ item ∈ items, fine item ∈ seenFine → key item ∈ seen) :
    distinctAfter key seen (distinctAfter fine seenFine items) = distinctAfter key seen items := by
  induction items generalizing seen seenFine with
  | nil => rfl
  | cons head rest ih =>
      have hrest : ∀ item ∈ rest, fine item ∈ seenFine → key item ∈ seen :=
        fun item hitem => h item (List.mem_cons_of_mem head hitem)
      by_cases hseenFine : fine head ∈ seenFine
      · have hseen := h head List.mem_cons_self hseenFine
        rw [distinctAfter, if_pos hseenFine, distinctAfter, if_pos hseen,
          ih seen seenFine hrest]
      · rw [distinctAfter, if_neg hseenFine]
        by_cases hseen : key head ∈ seen
        · rw [distinctAfter, if_pos hseen, distinctAfter, if_pos hseen]
          apply ih
          intro item hitem hmem
          rcases List.mem_cons.mp hmem with heq | hmem
          · rw [hfine item head heq]
            exact hseen
          · exact hrest item hitem hmem
        · rw [distinctAfter, if_neg hseen, distinctAfter, if_neg hseen]
          congr 1
          apply ih
          intro item hitem hmem
          rcases List.mem_cons.mp hmem with heq | hmem
          · rw [hfine item head heq]
            exact List.mem_cons_self
          · exact List.mem_cons_of_mem _ (hrest item hitem hmem)

/-- Leaving repeats of a finer key out first makes no difference. -/
theorem distinctBy_distinctBy {α κ η : Type} [DecidableEq κ] [BEq κ] [LawfulBEq κ]
    [Hashable κ] [DecidableEq η] [BEq η] [LawfulBEq η] [Hashable η] (key : α → κ)
    (fine : α → η) (hfine : ∀ a b, fine a = fine b → key a = key b) (items : List α) :
    distinctBy key (distinctBy fine items) = distinctBy key items := by
  simp only [distinctBy_eq_distinctAfter]
  exact distinctAfter_distinctAfter key fine hfine [] [] items (by simp)

theorem distinctBy_map {α β κ : Type} [DecidableEq κ] [BEq κ] [LawfulBEq κ] [Hashable κ]
    (key : β → κ) (image : α → β) (items : List α) :
    distinctBy key (items.map image) = (distinctBy (fun a => key (image a)) items).map image := by
  simp only [distinctBy_eq_distinctAfter]
  generalize ([] : List κ) = seen
  induction items generalizing seen with
  | nil => rfl
  | cons head rest ih =>
      rw [List.map_cons, distinctAfter, distinctAfter]
      split
      · exact ih seen
      · rw [List.map_cons, ih]

/-! Sorting by names. -/

/-- Whether one list of names does not come after another. -/
def namesLE (left right : List String) : Bool := (compare left right).isLE

theorem sortByNames_eq_mergeSort {α : Type} (key : α → List String) (items : List α) :
    sortByNames key items =
      items.mergeSort (fun left right => namesLE (key left) (key right)) := by
  have hmap := @List.map_mergeSort α (List String × α)
    (fun left right => namesLE (key left) (key right))
    (fun left right => namesLE left.1 right.1) (fun item => (key item, item)) items
    (fun _ _ _ _ => rfl)
  change ((items.map (fun item => (key item, item))).mergeSort
    (fun left right => namesLE left.1 right.1)).map Prod.snd = _
  rw [← hmap, List.map_map]
  exact List.map_id _

theorem sortByNames_perm {α : Type} (key : α → List String) (items : List α) :
    (sortByNames key items).Perm items := by
  rw [sortByNames_eq_mergeSort]
  exact List.mergeSort_perm items _

/-- Sorting images that keep their keys is sorting the items. -/
theorem sortByNames_map {α β : Type} (key : β → List String) (image : α → β)
    (items : List α) :
    sortByNames key (items.map image) =
      (sortByNames (fun item => key (image item)) items).map image := by
  have hmap := @List.map_mergeSort α β
    (fun left right => namesLE (key (image left)) (key (image right)))
    (fun left right => namesLE (key left) (key right)) image items (fun _ _ _ _ => rfl)
  rw [sortByNames_eq_mergeSort, sortByNames_eq_mergeSort, hmap]

/-- Items with different keys are sorted in strictly ascending order. -/
theorem sortByNames_ascending {α : Type} {key : α → List String} {items : List α}
    (h : (items.map key).Nodup) :
    (sortByNames key items).Pairwise (fun left right => compare (key left) (key right) = .lt) := by
  have hsorted : (sortByNames key items).Pairwise
      (fun left right => namesLE (key left) (key right) = true) := by
    rw [sortByNames_eq_mergeSort]
    apply List.pairwise_mergeSort
    · intro a b c
      exact Std.TransOrd.isLE_trans
    · intro a b
      rw [namesLE, namesLE, Std.OrientedOrd.eq_swap (a := key b)]
      cases compare (key a) (key b) <;> rfl
  have hdistinct : (sortByNames key items).Pairwise (fun left right => key left ≠ key right) := by
    have hnodup := ((sortByNames_perm key items).map key).nodup_iff.mpr h
    exact List.pairwise_map.mp hnodup
  refine (hsorted.and hdistinct).imp ?_
  rintro a b ⟨hle, hne⟩
  cases horder : compare (key a) (key b) with
  | lt => rfl
  | eq => exact absurd (Std.LawfulEqOrd.eq_of_compare horder) hne
  | gt => simp [namesLE, horder] at hle

theorem compare_names_cons {left right : List String} {first second : String} :
    compare (first :: left) (second :: right) = .lt ↔
      first < second ∨ first = second ∧ compare left right = .lt := by
  rw [List.compare_cons_cons, Ordering.then_eq_lt, Std.LawfulEqOrd.compare_eq_iff_eq]
  exact or_congr_left compareOfLessAndEq_eq_lt

@[simp] theorem mem_distinctBy_id {α : Type} [DecidableEq α] [Hashable α] {items : List α}
    {item : α} : item ∈ distinctBy id items ↔ item ∈ items := by
  constructor
  · exact mem_distinctBy_imp_mem
  · intro h
    obtain ⟨kept, hkept, rfl⟩ := distinctBy_covers id h
    exact hkept

end Linkage
