import Linkage.Proofs.Provenance
import Linkage.Proofs.SettledLines
/-
Constructor calls and creations.  A constructor call, unless it is the one of the super
constructor, is recorded as two entries, one behind the other: the creation of the type and
the call.  Lines are assigned to both at once, whether by the body or by a replay at the
creation of a local type, so that one is delivered on a line exactly if the other is.
-/

namespace Linkage

/-- The kinds of the two references that a constructor call makes. -/
def constructionKinds : List ReferenceKind := [.instantiate, .constructorCall]

/-- The two entries of a constructor call. -/
structure Entry.Mates (creation call : Entry) : Prop where
  creation_kind : creation.reference.kind = .instantiate
  call_kind : call.reference.kind = .constructorCall
  source_eq : creation.reference.source = call.reference.source
  typeName_eq : creation.reference.typeName = call.reference.typeName
  line_eq : creation.line = call.line
  retained_eq : creation.retained = call.retained
  creation_trail : creation.trail = .plain
  call_trail : call.trail = .plain

theorem Entry.Mates.atLine {creation call : Entry} (h : creation.Mates call) (line : Int) :
    (creation.atLine line).Mates (call.atLine line) :=
  ⟨h.creation_kind, h.call_kind, h.source_eq, h.typeName_eq, rfl, h.retained_eq,
    h.creation_trail, h.call_trail⟩

/-- Entries in which creations and constructor calls stand in pairs. -/
inductive Coupled : List Entry → Prop where
  | nil : Coupled []
  | alone {entry : Entry} {rest : List Entry}
      (hkind : entry.reference.kind ∉ constructionKinds) (hrest : Coupled rest) :
      Coupled (entry :: rest)
  | pair {creation call : Entry} {rest : List Entry} (hmates : creation.Mates call)
      (hrest : Coupled rest) : Coupled (creation :: call :: rest)

namespace Coupled

theorem of_alone {entries : List Entry}
    (h : ∀ entry ∈ entries, entry.reference.kind ∉ constructionKinds) : Coupled entries := by
  induction entries with
  | nil => exact .nil
  | cons entry rest ih =>
      rw [List.forall_mem_cons] at h
      exact .alone h.1 (ih h.2)

theorem append {left right : List Entry} (hleft : Coupled left) (hright : Coupled right) :
    Coupled (left ++ right) := by
  induction hleft with
  | nil => exact hright
  | alone hkind _ ih => exact .alone hkind ih
  | pair hmates _ ih => exact .pair hmates ih

/-- Around an entry of another kind the entries stand in pairs. -/
theorem split_alone {front back : List Entry} {entry : Entry}
    (h : Coupled (front ++ entry :: back)) (hkind : entry.reference.kind ∉ constructionKinds) :
    Coupled front ∧ Coupled back := by
  generalize hall : front ++ entry :: back = all at h
  induction h generalizing front with
  | nil => simp at hall
  | @alone first rest hfirst hrest ih =>
      cases front with
      | nil =>
          obtain ⟨-, rfl⟩ := List.cons.inj hall
          exact ⟨.nil, hrest⟩
      | cons head front =>
          obtain ⟨rfl, htail⟩ := List.cons.inj hall
          exact ⟨.alone hfirst (ih htail).1, (ih htail).2⟩
  | @pair creation call rest hmates hrest ih =>
      rcases front with - | ⟨head, - | ⟨second, front⟩⟩
      · obtain ⟨rfl, -⟩ := List.cons.inj hall
        simp [constructionKinds, hmates.creation_kind] at hkind
      · obtain ⟨-, htail⟩ := List.cons.inj hall
        obtain ⟨rfl, -⟩ := List.cons.inj htail
        simp [constructionKinds, hmates.call_kind] at hkind
      · obtain ⟨rfl, htail⟩ := List.cons.inj hall
        obtain ⟨rfl, hlater⟩ := List.cons.inj htail
        exact ⟨.pair hmates (ih hlater).1, (ih hlater).2⟩

/-- Behind a creation stands its constructor call. -/
theorem split_creation {front back : List Entry} {creation : Entry}
    (h : Coupled (front ++ creation :: back)) (hkind : creation.reference.kind = .instantiate) :
    ∃ call rest, back = call :: rest ∧ creation.Mates call ∧ Coupled front ∧ Coupled rest := by
  generalize hall : front ++ creation :: back = all at h
  induction h generalizing front with
  | nil => simp at hall
  | @alone first rest hfirst hrest ih =>
      cases front with
      | nil =>
          obtain ⟨rfl, -⟩ := List.cons.inj hall
          simp [constructionKinds, hkind] at hfirst
      | cons head front =>
          obtain ⟨rfl, htail⟩ := List.cons.inj hall
          obtain ⟨call, rest, hback, hmates, hfront, hrest⟩ := ih htail
          exact ⟨call, rest, hback, hmates, .alone hfirst hfront, hrest⟩
  | @pair first second others hmates hrest ih =>
      rcases front with - | ⟨head, - | ⟨next, front⟩⟩
      · obtain ⟨rfl, rfl⟩ := List.cons.inj hall
        exact ⟨second, others, rfl, hmates, .nil, hrest⟩
      · obtain ⟨-, htail⟩ := List.cons.inj hall
        obtain ⟨rfl, -⟩ := List.cons.inj htail
        have hcall := hmates.call_kind
        rw [hkind] at hcall
        cases hcall
      · obtain ⟨rfl, htail⟩ := List.cons.inj hall
        obtain ⟨rfl, hlater⟩ := List.cons.inj htail
        obtain ⟨call, rest, hback, hother, hfront, hrest⟩ := ih hlater
        exact ⟨call, rest, hback, hother, .pair hmates hfront, hrest⟩

/-- Every creation has its constructor call. -/
theorem exists_call {entries : List Entry} (h : Coupled entries) {creation : Entry}
    (hmem : creation ∈ entries) (hkind : creation.reference.kind = .instantiate) :
    ∃ call ∈ entries, creation.Mates call := by
  obtain ⟨front, back, rfl⟩ := List.append_of_mem hmem
  obtain ⟨call, rest, rfl, hmates, -, -⟩ := h.split_creation hkind
  exact ⟨call, by simp, hmates⟩

/-- Every constructor call has its creation. -/
theorem exists_creation {entries : List Entry} (h : Coupled entries) {call : Entry}
    (hmem : call ∈ entries) (hkind : call.reference.kind = .constructorCall) :
    ∃ creation ∈ entries, creation.Mates call := by
  induction h with
  | nil => cases hmem
  | alone hother _ ih =>
      rcases List.mem_cons.mp hmem with rfl | hrest
      · simp [constructionKinds, hkind] at hother
      · obtain ⟨creation, hcreation, hmates⟩ := ih hrest
        exact ⟨creation, List.mem_cons_of_mem _ hcreation, hmates⟩
  | @pair creation second _ hmates _ ih =>
      rcases List.mem_cons.mp hmem with rfl | htail
      · have hcreation := hmates.creation_kind
        rw [hkind] at hcreation
        cases hcreation
      · rcases List.mem_cons.mp htail with rfl | hrest
        · exact ⟨creation, List.mem_cons_self, hmates⟩
        · obtain ⟨other, hother, hmates⟩ := ih hrest
          exact ⟨other, List.mem_cons_of_mem _ (List.mem_cons_of_mem _ hother), hmates⟩

end Coupled

/-! Positions that meet the two entries of a constructor call together. -/

/-- The kinds of entries, in order. -/
def entryKinds (entries : Array Entry) : List ReferenceKind :=
  entries.toList.map (fun entry => entry.reference.kind)

theorem entryKinds_unlinedAll (entries : Array Entry) :
    entryKinds entries = (unlinedAll entries).map (fun entry => entry.reference.kind) := by
  rw [entryKinds, unlinedAll, List.map_map]
  rfl

/-- Positions at entries of given kinds in which a creation is always followed by its
constructor call. -/
inductive CoupledPositions (kinds : List ReferenceKind) : List Position → Prop where
  | nil : CoupledPositions kinds []
  | label (pc : Nat) {rest : List Position} (hrest : CoupledPositions kinds rest) :
      CoupledPositions kinds (.label pc :: rest)
  | alone {index : Nat} {kind : ReferenceKind} {rest : List Position}
      (hindex : kinds[index]? = some kind) (hkind : kind ∉ constructionKinds)
      (hrest : CoupledPositions kinds rest) : CoupledPositions kinds (.entry index :: rest)
  | pair {index : Nat} {rest : List Position} (hindex : kinds[index]? = some .instantiate)
      (hrest : CoupledPositions kinds rest) :
      CoupledPositions kinds (.entry index :: .entry (index + 1) :: rest)

namespace CoupledPositions

variable {kinds : List ReferenceKind}

theorem append {left right : List Position} (hleft : CoupledPositions kinds left)
    (hright : CoupledPositions kinds right) : CoupledPositions kinds (left ++ right) := by
  induction hleft with
  | nil => exact hright
  | label pc _ ih => exact .label pc ih
  | alone hindex hkind _ ih => exact .alone hindex hkind ih
  | pair hindex _ ih => exact .pair hindex ih

/-- Further entries do not matter. -/
theorem mono {more : List ReferenceKind} {positions : List Position}
    (h : CoupledPositions kinds positions) (hkinds : kinds <+: more) :
    CoupledPositions more positions := by
  obtain ⟨rest, rfl⟩ := hkinds
  have hkept : ∀ {index : Nat} {kind : ReferenceKind}, kinds[index]? = some kind →
      (kinds ++ rest)[index]? = some kind := by
    intro index kind hindex
    rw [List.getElem?_append_left (List.getElem?_eq_some_iff.mp hindex).1, hindex]
  induction h with
  | nil => exact .nil
  | label pc _ ih => exact .label pc ih
  | alone hindex hkind _ ih => exact .alone (hkept hindex) hkind ih
  | pair hindex _ ih => exact .pair (hkept hindex) ih

/-- Entries that stand in pairs are met in pairs, also if some are left out with their
mates. -/
theorem of_coupled {block : List Entry} (h : Coupled block) {keep : Entry → Bool}
    (hkeep : ∀ creation call : Entry, creation.Mates call → keep creation = keep call)
    (front back : List ReferenceKind) :
    CoupledPositions (front ++ block.map (fun entry => entry.reference.kind) ++ back)
      (((block.zipIdx front.length).filter (fun item => keep item.1)).map
        (fun item => .entry item.2)) := by
  induction h generalizing front with
  | nil => exact .nil
  | @alone entry rest hkind _ ih =>
      have hrest := ih (front ++ [entry.reference.kind])
      rw [List.length_append, List.length_singleton] at hrest
      simp only [List.append_assoc, List.map_cons, List.cons_append, List.nil_append]
        at hrest ⊢
      rw [List.zipIdx_cons, List.filter_cons]
      split
      · exact .alone (by simp) hkind hrest
      · exact hrest
  | @pair creation call rest hmates _ ih =>
      have hrest := ih (front ++ [creation.reference.kind, call.reference.kind])
      rw [List.length_append, List.length_cons, List.length_singleton] at hrest
      simp only [List.append_assoc, List.cons_append, List.nil_append, List.map_cons]
        at hrest ⊢
      rw [List.zipIdx_cons, List.zipIdx_cons, List.filter_cons, List.filter_cons,
        hkeep creation call hmates]
      cases keep call with
      | true => exact .pair (by simp [hmates.creation_kind]) hrest
      | false => exact hrest

end CoupledPositions

/-! Lines. -/

theorem toList_setLine {entries : Array Entry} {front back : List Entry} {entry : Entry}
    (h : entries.toList = front ++ entry :: back) (line : Int) :
    (setLine entries front.length line).toList = front ++ entry.atLine line :: back := by
  rw [setLine, Array.toList_modify, h, List.modify_eq_take_drop]
  simp

/-- The entry of a given kind with what stands around it. -/
theorem exists_split_of_kind {entries : Array Entry} {index : Nat} {kind : ReferenceKind}
    (h : (entryKinds entries)[index]? = some kind) :
    ∃ front entry back, entries.toList = front ++ entry :: back ∧ front.length = index ∧
      entry.reference.kind = kind := by
  rw [entryKinds, List.getElem?_map, Option.map_eq_some_iff] at h
  obtain ⟨entry, hentry, rfl⟩ := h
  obtain ⟨hindex, rfl⟩ := List.getElem?_eq_some_iff.mp hentry
  refine ⟨entries.toList.take index, _, entries.toList.drop (index + 1), ?_, ?_, rfl⟩
  · rw [List.getElem_cons_drop, List.take_append_drop]
  · rw [List.length_take]
    omega

namespace Coupled

theorem setLine_alone {entries : Array Entry} (h : Coupled entries.toList) {index : Nat}
    {kind : ReferenceKind} (hindex : (entryKinds entries)[index]? = some kind)
    (hkind : kind ∉ constructionKinds) (line : Int) :
    Coupled (setLine entries index line).toList := by
  obtain ⟨front, entry, back, hsplit, rfl, rfl⟩ := exists_split_of_kind hindex
  rw [hsplit] at h
  obtain ⟨hfront, hback⟩ := h.split_alone hkind
  rw [toList_setLine hsplit]
  exact hfront.append (.alone hkind hback)

theorem foldl_setLine_alone {indices : List Nat} {entries : Array Entry}
    (h : Coupled entries.toList)
    (hindices : ∀ index ∈ indices, ∃ kind, (entryKinds entries)[index]? = some kind ∧
      kind ∉ constructionKinds) (line : Int) :
    Coupled (indices.foldl (fun entries index => setLine entries index line) entries).toList := by
  induction indices generalizing entries with
  | nil => exact h
  | cons index rest ih =>
      rw [List.forall_mem_cons] at hindices
      obtain ⟨⟨kind, hindex, hkind⟩, hrest⟩ := hindices
      refine ih (h.setLine_alone hindex hkind line) ?_
      rwa [entryKinds_unlinedAll, unlinedAll_setLine, ← entryKinds_unlinedAll]

variable {table : LineTable} {waiting : WaitingCatches}

/-- A walk that meets the two entries of a constructor call gives both the same line. -/
theorem meet_pair {walk : LineWalk} (h : Coupled walk.entries.toList) {index : Nat}
    (hindex : (entryKinds walk.entries)[index]? = some .instantiate) :
    Coupled ((walk.meet table waiting (.entry index)).meet table waiting
      (.entry (index + 1))).entries.toList := by
  obtain ⟨front, creation, back, hsplit, rfl, hkind⟩ := exists_split_of_kind hindex
  have hpair := h
  rw [hsplit] at hpair
  obtain ⟨call, rest, rfl, hmates, hfront, hrest⟩ := hpair.split_creation hkind
  have hcreation : walk.entries[front.length]? = some creation := by
    rw [← Array.getElem?_toList, hsplit]
    simp
  have hcall : walk.entries[front.length + 1]? = some call := by
    rw [← Array.getElem?_toList, hsplit]
    simp
  by_cases hline : creation.line = -1
  · have hplaced := toList_setLine hsplit walk.current
    have hmet : walk.meet table waiting (.entry front.length) =
        { walk with entries := setLine walk.entries front.length walk.current } := by
      simp only [LineWalk.meet, hcreation, hline, ↓reduceIte]
    have hnext : (setLine walk.entries front.length walk.current)[front.length + 1]? =
        some call := by
      rw [← Array.getElem?_toList, hplaced]
      simp
    have hshift : (setLine walk.entries front.length walk.current).toList =
        (front ++ [creation.atLine walk.current]) ++ call :: rest := by
      rw [hplaced]
      simp
    have hboth := toList_setLine hshift walk.current
    rw [List.length_append, List.length_singleton] at hboth
    rw [hmet]
    simp only [LineWalk.meet, hnext, ← hmates.line_eq, hline, ↓reduceIte, hboth]
    rw [List.append_assoc]
    exact hfront.append (.pair (hmates.atLine _) hrest)
  · have hother : ¬ call.line = -1 := by rwa [← hmates.line_eq]
    simp only [LineWalk.meet, hcreation, hline, hcall, hother, ↓reduceIte]
    exact h

theorem meet_alone {walk : LineWalk} (h : Coupled walk.entries.toList) {index : Nat}
    {kind : ReferenceKind} (hindex : (entryKinds walk.entries)[index]? = some kind)
    (hkind : kind ∉ constructionKinds) :
    Coupled (walk.meet table waiting (.entry index)).entries.toList := by
  rw [LineWalk.meet]
  split
  · split
    · exact h.setLine_alone hindex hkind _
    · exact h
  · exact h

theorem meet_label {walk : LineWalk} (h : Coupled walk.entries.toList)
    (hwaiting : ∀ pc, ∀ index ∈ waiting.getD pc [], ∃ kind,
      (entryKinds walk.entries)[index]? = some kind ∧ kind ∉ constructionKinds) (pc : Nat) :
    Coupled (walk.meet table waiting (.label pc)).entries.toList := by
  cases hline : table.lineAt pc with
  | some line =>
      rw [LineWalk.meet_label_of_line hline]
      exact h
  | none =>
      simp only [LineWalk.meet, hline]
      exact h.foldl_setLine_alone (hwaiting pc) _

theorem entryKinds_meet (walk : LineWalk) (position : Position) :
    entryKinds (walk.meet table waiting position).entries = entryKinds walk.entries := by
  rw [entryKinds_unlinedAll, unlinedAll_meet, ← entryKinds_unlinedAll]

/-- A walk that meets constructor calls in pairs leaves their entries in pairs. -/
theorem foldl_meet {kinds : List ReferenceKind} {positions : List Position}
    (hpositions : CoupledPositions kinds positions)
    (hwaiting : ∀ pc, ∀ index ∈ waiting.getD pc [], ∃ kind,
      kinds[index]? = some kind ∧ kind ∉ constructionKinds)
    {walk : LineWalk} (hkinds : entryKinds walk.entries = kinds)
    (h : Coupled walk.entries.toList) :
    Coupled (positions.foldl (LineWalk.meet table waiting) walk).entries.toList := by
  induction hpositions generalizing walk with
  | nil => exact h
  | label pc _ ih =>
      exact ih ((entryKinds_meet walk _).trans hkinds) (h.meet_label (hkinds ▸ hwaiting) pc)
  | alone hindex hkind _ ih =>
      exact ih ((entryKinds_meet walk _).trans hkinds)
        (h.meet_alone (hkinds ▸ hindex) hkind)
  | pair hindex _ ih =>
      rw [List.foldl_cons, List.foldl_cons]
      exact ih ((entryKinds_meet _ _).trans ((entryKinds_meet walk _).trans hkinds))
        (h.meet_pair (hkinds ▸ hindex))

theorem placeCatches {entries : Array Entry} {catches : Array CatchPlace}
    (h : Coupled entries.toList)
    (hcatches : ∀ place ∈ catches.toList, ∃ kind,
      (entryKinds entries)[place.index]? = some kind ∧ kind ∉ constructionKinds) :
    Coupled (placeCatches table catches entries).toList := by
  rw [Linkage.placeCatches, ← Array.foldl_toList]
  generalize catches.toList = places at hcatches
  induction places generalizing entries with
  | nil => exact h
  | cons place rest ih =>
      rw [List.forall_mem_cons] at hcatches
      obtain ⟨⟨kind, hindex, hkind⟩, hrest⟩ := hcatches
      rw [List.foldl_cons]
      split
      · refine ih (h.setLine_alone hindex hkind _) ?_
        rwa [entryKinds_unlinedAll, unlinedAll_setLine, ← entryKinds_unlinedAll]
      · exact ih h hrest

/-- A body that meets constructor calls in pairs leaves their entries in pairs. -/
theorem assignLines {lines : List LineEntry} {catches : Array CatchPlace}
    {positions : Array Position} {entries : Array Entry} (h : Coupled entries.toList)
    (hpositions : CoupledPositions (entryKinds entries) positions.toList)
    (hcatches : ∀ place ∈ catches.toList, ∃ kind,
      (entryKinds entries)[place.index]? = some kind ∧ kind ∉ constructionKinds) :
    Coupled (assignLines lines catches positions entries).toList := by
  cases hfirst : firstLine lines with
  | none => simpa only [Linkage.assignLines, hfirst] using h
  | some first =>
      rw [assignLines_of_firstLine hfirst]
      generalize lineNumber first = current
      refine foldl_meet hpositions (fun pc index hmem => ?_) ?_ (h.placeCatches hcatches)
      · exact hcatches _ (mem_waitingCatches.mp hmem).2
      · rw [entryKinds_unlinedAll, unlinedAll_placeCatches, ← entryKinds_unlinedAll]

end Coupled

end Linkage
