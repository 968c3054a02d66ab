import Linkage.Proofs.KindMask
import Linkage.Proofs.SettledLines
/-
Lines of visited types.  A class whose tables cover its bodies, and which creates each of
its local types once, has its entries where a plain reading of its tables puts them: what an
instruction records on the line of the instruction, and what a local type leaves without a
line on the line of the creation.  Extraction delivers them with these lines, wherever in a
tree of types it visits the class.
-/

namespace Linkage

/-! Types with lines. -/

/-- The entry, on a line if it is delivered and has none yet. -/
def Entry.placedAt (line? : Option Int) (entry : Entry) : Entry :=
  match line? with
  | some line => if entry.retained && entry.line < 0 then entry.atLine line else entry
  | none => entry

/-- The types that a class creates, each with the line of the creation. -/
def ClassDecl.creationLines (decl : ClassDecl) : List (String × Int) :=
  decl.methods.flatMap MethodDecl.creationLines

/-- The line of the creation of a nested type that is no member. -/
def ChildType.creationLine? (child : ChildType) (creations : List (String × Int)) : Option Int :=
  if child.kind = .member then none else creations.lookup child.name

/-- The entries of a nested type on the lines of its creation. -/
def placedChild (blocks : NestedEntries) (creations : List (String × Int)) (child : ChildType) :
    List Entry :=
  (blocks[child.name]?.getD #[]).toList.map (Entry.placedAt (child.creationLine? creations))

/-- The entries of a type on the lines of its tables: its header, its nested types where it
creates them, its fields and its methods. -/
def TypeTree.linedEntries (options : ExtractOptions) (known : Universe) (decl : ClassDecl)
    (nested : NestedTrees) : Except ExtractError (List Entry) := do
  let type := TypeSite.of known decl
  let header ← headerEntries options type
  let fields ← type.fieldsDrafts
  let methods ← linedMethods options type decl.methods
  return header
    ++ decl.children.flatMap (placedChild (nested.addEntries options known ∅) decl.creationLines)
    ++ fields.flatten.map (options.record type.scope) ++ methods.flatten

/-- A class whose lines are read off its tables: they cover its bodies, its local types have
different names and are created once at most, and the tables of its nested types have small
lines. -/
structure TypeTree.WellLined (decl : ClassDecl) (nested : NestedTrees) : Prop where
  bodies : ∀ method ∈ decl.methods, ∀ code, method.body? = some code → code.WellLined
  names : (decl.children.map ChildType.name).Nodup
  once : ∀ child ∈ decl.children, child.kind ≠ .member → decl.creations.count child.name ≤ 1
  nested : ∀ inner ∈ nested.classes, inner.SmallLines

theorem getElem?_foldl_setLine (indices : List Nat) (line : Int) (entries : Array Entry)
    (index : Nat) :
    (indices.foldl (fun entries index => setLine entries index line) entries)[index]? =
      entries[index]?.map (fun entry => if index ∈ indices then entry.atLine line else entry) := by
  induction indices generalizing entries with
  | nil => simp
  | cons head rest ih =>
      rw [List.foldl_cons, ih, setLine, Array.getElem?_modify]
      by_cases hhead : head = index
      · subst hhead
        rw [if_pos rfl, Option.map_map]
        refine Option.map_congr fun entry _ => ?_
        simp only [Function.comp_apply, List.mem_cons_self, if_true]
        split <;> rfl
      · rw [if_neg hhead]
        have hmem : index ∈ head :: rest ↔ index ∈ rest := by
          rw [List.mem_cons]
          exact or_iff_right (fun heq => hhead heq.symm)
        simp only [hmem]

/-- Setting the lines of a block's unplaced entries sets those of no other entry. -/
theorem foldl_setLine_unplaced (entries block : Array Entry) (line : Int) :
    (unplaced entries.size block).foldl (fun entries index => setLine entries index line)
        (entries ++ block) =
      entries ++ block.map (Entry.placedAt (some line)) := by
  refine Array.ext_getElem? fun index => ?_
  rw [getElem?_foldl_setLine, Array.getElem?_append, Array.getElem?_append]
  by_cases hindex : index < entries.size
  · rw [if_pos hindex, if_pos hindex]
    have hnot : index ∉ unplaced entries.size block := fun hmem => by
      obtain ⟨entry, hle, -⟩ := mem_unplaced.mp hmem
      omega
    simp [hnot]
  · rw [if_neg hindex, if_neg hindex, Array.getElem?_map]
    refine Option.map_congr fun entry hentry => ?_
    have hmem : index ∈ unplaced entries.size block ↔ entry.retained = true ∧ entry.line < 0 := by
      rw [mem_unplaced]
      constructor
      · rintro ⟨other, -, hother, hretained, hline⟩
        rw [hentry] at hother
        cases hother
        exact ⟨hretained, hline⟩
      · rintro ⟨hretained, hline⟩
        exact ⟨entry, by omega, hentry, hretained, hline⟩
    simp [hmem, Entry.placedAt]

theorem placeCreated_insert_of_not_mem {localTypes : LocalTypes} {name : String}
    {creations : List (String × Int)} (h : name ∉ creations.map Prod.fst) (indices : List Nat)
    (entries : Array Entry) :
    placeCreated (localTypes.insert name indices) creations entries =
      placeCreated localTypes creations entries := by
  induction creations generalizing entries with
  | nil => rfl
  | cons creation rest ih =>
      rw [List.map_cons, List.mem_cons, not_or] at h
      rw [placeCreated_cons, placeCreated_cons, getD_insert_localTypes, if_neg h.1, ih h.2]

/-- Where one creation leads to a new block, its lines are set by that creation alone. -/
theorem placeCreated_insert {localTypes : LocalTypes} {name : String}
    (hnew : localTypes.getD name [] = []) {creations : List (String × Int)} (block : Array Entry)
    {entries : Array Entry}
    (hbelow : ∀ other, ∀ index ∈ localTypes.getD other [], index < entries.size)
    (honce : (creations.map Prod.fst).count name ≤ 1) :
    placeCreated (localTypes.insert name (unplaced entries.size block)) creations
        (entries ++ block) =
      placeCreated localTypes creations entries ++
        block.map (Entry.placedAt (creations.lookup name)) := by
  induction creations generalizing entries with
  | nil =>
      have hsame : Entry.placedAt none = id := rfl
      simp [placeCreated, hsame]
  | cons creation rest ih =>
      obtain ⟨other, line⟩ := creation
      rw [List.map_cons, List.count_cons] at honce
      rw [placeCreated_cons, placeCreated_cons, getD_insert_localTypes]
      by_cases hname : name = other
      · subst hname
        rw [if_pos rfl, foldl_setLine_unplaced, hnew, List.foldl_nil, List.lookup_cons,
          beq_self_eq_true]
        rw [beq_self_eq_true, if_pos rfl] at honce
        have hrest : name ∉ rest.map Prod.fst := List.count_eq_zero.mp (by omega)
        rw [placeCreated_insert_of_not_mem hrest,
          placeCreated_extend (fun creation _ => hbelow creation.1)]
      · have hsize := size_eq_of_unlinedAll
          (unlinedAll_foldl_setLine line (localTypes.getD other []) entries)
        have hbeq : (name == other) = false := beq_eq_false_iff_ne.mpr hname
        rw [if_neg hname, foldl_setLine_append (hbelow other), List.lookup_cons, hbeq]
        simp only
        rw [← hsize]
        exact ih (fun name index hindex => hsize ▸ hbelow name index hindex) (by omega)

section Children
variable {blocks : NestedEntries} {creations : List (String × Int)}

/-- What local types leave after an added child was left before, or is among the entries that
the child adds. -/
theorem TypeEntries.mem_localTypes_addChild {state : TypeEntries} {child : ChildType}
    {name : String} {index : Nat}
    (h : index ∈ (state.addChild blocks child).localTypes.getD name []) :
    index ∈ state.localTypes.getD name [] ∨
      (state.entries.size ≤ index ∧ index < (state.addChild blocks child).entries.size) := by
  rw [addChild_entries]
  rw [TypeEntries.addChild] at h
  cases hblock : blocks[child.name]? with
  | none =>
      rw [hblock] at h
      exact .inl h
  | some block =>
      simp only [hblock] at h
      rw [Option.getD_some]
      split at h
      · exact .inl h
      · rw [getD_insert_localTypes] at h
        split at h
        · obtain ⟨entry, hle, hentry, -⟩ := mem_unplaced.mp h
          have hlt := (Array.getElem?_eq_some_iff.mp hentry).1
          rw [Array.size_append] at hle hlt ⊢
          omega
        · exact .inl h

theorem TypeEntries.size_le_addChild (state : TypeEntries) (child : ChildType) :
    state.entries.size ≤ (state.addChild blocks child).entries.size := by
  rw [addChild_entries, Array.size_append]
  exact Nat.le_add_right _ _

/-- What local types leave are numbers of entries that there are. -/
def TypeEntries.LocalsBelow (state : TypeEntries) : Prop :=
  ∀ name, ∀ index ∈ state.localTypes.getD name [], index < state.entries.size

theorem TypeEntries.LocalsBelow.addChild {state : TypeEntries} (h : state.LocalsBelow)
    (blocks : NestedEntries) (child : ChildType) : (state.addChild blocks child).LocalsBelow := by
  intro name index hindex
  rcases mem_localTypes_addChild hindex with hbefore | ⟨-, hlt⟩
  · exact Nat.lt_of_lt_of_le (h name index hbefore) (size_le_addChild state child)
  · exact hlt

/-- What local types leave are numbers from a first one on. -/
def TypeEntries.LocalsFrom (first : Nat) (state : TypeEntries) : Prop :=
  ∀ name, ∀ index ∈ state.localTypes.getD name [], first ≤ index

theorem TypeEntries.LocalsFrom.foldl_addChild {first : Nat} {state : TypeEntries}
    (h : state.LocalsFrom first) (hfirst : first ≤ state.entries.size) (blocks : NestedEntries)
    (children : List ChildType) :
    (children.foldl (TypeEntries.addChild blocks) state).LocalsFrom first := by
  induction children generalizing state with
  | nil => exact h
  | cons child rest ih =>
      refine ih (fun name index hindex => ?_) (hfirst.trans (size_le_addChild state child))
      rcases mem_localTypes_addChild hindex with hbefore | ⟨hle, -⟩
      · exact h name index hbefore
      · exact hfirst.trans hle

theorem placeCreated_addChild {state : TypeEntries} (hbelow : state.LocalsBelow)
    {child : ChildType} (hnew : state.localTypes.getD child.name [] = [])
    (honce : child.kind ≠ .member → (creations.map Prod.fst).count child.name ≤ 1) :
    placeCreated (state.addChild blocks child).localTypes creations
        (state.addChild blocks child).entries =
      placeCreated state.localTypes creations state.entries ++
        (placedChild blocks creations child).toArray := by
  rw [TypeEntries.addChild, placedChild]
  cases hblock : blocks[child.name]? with
  | none => simp
  | some block =>
      have hblock : ∀ line? : Option Int,
          ((some block).getD #[]).toList.map (Entry.placedAt line?) =
            (block.map (Entry.placedAt line?)).toList := fun line? => Array.toList_map.symm
      rw [hblock, Array.toArray_toList, ChildType.creationLine?]
      simp only
      split
      · have hsame : block.map (Entry.placedAt none) = block := Array.map_id block
        rw [hsame]
        exact placeCreated_extend (fun creation _ => hbelow creation.1) block
      · rename_i hkind
        rw [Array.size_append, Nat.add_sub_cancel]
        exact placeCreated_insert hnew block hbelow (honce hkind)

theorem getD_addChild_of_ne {state : TypeEntries} {child : ChildType} {name : String}
    (h : child.name ≠ name) :
    (state.addChild blocks child).localTypes.getD name [] = state.localTypes.getD name [] := by
  rw [TypeEntries.addChild]
  split
  · rfl
  · split
    · rfl
    · rw [getD_insert_localTypes, if_neg h]

/-- Created nested types are placed each on the line of its own creation. -/
theorem placeCreated_children (blocks : NestedEntries) (creations : List (String × Int))
    {children : List ChildType}
    (hnames : (children.map ChildType.name).Nodup) {state : TypeEntries}
    (hbelow : state.LocalsBelow)
    (hnew : ∀ child ∈ children, state.localTypes.getD child.name [] = [])
    (honce : ∀ child ∈ children, child.kind ≠ .member →
      (creations.map Prod.fst).count child.name ≤ 1) :
    placeCreated (children.foldl (TypeEntries.addChild blocks) state).localTypes creations
        (children.foldl (TypeEntries.addChild blocks) state).entries =
      placeCreated state.localTypes creations state.entries ++
        (children.flatMap (placedChild blocks creations)).toArray := by
  induction children generalizing state with
  | nil => simp
  | cons child rest ih =>
      rw [List.map_cons, List.nodup_cons] at hnames
      rw [List.forall_mem_cons] at hnew honce
      rw [List.foldl_cons, ih hnames.2 (hbelow.addChild blocks child) (fun other hother => ?_)
        honce.2, placeCreated_addChild hbelow hnew.1 honce.1]
      · simp
      · have hne : child.name ≠ other.name := fun heq =>
          hnames.1 (heq ▸ List.mem_map_of_mem hother)
        rw [getD_addChild_of_ne hne]
        exact hnew.2 other hother

end Children

/-! What creations lead to is fresh. -/

theorem hides_none (entry : Entry) : KindSet.none.hides entry = true := by
  have hfolded : KindSet.none.asksFolded = false := by decide
  have hcontains : KindSet.none.contains entry.reference.kind = false := by
    cases entry.reference.kind <;> rfl
  simp [KindSet.hides, hfolded, hcontains]

theorem hiddenIn_none {entries : Array Entry} {index : Nat} (h : index < entries.size) :
    hiddenIn .none entries index = true := by
  simp [hiddenIn, h, hides_none]

theorem LinesKnown.quietBlock {block : Array Entry} (h : LinesKnown block) {creations : Nat}
    (honce : creations ≤ 1) : QuietBlock .none creations block := by
  intro entry hentry hleft
  obtain ⟨index, hindex, hget⟩ := List.getElem_of_mem hentry
  have hline : lineAt? block index = some entry.line := by
    rw [lineAt?, ← Array.getElem?_toList, List.getElem?_eq_getElem hindex, hget]
    rfl
  have hknown := h index entry.line hline
  have hnegative := hleft.2.1
  exact ⟨by omega, honce, fun _ => by decide⟩

theorem LocalsQuiet.addChild {kinds : KindSet} {creations : List String} {state : TypeEntries}
    (h : LocalsQuiet kinds creations state.entries state.localTypes) {blocks : NestedEntries}
    {child : ChildType} (hquiet : child.kind ≠ .member → ∀ block, blocks[child.name]? = some block →
      QuietBlock kinds (creations.count child.name) block) :
    LocalsQuiet kinds creations (state.addChild blocks child).entries
      (state.addChild blocks child).localTypes := by
  rw [TypeEntries.addChild]
  cases hblock : blocks[child.name]? with
  | none => exact h
  | some block =>
      simp only
      split
      · exact h.append block
      · rename_i hkind
        rw [Array.size_append, Nat.add_sub_cancel]
        exact h.insert (hquiet hkind block hblock)

theorem LocalsQuiet.foldl_addChild {kinds : KindSet} {creations : List String}
    (blocks : NestedEntries) {children : List ChildType}
    (hquiet : ∀ child ∈ children, child.kind ≠ .member → ∀ block, blocks[child.name]? = some block →
      QuietBlock kinds (creations.count child.name) block) (state : TypeEntries)
    (h : LocalsQuiet kinds creations state.entries state.localTypes) :
    LocalsQuiet kinds creations (children.foldl (TypeEntries.addChild blocks) state).entries
      (children.foldl (TypeEntries.addChild blocks) state).localTypes := by
  induction children generalizing state with
  | nil => exact h
  | cons child rest ih =>
      rw [List.forall_mem_cons] at hquiet
      exact ih hquiet.2 _ (h.addChild hquiet.1)

/-- The entries that local types leave without a line are fresh, if each is created once. -/
theorem LocalsQuiet.freshCreations {creations : List String} {entries : Array Entry}
    {localTypes : LocalTypes} (h : LocalsQuiet .none creations entries localTypes) :
    FreshCreations localTypes creations entries := by
  have hhidden : ∀ name, ∀ index ∈ localTypes.getD name [],
      hiddenIn .none entries index = true :=
    fun name index hindex => hiddenIn_none (h.below name index hindex)
  have hkept : hiddenCreated (hiddenIn .none entries) localTypes creations =
      creations.flatMap (fun name => localTypes.getD name []) :=
    List.flatMap_congr fun name _ => List.filter_eq_self.mpr (hhidden name)
  refine ⟨hkept ▸ h.nodup_hiddenCreated (fun name => Nat.le_refl _), fun index hindex => ?_⟩
  obtain ⟨name, -, hindex⟩ := List.mem_flatMap.mp hindex
  exact (h.quiet name index hindex (hhidden name index hindex)).1

theorem TypeEntries.LocalsBelow.foldl_addChild {state : TypeEntries} (h : state.LocalsBelow)
    (blocks : NestedEntries) (children : List ChildType) :
    (children.foldl (TypeEntries.addChild blocks) state).LocalsBelow := by
  induction children generalizing state with
  | nil => exact h
  | cons child rest ih => exact ih (h.addChild blocks child)

theorem placeCreated_none (creations : List (String × Int)) (entries : Array Entry) :
    placeCreated ∅ creations entries = entries := by
  induction creations with
  | nil => rfl
  | cons creation rest ih => simpa [placeCreated_cons] using ih

theorem ClassDecl.creationLines_names (decl : ClassDecl) :
    decl.creationLines.map Prod.fst = decl.creations := by
  rw [creationLines, creations, List.map_flatMap]
  exact List.flatMap_congr fun method _ => method.creationLines_names

/-- A class whose lines are read off its tables has its entries on these lines. -/
theorem TypeTree.WellLined.exists_linedEntries {options : ExtractOptions} {known : Universe}
    {decl : ClassDecl} {nested : NestedTrees} (h : WellLined decl nested) {block : Array Entry}
    (hentries : (TypeTree.node decl nested).entries options known = .ok block) :
    ∃ own, linedEntries options known decl nested = .ok own ∧ block = own.toArray := by
  rw [entries_node] at hentries
  obtain ⟨state, hstate, hmethods⟩ := bind_eq_ok hentries
  obtain ⟨header, fields, hheader, hfields, rfl⟩ := exists_of_beforeMethods hstate
  -- With no kind asked for, every entry counts as hidden, and so all that is left is fresh.
  have hbefore : LocalsQuiet .none decl.creations header.toArray ∅ :=
    ⟨by simp, by simp, by simp, by simp⟩
  have hinner := LocalsQuiet.foldl_addChild (nested.addEntries options known ∅)
    (fun child hchild hkind block hblock =>
      (NestedTrees.forall_blocks (LinesKnown.holdsAtNodes options known) nested h.nested ∅
        (by simp) child.name block hblock).quietBlock (h.once child hchild hkind))
    { entries := header.toArray } hbefore
  have hquiet := hinner.append
    (fields.flatten.map (options.record (TypeSite.of known decl).scope)).toArray
  rw [addMethods_lined options _ h.bodies hquiet.freshCreations] at hmethods
  obtain ⟨methods, hlined, rfl⟩ := map_eq_ok hmethods
  have hstart : (TypeEntries.mk header.toArray ∅).LocalsBelow := by
    intro name index hindex
    simp at hindex
  have hbelow := hstart.foldl_addChild (nested.addEntries options known ∅) decl.children
  have hchildren := placeCreated_children (nested.addEntries options known ∅)
    decl.creationLines h.names hstart (by simp) (fun child hchild hkind => by
      rw [decl.creationLines_names]
      exact h.once child hchild hkind)
  rw [placeCreated_none] at hchildren
  rw [linedEntries, hheader, hfields]
  simp only [bind, Except.bind]
  rw [hlined]
  refine ⟨_, rfl, ?_⟩
  rw [placeCreated_extend (fun creation _ => hbelow creation.1), ← ClassDecl.creationLines,
    hchildren]
  simp

/-! A class that creates an anonymous one and then calls a method, on one line. -/

/-- The method that is called. -/
def callOn (owner : String) : Instruction :=
  ⟨4, Opcode.invokeStatic, .invoke ⟨owner, "m", "()V", .static⟩⟩

/-- A body that creates types and then calls a method, on one line. -/
def callerCode (created : List String) (owner : String) (line : Nat) : Code where
  length := 8
  instructions := created.map (fun name => ⟨0, Opcode.new, .onType name⟩) ++ [callOn owner]
  lines := [⟨0, line⟩]

def callerMethod (created : List String) (owner : String) (line : Nat) : MethodDecl where
  name := "m"
  descriptor := "()V"
  access := { isStatic := true }
  code := some (callerCode created owner line)

def callerClass (name : String) (superName : Option String) (created : List String)
    (owner : String) (line : Nat) : ClassDecl where
  name := name
  superName := superName
  methods := [callerMethod created owner line]
  nestedTypes := created.map (fun name => ⟨name, none, .anonymous⟩)

/-- The draft of the call. -/
def callOnDraft (name owner : String) : Draft where
  reference := Reference.ofMethod (.method (qualifiedName name) "m" "()V") (qualifiedName owner)
    "m" "()V" .staticCall 0
  trail := .staticCall

theorem addMethod_static (options : ExtractOptions) (type : TypeSite) (localTypes : LocalTypes)
    (entries : Array Entry) (method : MethodDecl) {code : Code} (hbody : method.body? = some code)
    (hdescriptor : method.descriptor = "()V")
    (hdeclared : type.methodReferences method ⟨[], none, 0⟩ = .ok [])
    (hhandlers : code.handlers = []) (hlocals : code.locals = []) :
    addMethod options type localTypes entries method =
      .ok (assignLines code.lines #[]
        ((BodySite.of type method).positions localTypes {} entries.size
          code.timeline.toList).toArray
        (entries ++ BodyWalk.draftEntries options (.of type method)
          ((BodySite.of type method).instructionDrafts {} code.instructions))) := by
  have htypes : type.glossary.methodTypes.get method.descriptor = .ok ⟨[], none, 0⟩ := by
    rw [Table.get_eq, hdescriptor]
    exact readMethodTypes_noArguments
  obtain ⟨hpositions, hcatches⟩ := BodyWalk.through_positions options (.of type method)
    localTypes code entries
  have hentries := BodyWalk.through_entries options (.of type method) localTypes code entries
  have hcaught : caughtTypes code.handlers = [] := by rw [hhandlers]; rfl
  have hdrafts : (BodySite.of type method).catchDrafts code.handlers = [] := by rw [hhandlers]; rfl
  rw [hcaught] at hpositions hcatches
  rw [hdrafts, List.nil_append] at hentries
  rw [addMethod_eq options localTypes entries htypes hdeclared]
  simp only [hbody, addBody, localReferences, hlocals, List.foldlM_nil, bind, Except.bind, pure,
    Except.pure, List.map_nil, Array.appendList_nil]
  rw [hentries, Array.ext' hcatches, ← (BodyWalk.positions _).toArray_toList,
    hpositions]
  simp

/-- The entries of the super class. -/
def superEntries (options : ExtractOptions) (name : String) (superName : Option String) :
    List Entry :=
  superName.toList.map (fun other => options.record { name := qualifiedName name }
    (.ofReference (Reference.ofType (.type (qualifiedName name)) (qualifiedName other)
      .extendsType)))

section Caller
variable (options : ExtractOptions) (known : Universe) (name : String) (superName : Option String)
  (created : List String) (owner : String) (line : Nat)

theorem mergeLabels_nil (merged : Array Moment) (instructions : List Instruction) :
    mergeLabels merged [] instructions = merged ++ instructions.map Moment.run := by
  induction instructions generalizing merged with
  | nil => simp [mergeLabels]
  | cons instruction rest ih =>
      rw [mergeLabels, List.takeWhile_nil, List.dropWhile_nil, ih]
      apply Array.ext'
      simp

theorem timeline_callerCode : (callerCode created owner line).timeline.toList =
    .label 0 :: (callerCode created owner line).instructions.map Moment.run := by
  have hlabels : (callerCode created owner line).labels = [0] := rfl
  rw [Code.timeline, hlabels, callerCode]
  cases created with
  | nil => simp [mergeLabels, callOn]
  | cons first rest => simp [mergeLabels, mergeLabels_nil]

theorem positions_callerCode (localTypes : LocalTypes) (count : Nat) :
    (BodySite.of (TypeSite.of known (callerClass name superName created owner line))
        (callerMethod created owner line)).positions localTypes {} count
        (callerCode created owner line).timeline.toList =
      .label 0 :: ((created.flatMap (fun name =>
        localTypes.getD (qualifiedName name) [])).map Position.entry ++ [.entry count]) := by
  rw [timeline_callerCode, callerCode, BodySite.positions]
  generalize BodySite.of _ _ = site
  refine congrArg (List.cons (Position.label 0)) ?_
  simp only
  induction created with
  | nil =>
      have hcreated : replayed site localTypes (callOn owner) = [] := rfl
      have hdrafts : (site.drafts {} (callOn owner)).length = 1 := rfl
      rw [List.map_nil, List.nil_append, List.map_singleton, BodySite.positions, hcreated, hdrafts]
      rfl
  | cons first rest ih =>
      have hcreated : replayed site localTypes ⟨0, Opcode.new, .onType first⟩ =
          localTypes.getD (qualifiedName first) [] := by
        simp [replayed_eq, Instruction.created?]
      have hdrafts : site.drafts {} ⟨0, Opcode.new, .onType first⟩ = [] := rfl
      have hafter : site.after {} ⟨0, Opcode.new, .onType first⟩ = {} := rfl
      rw [List.map_cons, List.cons_append, List.map_cons, BodySite.positions, hcreated, hdrafts,
        hafter, List.length_nil, Nat.add_zero, ih]
      simp

theorem drafts_callerCode :
    (BodySite.of (TypeSite.of known (callerClass name superName created owner line))
      (callerMethod created owner line)).instructionDrafts {}
      (callerCode created owner line).instructions = [callOnDraft name owner] := by
  have hcall : (BodySite.of (TypeSite.of known (callerClass name superName created owner line))
      (callerMethod created owner line)).drafts {} (callOn owner) = [callOnDraft name owner] := by
    simp only [BodySite.drafts, callOn, BodySite.callDrafts, BodySite.forNameReferences,
      BodySite.qualified, Table.get_eq]
    rfl
  rw [callerCode]
  generalize BodySite.of _ _ = site at hcall ⊢
  simp only
  induction created with
  | nil => rw [List.map_nil, List.nil_append, BodySite.instructionDrafts, hcall]; rfl
  | cons first rest ih =>
      have hdrafts : site.drafts {} ⟨0, Opcode.new, .onType first⟩ = [] := rfl
      have hafter : site.after {} ⟨0, Opcode.new, .onType first⟩ = {} := rfl
      rw [List.map_cons, List.cons_append, BodySite.instructionDrafts, hdrafts, hafter, ih]
      rfl

/-- The entries of a class that creates others: those of the others, and that of the call. -/
theorem entries_callerClass {nested : NestedTrees} (inner : TypeEntries)
    (hinner : (callerClass name superName created owner line).children.foldl
      (TypeEntries.addChild (nested.addEntries options known ∅))
        { entries := (superEntries options name superName).toArray } = inner) :
    (TypeTree.node (callerClass name superName created owner line) nested).entries options known =
      .ok (assignLines [⟨0, line⟩] #[]
        (.label 0 :: ((created.flatMap (fun name =>
          inner.localTypes.getD (qualifiedName name) [])).map Position.entry ++
            [.entry inner.entries.size])).toArray
        (inner.entries.push (options.record
          (TypeSite.of known (callerClass name superName created owner line)).scope
          (callOnDraft name owner)))) := by
  have hdeclared :
      (TypeSite.of known (callerClass name superName created owner line)).methodReferences
        (callerMethod created owner line) ⟨[], none, 0⟩ = .ok [] := by
    simp [TypeSite.methodReferences, TypeSite.methodHeaderReferences,
      TypeSite.overrideReferences, TypeSite.methodTypeReferences, TypeSite.exceptionReferences,
      Glossary.typeReferences, callerMethod, bind, Except.bind, pure, Except.pure]
  have hmethod := addMethod_static options
    (TypeSite.of known (callerClass name superName created owner line)) inner.localTypes
    inner.entries (callerMethod created owner line) rfl rfl hdeclared rfl rfl
  have hheader :
      headerEntries options
          (TypeSite.of known (callerClass name superName created owner line)) =
        .ok (superEntries options name superName) := by
    simp [headerEntries, TypeSite.headerReferences, TypeSite.annotationReferences,
      TypeSite.decl_of, callerClass, Glossary.typeReferences, superEntries, Table.get_eq, bind,
      Except.bind, pure, Except.pure]
    exact fun _ _ => rfl
  have hfields : (callerClass name superName created owner line).fields = [] := rfl
  have hmethods : (callerClass name superName created owner line).methods =
    [callerMethod created owner line] := rfl
  rw [positions_callerCode, drafts_callerCode] at hmethod
  simp only [TypeTree.entries, hheader, bind, Except.bind, hinner]
  simp only [hfields, hmethods, addMethods, List.foldlM_cons, List.foldlM_nil, hmethod, bind,
    Except.bind, pure, Except.pure, mapError_ok]
  refine congrArg (fun all => Except.ok (assignLines _ #[] _ all)) ?_
  apply Array.ext'
  simp [BodyWalk.draftEntries, BodySite.of]

end Caller

/-- An anonymous class on some line, and the class that creates it on line 10. -/
def innerClass (superName : Option String) (line : Nat) : ClassDecl :=
  callerClass "a/A$1" superName [] "c/C" line

def outerClass : ClassDecl := callerClass "a/A" none ["a/A$1"] "b/B" 10

theorem children_outerClass :
    outerClass.children = [⟨qualifiedName "a/A$1", .anonymous⟩] :=
  children_of_anonymous rfl rfl

def innerTrees (superName : Option String) (line : Nat) : NestedTrees :=
  .cons (qualifiedName "a/A$1") (.node (innerClass superName line) .nil) .nil

theorem typeTree_outerClass (superName : Option String) (line : Nat) :
    TypeTree.of (.ofList [innerClass superName line]) outerClass =
      .node outerClass (innerTrees superName line) :=
  typeTree_of_anonymous rfl rfl rfl rfl

/-- The entry of a call, on some line. -/
def callOnEntry (name owner : String) (line : Int) : Entry :=
  (ExtractOptions.record ⟨true, .all⟩ { name := qualifiedName name }
    (callOnDraft name owner)).atLine line

/-- A line that is too large for a line number is below zero. -/
theorem entries_innerClass_wide (known : Universe) :
    (TypeTree.node (innerClass none 4294967294) .nil).entries ⟨true, .all⟩ known =
      .ok #[callOnEntry "a/A$1" "c/C" (-2)] := by
  have hchildren := (innerClass none 4294967294).children_eq_nil rfl
  rw [innerClass] at hchildren
  rw [innerClass, entries_callerClass ⟨true, .all⟩ known "a/A$1" none [] "c/C" 4294967294
    { entries := #[] } (by rw [hchildren]; rfl)]
  rfl

theorem entries_outerClass_wide (known : Universe) :
    (TypeTree.node outerClass (innerTrees none 4294967294)).entries ⟨true, .all⟩ known =
      .ok #[callOnEntry "a/A$1" "c/C" (-2), callOnEntry "a/A" "b/B" (-2)] := by
  have hblock :
      ((innerTrees none 4294967294).addEntries ⟨true, .all⟩ known ∅)[qualifiedName "a/A$1"]? =
        some #[callOnEntry "a/A$1" "c/C" (-2)] := by
    simp only [innerTrees, NestedTrees.addEntries, entries_innerClass_wide]
    simp
  have hunplaced : unplaced 0 #[callOnEntry "a/A$1" "c/C" (-2)] = [0] := by decide
  have hchild : TypeEntries.addChild ((innerTrees none 4294967294).addEntries ⟨true, .all⟩ known ∅)
      { entries := #[] } ⟨qualifiedName "a/A$1", .anonymous⟩ =
      { entries := #[callOnEntry "a/A$1" "c/C" (-2)]
        localTypes := (∅ : LocalTypes).insert (qualifiedName "a/A$1") [0] } := by
    simp [TypeEntries.addChild, hblock, hunplaced]
  have hchildren := children_outerClass
  rw [outerClass] at hchildren
  rw [outerClass, entries_callerClass ⟨true, .all⟩ known "a/A" none ["a/A$1"] "b/B" 10
    { entries := #[callOnEntry "a/A$1" "c/C" (-2)]
      localTypes := (∅ : LocalTypes).insert (qualifiedName "a/A$1") [0] }
    (by rw [hchildren, List.foldl_cons, List.foldl_nil]; exact hchild)]
  simp only [List.flatMap_cons, List.flatMap_nil, List.append_nil, getD_insert_localTypes, if_true]
  rfl

theorem extract_outerClass_wide :
    extract ⟨true, .all⟩ (.ofList [innerClass none 4294967294]) outerClass =
      .ok [(callOnDraft "a/A$1" "c/C").reference.atLine (-2),
        (callOnDraft "a/A" "b/B").reference.atLine (-2)] := by
  rw [extract, typeTree_outerClass, entries_outerClass_wide]
  change Except.ok (delivered (foldAccessors ⟨true, .all⟩
    [callOnEntry "a/A$1" "c/C" (-2), callOnEntry "a/A" "b/B" (-2)])) = _
  have hfold : foldAccessors ⟨true, .all⟩
      [callOnEntry "a/A$1" "c/C" (-2), callOnEntry "a/A" "b/B" (-2)] =
      [callOnEntry "a/A$1" "c/C" (-2), callOnEntry "a/A" "b/B" (-2)] := if_pos rfl
  have hkeys : (callOnEntry "a/A" "b/B" (-2)).repeatKey ≠
      (callOnEntry "a/A$1" "c/C" (-2)).repeatKey := fun h =>
    (by decide +kernel : qualifiedName "b/B" ≠ qualifiedName "c/C")
      (congrArg (fun key => key.1.typeName) h)
  have hretained : [callOnEntry "a/A$1" "c/C" (-2), callOnEntry "a/A" "b/B" (-2)].filter
      Entry.retained = [callOnEntry "a/A$1" "c/C" (-2), callOnEntry "a/A" "b/B" (-2)] := rfl
  rw [hfold, delivered, hretained, distinctBy_eq_distinctAfter]
  simp [distinctAfter, hkeys]
  exact ⟨rfl, rfl⟩

theorem wellLined_callerCode {created : List String} (hcreated : created.length ≤ 1)
    (owner : String) {line : Nat} (hline : line < 2 ^ 31) :
    (callerCode created owner line).WellLined := by
  refine ⟨?_, ⟨⟨0, line⟩, List.mem_singleton_self _, rfl⟩, fun entry hentry => ?_⟩
  · cases created with
    | nil => exact List.pairwise_singleton _ _
    | cons first rest =>
        cases rest with
        | nil => simp [Code.OffsetsAscend, callerCode, callOn]
        | cons second more => simp at hcreated
  · rw [List.mem_singleton.mp hentry]
    exact hline

theorem wellLined_outerClass (superName : Option String) (line : Nat) (hline : line < 2 ^ 31) :
    TypeTree.WellLined outerClass (innerTrees superName line) where
  bodies := by
    intro method hmethod code hcode
    rw [List.mem_singleton.mp hmethod] at hcode
    obtain rfl : callerCode ["a/A$1"] "b/B" 10 = code := Option.some.inj hcode
    exact wellLined_callerCode (Nat.le_refl _) _ (by decide)
  names := by simp [children_outerClass]
  once := fun child _ _ => List.count_le_length
  nested := by
    intro inner hinner method hmethod code hcode entry hentry
    have hclasses : (innerTrees superName line).classes = [innerClass superName line] := rfl
    rw [hclasses, List.mem_singleton] at hinner
    subst hinner
    rw [List.mem_singleton.mp hmethod] at hcode
    obtain rfl : callerCode [] "c/C" line = code := Option.some.inj hcode
    rw [List.mem_singleton.mp hentry]
    exact hline

/-! Extraction. -/

/-- A visited class has its entries, from a number on, on the lines of its tables; some line of its
table holds at every offset of a body. -/
structure TypeTree.LinedAt (options : ExtractOptions) (known : Universe) (decl : ClassDecl)
    (nested : NestedTrees) (start : Nat) (entries : Array Entry) : Prop where
  settled : ∃ own, linedEntries options known decl nested = .ok own ∧
    SettledAt own.toArray start entries
  holds : ∀ method ∈ decl.methods, ∀ code, method.body? = some code → ∀ pc,
    ∃ entry, HoldsAt code.lines pc entry ∧ code.sourceLine pc = entry.line

/-- Extraction delivers references with the lines of their entries, or of the calls that they stand
for; and every class that it visits, and whose lines can be read off its tables, has its
entries on these lines. -/
theorem extract_lines (options : ExtractOptions) (known : Universe) (root : ClassDecl)
    (references : List Reference) (h : extract options known root = .ok references) :
    ∃ entries, (TypeTree.of known root).entries options known = .ok entries ∧
      references = delivered (foldAccessors options entries.toList) ∧
      (∀ reference ∈ references,
        (∃ entry ∈ entries.toList, entry.retained = true ∧ entry.reference = reference) ∨
          ∃ access ∈ entries.toList, ∃ call ∈ entries.toList,
            reference = directUse access call) ∧
      ∀ start decl nested,
        (TypeTree.of known root).VisitsAt options known start (.node decl nested) →
          TypeTree.WellLined decl nested →
            TypeTree.LinedAt options known decl nested start entries := by
  obtain ⟨entries, hentries, rfl⟩ := bind_pure_eq_ok h
  refine ⟨entries, hentries, rfl, fun reference hmem => ?_,
    fun start decl nested hvisits hlined => ?_⟩
  · obtain ⟨kept, hkept, hretained, rfl⟩ := exists_of_mem_delivered hmem
    rcases mem_foldAccessors hkept hretained with
      ⟨hentry, -⟩ | ⟨access, haccess, call, hcall, -, rfl⟩
    · exact .inl ⟨kept, hentry, hretained, rfl⟩
    · exact .inr ⟨access, haccess, call, hcall, rfl⟩
  · obtain ⟨block, hblock, hsettled⟩ := hvisits.settledAt hentries
    obtain ⟨own, hown, rfl⟩ := hlined.exists_linedEntries hblock
    refine ⟨⟨own, hown, hsettled⟩, fun method hmethod code hcode pc => ?_⟩
    obtain ⟨entry, hholds, -, hline⟩ := (hlined.bodies method hmethod code hcode).exists_holdsAt pc
    exact ⟨entry, hholds, hline⟩

theorem extract_lines_outerClass :
    ∃ references entries,
      extract ⟨true, .all⟩ (.ofList [innerClass (some "java/lang/Object") 20]) outerClass =
        .ok references ∧
      TypeTree.WellLined outerClass (innerTrees (some "java/lang/Object") 20) ∧
      references = delivered (foldAccessors ⟨true, .all⟩ entries.toList) ∧
      TypeTree.LinedAt ⟨true, .all⟩ (.ofList [innerClass (some "java/lang/Object") 20]) outerClass
        (innerTrees (some "java/lang/Object") 20) 0 entries := by
  have hextract : ∃ references, extract ⟨true, .all⟩
      (.ofList [innerClass (some "java/lang/Object") 20]) outerClass = .ok references := by
    rw [extract, typeTree_outerClass, outerClass, entries_callerClass _ _ _ _ _ _ _ _ rfl]
    exact ⟨_, rfl⟩
  obtain ⟨references, hreferences⟩ := hextract
  obtain ⟨entries, hentries, hdelivered, -, hlined⟩ := extract_lines _ _ _ _ hreferences
  have hwell := wellLined_outerClass (some "java/lang/Object") 20 (by decide)
  refine ⟨references, entries, hreferences, hwell, hdelivered, hlined 0 _ _ ?_ hwell⟩
  rw [typeTree_outerClass]
  exact .self _

/-- The class meets the conditions on its own table, which gives line 10 to its call; but the line
below zero of the anonymous class becomes that of the call. -/
theorem extract_outerClass_off_line :
    (∀ method ∈ outerClass.methods, ∀ code, method.body? = some code →
        code.WellLined ∧ code.sourceLine 4 = 10) ∧
      (outerClass.children.map ChildType.name).Nodup ∧
      (∀ name, outerClass.creations.count name ≤ 1) ∧
      extract ⟨true, .all⟩ (.ofList [innerClass none 4294967294]) outerClass =
        .ok [(callOnDraft "a/A$1" "c/C").reference.atLine (-2),
          (callOnDraft "a/A" "b/B").reference.atLine (-2)] := by
  refine ⟨fun method hmethod code hcode => ?_, by simp [children_outerClass],
    fun name => List.count_le_length, extract_outerClass_wide⟩
  rw [List.mem_singleton.mp hmethod] at hcode
  obtain rfl : callerCode ["a/A$1"] "b/B" 10 = code := Option.some.inj hcode
  exact ⟨wellLined_callerCode (Nat.le_refl _) _ (by decide), rfl⟩

end Linkage
