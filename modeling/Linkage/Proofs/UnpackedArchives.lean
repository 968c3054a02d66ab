import Linkage.Proofs.ScanAccounts
/-
Archives and their unpacked directories.  What a scan finds depends on the bytes that it
comes to, not on where they are.  An archive and a directory with the same class files
give the same classes and failures, but for descriptors of modules: a walk through a
directory loads them, and a scan of an archive passes them over.
-/

namespace Linkage

/-! What a scan makes of bytes. -/

/-- A class apart from the artifact that it comes from. -/
def ClassDecl.withoutArtifact (decl : ClassDecl) : ClassDecl := { decl with artifact := -1 }

/-- The classes that the contents of files describe. -/
def loadedClasses (contents : List (List UInt8)) : List ClassDecl :=
  contents.filterMap (fun bytes => (ClassFile.load bytes (-1)).toOption)

/-- Why the contents of files describe no class. -/
def loadMessages (contents : List (List UInt8)) : List String :=
  contents.filterMap (fun bytes =>
    match ClassFile.load bytes (-1) with
    | .ok _ => none
    | .error error => some error.message)

/-- The artifact of a class is only handed through. -/
theorem ClassFile.load_withoutArtifact (bytes : List UInt8) (artifact : Int) :
    (ClassFile.load bytes artifact).map ClassDecl.withoutArtifact = ClassFile.load bytes (-1) := by
  change ClassDecl.withoutArtifact <$> ClassFile.load bytes artifact = ClassFile.load bytes (-1)
  simp only [ClassFile.load, ClassFile.Layout.load, map_bind, map_pure, ClassDecl.withoutArtifact]

/-- A scan adds what the contents describe to what it has found. -/
structure ScanOutput.Adds (role : ScanRole) (contents : List (List UInt8))
    (before after : ScanOutput) : Prop where
  classes : after.classes.map ClassDecl.withoutArtifact =
    before.classes.map ClassDecl.withoutArtifact ++
      if role = .input then loadedClasses contents else []
  baseline : after.baseline.map ClassDecl.withoutArtifact =
    before.baseline.map ClassDecl.withoutArtifact ++
      if role = .input then [] else loadedClasses contents
  failures : after.failures.map TypeFailure.message =
    before.failures.map TypeFailure.message ++ loadMessages contents

/-- The contents that a file of a sort holds. -/
def ScanSource.contents : ScanSource → List (List UInt8)
  | .classFile content => [content]
  | .archive _ entries => entries.map ClassEntry.content

namespace ScanOutput

variable {role : ScanRole} {contents more : List (List UInt8)}

theorem Adds.refl (role : ScanRole) (output : ScanOutput) : output.Adds role [] output := by
  constructor <;> simp [loadedClasses, loadMessages]

theorem Adds.trans {before between after : ScanOutput} (hfirst : before.Adds role contents between)
    (hsecond : between.Adds role more after) : before.Adds role (contents ++ more) after := by
  constructor
  · rw [hsecond.classes, hfirst.classes]
    cases role <;> simp [loadedClasses]
  · rw [hsecond.baseline, hfirst.baseline]
    cases role <;> simp [loadedClasses]
  · rw [hsecond.failures, hfirst.failures]
    simp [loadMessages]

theorem adds_addContent (role : ScanRole) (output : ScanOutput) (artifact : Artifact)
    (content : List UInt8) :
    output.Adds role [content] (output.addContent role artifact content) := by
  have hload := ClassFile.load_withoutArtifact content output.artifacts.length
  cases hfound : ClassFile.load content output.artifacts.length with
  | ok decl =>
      rw [hfound] at hload
      have hdecl : ClassFile.load content (-1) = .ok decl.withoutArtifact := hload.symm
      constructor <;> cases role <;>
        simp [addContent, hfound, addClass, loadedClasses, loadMessages, hdecl, Except.toOption]
  | error error =>
      rw [hfound] at hload
      have herror : ClassFile.load content (-1) = .error error := hload.symm
      constructor <;> cases role <;>
        simp [addContent, hfound, loadedClasses, loadMessages, herror, Except.toOption]

theorem adds_addEntries (role : ScanRole) (path : String) (parent : Nat)
    (entries : List ClassEntry) (output : ScanOutput) :
    output.Adds role (entries.map ClassEntry.content)
      (entries.foldl (addEntry role path parent) output) := by
  induction entries generalizing output with
  | nil => exact .refl role output
  | cons entry rest ih => exact (adds_addContent role output _ entry.content).trans (ih _)

theorem adds_addSource (role : ScanRole) (output : ScanOutput) (path : String) (isTarget : Bool)
    (source : ScanSource) :
    output.Adds role source.contents (output.addSource role path isTarget source) := by
  cases source with
  | classFile content => exact adds_addContent role output _ content
  | archive size entries =>
      have hentries := adds_addEntries role path output.artifacts.length entries
        { output with artifacts := output.artifacts ++ [{ uri := path, length := size, isTarget }] }
      exact ⟨hentries.classes, hentries.baseline, hentries.failures⟩

end ScanOutput

/-! What scans come to. -/

/-- A scan goes on to the same contents whatever it has found, or always fails alike. -/
def GoesOnTo (role : ScanRole) :
    Except ScanError (List (List UInt8)) → (ScanOutput → Except ScanError ScanOutput) → Prop
  | .error error, scan => ∀ before, scan before = .error error
  | .ok contents, scan => ∀ before, ∃ after, scan before = .ok after ∧
      before.Adds role contents after

/-- The contents of a file of a sort that a path leads to. -/
def sourceContents (path : String) (sort : FileSort) (found : Except PathError (List UInt8)) :
    Except ScanError (List (List UInt8)) := do
  let content ← found.mapError (sort.pathError path)
  return (← ScanSource.read path content sort).contents

/-- The contents of what a walk through a directory comes to. -/
def contentsBelow (path : String) (entry : Place × Except PathError (List UInt8)) :
    Except ScanError (List (List UInt8)) :=
  match FileSort.ofName? entry.1.getLast? with
  | none => .ok []
  | some sort => sourceContents (joinPath path entry.1) sort entry.2

/-- The contents of the file that a path was given for. -/
def givenContents (found : Except PathError (List UInt8)) (path : String) :
    Except ScanError (List (List UInt8)) :=
  match FileSort.ofName? (fileName? path) with
  | none => .error (.unsupported path)
  | some sort => sourceContents path sort found

/-- The contents of all that a path leads to. -/
def FileTree.contentsOf (tree : FileTree) (path : String) :
    Except ScanError (List (List UInt8)) :=
  match tree.find path with
  | .ok (.directory place) =>
      ((sortByNames Prod.fst (tree.entriesBelow path place)).mapM (contentsBelow path)).map
        List.flatten
  | .ok (.file content) => givenContents (.ok content) path
  | .error cause => givenContents (.error cause) path

section
variable {role : ScanRole}

theorem goesOnTo_foldlM {α : Type} {step : ScanOutput → α → Except ScanError ScanOutput}
    {outcome : α → Except ScanError (List (List UInt8))}
    (hstep : ∀ item, GoesOnTo role (outcome item) (step · item)) (items : List α) :
    GoesOnTo role ((items.mapM outcome).map List.flatten) (items.foldlM step ·) := by
  induction items with
  | nil => exact fun before => ⟨before, rfl, .refl role before⟩
  | cons item rest ih =>
      have hfirst := hstep item
      simp only [List.mapM_cons, List.foldlM_cons]
      cases houtcome : outcome item with
      | error error =>
          rw [houtcome] at hfirst
          intro before
          simp only [hfirst before]
          rfl
      | ok contents =>
          rw [houtcome] at hfirst
          cases hmore : rest.mapM outcome with
          | error error =>
              rw [hmore] at ih
              intro before
              obtain ⟨between, hbetween, -⟩ := hfirst before
              exact (bind_of_eq_ok hbetween).trans (ih between)
          | ok more =>
              rw [hmore] at ih
              intro before
              obtain ⟨between, hbetween, hadds⟩ := hfirst before
              obtain ⟨after, hafter, hlater⟩ := ih between
              exact ⟨after, (bind_of_eq_ok hbetween).trans hafter, hadds.trans hlater⟩

/-- The target mark of an artifact plays no part. -/
theorem goesOnTo_source (role : ScanRole) (path : String) (sort : FileSort) (isTarget : Bool)
    (found : Except PathError (List UInt8)) :
    GoesOnTo role (sourceContents path sort found) (fun before => do
      let content ← found.mapError (sort.pathError path)
      return before.addSource role path isTarget (← ScanSource.read path content sort)) := by
  cases found with
  | error cause => exact fun before => rfl
  | ok content =>
      rw [sourceContents, mapError_ok, bind_of_eq_ok rfl]
      cases hsource : ScanSource.read path content sort with
      | error error =>
          intro before
          beta_reduce
          rw [bind_of_eq_ok rfl, hsource]
          rfl
      | ok source =>
          intro before
          beta_reduce
          rw [bind_of_eq_ok rfl, hsource]
          exact ⟨_, rfl, ScanOutput.adds_addSource role before path isTarget source⟩

theorem goesOnTo_below (path : String) (entry : Place × Except PathError (List UInt8)) :
    GoesOnTo role (contentsBelow path entry) (scanBelow path role · entry) := by
  cases hsort : FileSort.ofName? entry.1.getLast? with
  | none =>
      simp only [contentsBelow, scanBelow, hsort]
      exact fun before => ⟨before, rfl, .refl role before⟩
  | some sort =>
      have hsource := goesOnTo_source role (joinPath path entry.1) sort false entry.2
      simpa only [contentsBelow, scanBelow, hsort] using hsource

theorem goesOnTo_given (found : Except PathError (List UInt8)) (path : String) :
    GoesOnTo role (givenContents found path) (scanFile found path role) := by
  have hscan : ∀ before, scanFile found path role before =
      match FileSort.ofName? (fileName? path) with
      | none => .error (.unsupported path)
      | some sort => do
          let content ← found.mapError (sort.pathError path)
          return before.addSource role path (role = .input)
            (← ScanSource.read path content sort) := by
    intro before
    cases hsort : FileSort.ofName? (fileName? path) <;> cases found <;>
      simp only [scanFile, hsort] <;> rfl
  rw [funext hscan]
  cases hsort : FileSort.ofName? (fileName? path) with
  | none =>
      simp only [givenContents, hsort]
      exact fun before => rfl
  | some sort =>
      simp only [givenContents, hsort]
      exact goesOnTo_source role path sort (role = .input) found

/-- A path leads a scan to its contents. -/
theorem goesOnTo_path (role : ScanRole) (tree : FileTree) (path : String) :
    GoesOnTo role (tree.contentsOf path) (scanPath tree role · path) := by
  unfold FileTree.contentsOf scanPath
  cases tree.find path with
  | error cause => exact goesOnTo_given _ path
  | ok node =>
      cases node with
      | file content => exact goesOnTo_given _ path
      | directory place => exact goesOnTo_foldlM (goesOnTo_below path) _

end

/-! Names of class files, in directories and in archives. -/

/-- What a file is called in an archive of what lies below a directory. -/
def entryName (below : Place) : String := String.intercalate "/" below

/-- The last name of a path has the extension of classes, and something in front of it. -/
def NamesClass (below : Place) : Prop :=
  ∃ stem : String, stem ≠ "" ∧ below.getLast? = some (stem ++ ".class")

/-- Whether the last name of a path ends as the name of a module's descriptor. -/
def endsAsDescriptor (below : Place) : Bool :=
  below.getLast?.any (fun name => "module-info.class".toList.isSuffixOf name.toList)

theorem isSome_dropEnd {α : Type} [DecidableEq α] {tail text : List α} :
    (dropEnd tail text).isSome = true ↔ tail <:+ text := by
  simp only [Option.isSome_iff_exists, dropEnd_eq_some_iff]
  exact exists_congr fun front => eq_comm

/-- An end without the mark that stands before the last part is an end of that part. -/
theorem suffix_append_cons_iff {α : Type} {tail front last : List α} {mark : α}
    (hmark : mark ∉ tail) : tail <:+ front ++ mark :: last ↔ tail <:+ last := by
  have hlast : last <:+ front ++ mark :: last := ⟨front ++ [mark], by simp⟩
  refine ⟨fun h => ?_, fun h => h.trans hlast⟩
  rcases List.suffix_or_suffix_of_suffix h (List.suffix_append front (mark :: last)) with h | h
  · rcases List.suffix_cons_iff.mp h with rfl | h
    · exact absurd List.mem_cons_self hmark
    · exact h
  · exact absurd (h.subset List.mem_cons_self) hmark

theorem suffix_entryName_iff {tail : List Char} (htail : '/' ∉ tail) {below : Place}
    {last : String} (hlast : below.getLast? = some last) :
    tail <:+ (entryName below).toList ↔ tail <:+ last.toList := by
  obtain ⟨front, rfl⟩ := List.getLast?_eq_some_iff.mp hlast
  by_cases hfront : front = []
  · subst hfront
    rw [List.nil_append, entryName, String.intercalate_singleton]
  · rw [entryName, String.intercalate_append_of_ne_nil hfront (List.cons_ne_nil last []),
      String.intercalate_singleton, String.toList_append, String.toList_append, List.append_assoc]
    exact suffix_append_cons_iff htail

/-- An archive's class entries are those with the names of classes, but for descriptors of
modules. -/
theorem isClassEntry_entryName {below : Place} (h : NamesClass below) :
    isClassEntry (entryName below) = !endsAsDescriptor below := by
  obtain ⟨stem, -, hlast⟩ := h
  have hclass : (dropEnd ".class".toList (entryName below).toList).isSome = true := by
    rw [isSome_dropEnd, suffix_entryName_iff (by decide) hlast, String.toList_append]
    exact List.suffix_append _ _
  have hdescriptor : (dropEnd "module-info.class".toList (entryName below).toList).isSome =
      endsAsDescriptor below := by
    rw [Bool.eq_iff_iff, isSome_dropEnd, suffix_entryName_iff (by decide) hlast,
      endsAsDescriptor, hlast, Option.any_some, List.isSuffixOf_iff_suffix]
  rw [isClassEntry, hclass, Bool.true_and, ← hdescriptor, Option.not_isSome]

/-- A walk through a directory loads what has the name of a class. -/
theorem NamesClass.ofName?_eq {below : Place} (h : NamesClass below) :
    FileSort.ofName? below.getLast? = some .classFile := by
  obtain ⟨stem, hstem, hlast⟩ := h
  have hbefore : beforeLast '.' (stem ++ ".class").toList = some stem.toList := by
    refine beforeLast_eq_some_iff.mpr ⟨"class".toList, ?_, by decide⟩
    rw [String.toList_append]
    rfl
  obtain ⟨first, rest, hchars⟩ :=
    List.exists_cons_of_ne_nil (mt String.toList_eq_nil_iff.mp hstem)
  have hextension : extension? (stem ++ ".class") = some "class" := by
    rw [hchars] at hbefore
    rw [extension?, hbefore, String.toList_append, hchars]
    simp
  rw [FileSort.ofName?, hlast, Option.bind_some, hextension]
  rfl

/-! Directories that hold files. -/

theorem requirePath_eq_ok_iff {path : String} : FileTree.requirePath path = .ok () ↔
    '\x00' ∉ path.toList ∧ path ≠ "" ∧ path.utf8ByteSize ≤ FileTree.maxPathSize := by
  unfold FileTree.requirePath
  split
  · simp_all
  · split
    · simp_all
    · split <;> simp_all

theorem joinPath_ne_empty (path : String) (below : Place) : joinPath path below ≠ "" := by
  intro h
  have hchars := congrArg String.toList h
  by_cases hslash : path.toList.getLast? = some '/'
  · obtain ⟨front, hfront⟩ := List.getLast?_eq_some_iff.mp hslash
    simp [joinPath, hfront] at hchars
  · simp [joinPath, hslash] at hchars

/-- What leads to the beginning of a path leads on to the rest. -/
theorem exists_joinPath_append (path : String) {front : Place} (hfront : front ≠ [])
    (rest : Place) : ∃ more, joinPath path (front ++ rest) = joinPath path front ++ more := by
  by_cases hrest : rest = []
  · exact ⟨"", by simp [hrest]⟩
  · refine ⟨"/" ++ String.intercalate "/" rest, ?_⟩
    simp only [joinPath, String.intercalate_append_of_ne_nil hfront hrest, String.append_assoc]

/-- Where a path can be followed, nothing on the way is out of reach. -/
theorem firstUnreachable_eq_none {path : String} {below : Place}
    (h : FileTree.requirePath (joinPath path below) = .ok ()) :
    FileTree.firstUnreachable path below = none := by
  refine List.findSome?_eq_none_iff.mpr fun beginning hmem => ?_
  obtain ⟨length, hlength, rfl⟩ := List.mem_map.mp hmem
  have hfront : below.take (length + 1) ≠ [] := by
    have hbelow := List.mem_range.mp hlength
    rw [← List.length_pos_iff, List.length_take]
    omega
  obtain ⟨more, hmore⟩ := exists_joinPath_append path hfront (below.drop (length + 1))
  rw [List.take_append_drop] at hmore
  obtain ⟨hnul, -, hsize⟩ := requirePath_eq_ok_iff.mp h
  have hbeginning : FileTree.requirePath (joinPath path (below.take (length + 1))) = .ok () := by
    refine requirePath_eq_ok_iff.mpr ⟨fun hmem => hnul ?_, joinPath_ne_empty _ _, ?_⟩
    · rw [hmore, String.toList_append]
      exact List.mem_append_left _ hmem
    · rw [hmore, String.utf8ByteSize_append] at hsize
      omega
  rw [hbeginning]

theorem requirePath_of_find {tree : FileTree} {path : String} {node : FileNode}
    (h : tree.find path = .ok node) : FileTree.requirePath path = .ok () := by
  obtain ⟨place, hplace, -⟩ := bind_eq_ok h
  obtain ⟨⟨⟩, hrequire, -⟩ := bind_eq_ok hplace
  exact hrequire

/-- A directory holds exactly the given files.  All that lies below it can be reached. -/
structure HoldsFiles (tree : FileTree) (directory : String)
    (files : List (Place × List UInt8)) : Prop where
  exists_place : ∃ place, tree.find directory = .ok (.directory place) ∧
    (tree.filesBelow place).Perm files ∧
    ∀ below ∈ tree.directoriesBelow place, below ≠ [] →
      tree.pathExists (joinPath directory below) = true
  find_file : ∀ file ∈ files, tree.find (joinPath directory file.1) = .ok (.file file.2)

/-- A walk through a directory comes to exactly the files that it holds. -/
theorem HoldsFiles.entriesBelow_perm {tree : FileTree} {directory : String}
    {files : List (Place × List UInt8)} (h : HoldsFiles tree directory files) :
    ∃ place, tree.find directory = .ok (.directory place) ∧
      (tree.entriesBelow directory place).Perm (files.map (fun file => (file.1, .ok file.2))) := by
  obtain ⟨place, hplace, hfiles, hdirectories⟩ := h.exists_place
  refine ⟨place, hplace, ?_⟩
  have hreached : ∀ file ∈ tree.filesBelow place,
      FileTree.firstUnreachable directory file.1 = none := fun file hfile =>
    firstUnreachable_eq_none
      (requirePath_of_find (h.find_file file (hfiles.mem_iff.mp hfile)))
  have hbelow : ∀ below ∈ tree.directoriesBelow place,
      FileTree.firstUnreachable directory below = none := by
    intro below hmem
    by_cases hempty : below = []
    · rw [hempty]
      rfl
    · have hexists := hdirectories below hmem hempty
      cases hfind : tree.find (joinPath directory below) with
      | error cause => simp [FileTree.pathExists, hfind, Except.toOption] at hexists
      | ok node => exact firstUnreachable_eq_none (requirePath_of_find hfind)
  rw [FileTree.entriesBelow, List.filterMap_eq_nil_iff.mpr, List.append_nil]
  · refine List.Perm.trans (.of_eq (List.map_congr_left fun file hfile => ?_)) (hfiles.map _)
    rw [hreached file hfile]
  · intro below hmem
    rw [hbelow below hmem]
    rfl

/-- A directory of class files leads a scan to their contents. -/
theorem HoldsFiles.contents {tree : FileTree} {directory : String}
    {files : List (Place × List UInt8)} (h : HoldsFiles tree directory files)
    (hnames : ∀ file ∈ files, NamesClass file.1) :
    ∃ contents, tree.contentsOf directory = .ok contents ∧
      contents.Perm (files.map Prod.snd) := by
  obtain ⟨place, hplace, hentries⟩ := h.entriesBelow_perm
  have hsorted := (sortByNames_perm Prod.fst (tree.entriesBelow directory place)).trans hentries
  have hstep : ∀ entry ∈ sortByNames Prod.fst (tree.entriesBelow directory place),
      contentsBelow directory entry = .ok [entry.2.toOption.getD []] := by
    intro entry hmem
    obtain ⟨file, hfile, rfl⟩ := List.mem_map.mp (hsorted.mem_iff.mp hmem)
    simp only [contentsBelow, (hnames file hfile).ofName?_eq]
    rfl
  refine ⟨(sortByNames Prod.fst (tree.entriesBelow directory place)).map
    (fun entry => entry.2.toOption.getD []), ?_, ?_⟩
  · rw [FileTree.contentsOf, hplace]
    simp only [mapM_of_eq_ok hstep, Except.map, ← List.flatMap_def]
    rw [List.map_eq_flatMap]
  · have hperm := hsorted.map (fun entry => entry.2.toOption.getD [])
    rw [List.map_map] at hperm
    exact hperm

/-! Archives that hold files. -/

/-- An archive holds exactly the given files: whichever are asked for are what it gives. -/
def ArchiveHolds (bytes : List UInt8) (files : List (Place × List UInt8)) : Prop :=
  ∀ wanted : String → Bool, ∃ entries, Archive.readArchive wanted bytes = .ok entries ∧
    (entries.map (fun entry => (entry.name, entry.content))).Perm
      ((files.filter (fun file => wanted (entryName file.1))).map
        (fun file => (entryName file.1, .ok file.2)))

theorem ArchiveHolds.classEntries {bytes : List UInt8} {files : List (Place × List UInt8)}
    (h : ArchiveHolds bytes files) (path : String) :
    ∃ entries, Linkage.classEntries path bytes = .ok entries ∧
      (entries.map ClassEntry.content).Perm
        ((files.filter (fun file => isClassEntry (entryName file.1))).map Prod.snd) := by
  obtain ⟨found, hread, hfound⟩ := h isClassEntry
  have hsorted := ((sortByNames_perm (fun entry => [entry.name]) found).map
    (fun entry => (entry.name, entry.content))).trans hfound
  refine ⟨(sortByName Archive.ArchiveEntry.name found).map
    (fun entry => ⟨entry.name, entry.size, entry.content.toOption.getD []⟩), ?_, ?_⟩
  · rw [Linkage.classEntries, hread]
    refine mapM_of_eq_ok fun entry hmem => ?_
    obtain ⟨file, -, heq⟩ := List.mem_map.mp (hsorted.mem_iff.mp (List.mem_map_of_mem hmem))
    have hcontent : entry.content = .ok file.2 := (congrArg Prod.snd heq).symm
    simp only [hcontent]
    rfl
  · have hperm := hsorted.map (fun entry => entry.2.toOption.getD [])
    rw [List.map_map, List.map_map] at hperm
    rw [List.map_map]
    exact hperm

/-- An archive of class files leads a scan to the contents of those that are not descriptors
of modules. -/
theorem ArchiveHolds.contents {tree : FileTree} {path : String} {bytes : List UInt8}
    {files : List (Place × List UInt8)} (h : ArchiveHolds bytes files)
    (hfind : tree.find path = .ok (.file bytes))
    (hsort : FileSort.ofName? (fileName? path) = some .archive)
    (hnames : ∀ file ∈ files, NamesClass file.1) :
    ∃ contents, tree.contentsOf path = .ok contents ∧
      contents.Perm ((files.filter (fun file => !endsAsDescriptor file.1)).map Prod.snd) := by
  obtain ⟨entries, hentries, hperm⟩ := h.classEntries path
  refine ⟨entries.map ClassEntry.content, ?_, ?_⟩
  · simp only [FileTree.contentsOf, hfind, givenContents, hsort, sourceContents, mapError_ok]
    rw [bind_of_eq_ok rfl, ScanSource.read, bind_of_eq_ok hentries]
    rfl
  · rwa [List.filter_congr fun file hfile => isClassEntry_entryName (hnames file hfile)] at hperm

/-! Scans of both. -/

/-- The same class files stand below a directory and in an archive. -/
structure Unpacked (tree : FileTree) (directory archive : String)
    (files : List (Place × List UInt8)) : Prop where
  named : ∀ file ∈ files, NamesClass file.1
  below : HoldsFiles tree directory files
  packed : ∃ bytes, tree.find archive = .ok (.file bytes) ∧ ArchiveHolds bytes files
  sort_eq : FileSort.ofName? (fileName? archive) = some .archive

/-- The contents of the files that are named as descriptors of modules. -/
def descriptorContents (files : List (Place × List UInt8)) : List (List UInt8) :=
  (files.filter (fun file => endsAsDescriptor file.1)).map Prod.snd

/-- Two scans find the same, in any order and apart from artifacts, but that the first has
loaded further contents. -/
structure ScanOutput.FindsAlso (further : List (List UInt8)) (first second : ScanOutput) :
    Prop where
  classes : (first.classes.map ClassDecl.withoutArtifact).Perm
    (second.classes.map ClassDecl.withoutArtifact ++ loadedClasses further)
  baseline : first.baseline.map ClassDecl.withoutArtifact =
    second.baseline.map ClassDecl.withoutArtifact
  failures : (first.failures.map TypeFailure.message).Perm
    (second.failures.map TypeFailure.message ++ loadMessages further)

namespace Unpacked

variable {tree : FileTree} {directory archive : String} {files : List (Place × List UInt8)}

/-- The directory leads a scan to what the archive leads to, and to the descriptors of
modules. -/
theorem contents_perm (h : Unpacked tree directory archive files) :
    ∃ loose packed, tree.contentsOf directory = .ok loose ∧
      tree.contentsOf archive = .ok packed ∧
      loose.Perm (packed ++ descriptorContents files) := by
  obtain ⟨bytes, hfind, harchive⟩ := h.packed
  obtain ⟨loose, hloose, hall⟩ := h.below.contents h.named
  obtain ⟨packed, hpacked, hothers⟩ := harchive.contents hfind h.sort_eq h.named
  refine ⟨loose, packed, hloose, hpacked, hall.trans (.trans ?_ (hothers.symm.append_right _))⟩
  rw [descriptorContents, ← List.map_append]
  have hsplit := List.filter_append_perm (fun file => endsAsDescriptor file.1) files
  exact ((List.perm_append_comm.trans hsplit).map Prod.snd).symm

/-- What scans of the directory and of the archive have found differs by the descriptors of
modules, also after the same scan of what completes the known types. -/
theorem findsAlso (h : Unpacked tree directory archive files) :
    ∃ loose packed, scanPath tree .input {} directory = .ok loose ∧
      scanPath tree .input {} archive = .ok packed ∧
      loose.FindsAlso (descriptorContents files) packed := by
  -- A scan depends on its contents alone, and both have the same but for the descriptors.
  obtain ⟨loose, packed, hloose, hpacked, hperm⟩ := h.contents_perm
  have hdirectory := goesOnTo_path .input tree directory
  have harchive := goesOnTo_path .input tree archive
  rw [hloose] at hdirectory
  rw [hpacked] at harchive
  obtain ⟨found, hfound, hadds⟩ := hdirectory {}
  obtain ⟨others, hothers, hpackedAdds⟩ := harchive {}
  refine ⟨found, others, hfound, hothers, ?_, ?_, ?_⟩
  · rw [hadds.classes, hpackedAdds.classes]
    simpa [loadedClasses] using
      hperm.filterMap (fun bytes => (ClassFile.load bytes (-1)).toOption)
  · rw [hadds.baseline, hpackedAdds.baseline]
    rfl
  · rw [hadds.failures, hpackedAdds.failures]
    simpa [loadMessages] using hperm.filterMap _

end Unpacked

theorem ScanOutput.FindsAlso.add {further contents : List (List UInt8)}
    {first second firstAfter secondAfter : ScanOutput} (h : first.FindsAlso further second)
    (hfirst : first.Adds .baseline contents firstAfter)
    (hsecond : second.Adds .baseline contents secondAfter) :
    firstAfter.FindsAlso further secondAfter where
  classes := by
    rw [hfirst.classes, hsecond.classes]
    simpa using h.classes
  baseline := by rw [hfirst.baseline, hsecond.baseline, h.baseline]
  failures := by
    rw [hfirst.failures, hsecond.failures, List.append_assoc]
    refine (h.failures.append_right _).trans ?_
    rw [List.append_assoc]
    exact List.perm_append_comm.append_left _

theorem scanBaselineInto_nil (tree : FileTree) (output : ScanOutput) :
    scanBaselineInto tree [] output = .ok output := by
  simp [scanBaselineInto, sortByName, sortByNames, pure, Except.pure]

/-- An archive and its unpacked directory scan alike, but for descriptors of modules: the scan
of the directory loads what is named as one, and that of the archive does not.  Both end early
only where a scan of what completes the known types does. -/
theorem scanInputs_unpacked (tree : FileTree) (directory archive : String)
    (files : List (Place × List UInt8)) (h : Unpacked tree directory archive files)
    (baseline : List String) :
    (∃ error, scanBaseline tree baseline = .error error ∧
      scanInputs tree directory baseline = .error error ∧
      scanInputs tree archive baseline = .error error) ∨
    ∃ completing loose packed, scanBaseline tree baseline = .ok completing ∧
      scanInputs tree directory baseline = .ok loose ∧
      scanInputs tree archive baseline = .ok packed ∧
      loose.FindsAlso (descriptorContents files) packed := by
  obtain ⟨loose, packed, hloose, hpacked, halso⟩ := h.findsAlso
  have hdirectory : scanInputs tree directory baseline = scanBaselineInto tree baseline loose :=
    bind_of_eq_ok hloose
  have harchive : scanInputs tree archive baseline = scanBaselineInto tree baseline packed :=
    bind_of_eq_ok hpacked
  have hbaseline := goesOnTo_foldlM (goesOnTo_path .baseline tree) (sortByName id baseline)
  rw [hdirectory, harchive]
  cases houtcome : ((sortByName id baseline).mapM tree.contentsOf).map List.flatten with
  | error error =>
      rw [houtcome] at hbaseline
      exact .inl ⟨error, hbaseline _, hbaseline _, hbaseline _⟩
  | ok contents =>
      rw [houtcome] at hbaseline
      obtain ⟨completing, hcompleting, -⟩ := hbaseline {}
      obtain ⟨looseAfter, hlooseAfter, hlooseAdds⟩ := hbaseline loose
      obtain ⟨packedAfter, hpackedAfter, hpackedAdds⟩ := hbaseline packed
      exact .inr ⟨completing, looseAfter, packedAfter, hcompleting, hlooseAfter, hpackedAfter,
        halso.add hlooseAdds hpackedAdds⟩

/-! A class and the descriptor of its module, in a directory and in an archive. -/

/-- A class file that describes a module `m`. -/
def moduleDescriptor : List UInt8 := [
  0xca, 0xfe, 0xba, 0xbe, 0, 0, 0, 0x35, 0, 6, 7, 0, 2, 1, 0, 0xb, 0x6d, 0x6f, 0x64, 0x75, 0x6c,
  0x65, 0x2d, 0x69, 0x6e, 0x66, 0x6f, 1, 0, 6, 0x4d, 0x6f, 0x64, 0x75, 0x6c, 0x65, 0x13, 0, 5,
  1, 0, 1, 0x6d, 0x80, 0, 0, 1, 0, 0, 0, 0, 0, 0, 0, 0, 0, 1, 0, 3, 0, 0, 0, 0x10, 0, 4, 0, 0,
  0, 0, 0, 0, 0, 0, 0, 0, 0, 0, 0, 0]

/-- An archive with a class and the descriptor of a module. -/
def moduleArchive : List UInt8 := [
  0x50, 0x4b, 3, 4, 0x14, 0, 0, 0, 0, 0, 0, 0, 0x21, 0, 0xb8, 0x93, 0x23, 0xe, 0x1f, 0, 0, 0,
  0x1f, 0, 0, 0, 7, 0, 0, 0, 0x41, 0x2e, 0x63, 0x6c, 0x61, 0x73, 0x73, 0xca, 0xfe, 0xba, 0xbe,
  0, 0, 0, 0x34, 0, 3, 7, 0, 2, 1, 0, 1, 0x41, 0, 0, 0, 1, 0, 0, 0, 0, 0, 0, 0, 0, 0, 0, 0x50,
  0x4b, 3, 4, 0x14, 0, 0, 0, 0, 0, 0, 0, 0x21, 0, 0xd, 0x34, 3, 0x69, 0x4f, 0, 0, 0, 0x4f, 0, 0,
  0, 0x11, 0, 0, 0, 0x6d, 0x6f, 0x64, 0x75, 0x6c, 0x65, 0x2d, 0x69, 0x6e, 0x66, 0x6f, 0x2e,
  0x63, 0x6c, 0x61, 0x73, 0x73, 0xca, 0xfe, 0xba, 0xbe, 0, 0, 0, 0x35, 0, 6, 7, 0, 2, 1, 0, 0xb,
  0x6d, 0x6f, 0x64, 0x75, 0x6c, 0x65, 0x2d, 0x69, 0x6e, 0x66, 0x6f, 1, 0, 6, 0x4d, 0x6f, 0x64,
  0x75, 0x6c, 0x65, 0x13, 0, 5, 1, 0, 1, 0x6d, 0x80, 0, 0, 1, 0, 0, 0, 0, 0, 0, 0, 0, 0, 1, 0,
  3, 0, 0, 0, 0x10, 0, 4, 0, 0, 0, 0, 0, 0, 0, 0, 0, 0, 0, 0, 0, 0, 0x50, 0x4b, 1, 2, 0x14, 3,
  0x14, 0, 0, 0, 0, 0, 0, 0, 0x21, 0, 0xb8, 0x93, 0x23, 0xe, 0x1f, 0, 0, 0, 0x1f, 0, 0, 0, 7, 0,
  0, 0, 0, 0, 0, 0, 0, 0, 0, 0, 0x80, 1, 0, 0, 0, 0, 0x41, 0x2e, 0x63, 0x6c, 0x61, 0x73, 0x73,
  0x50, 0x4b, 1, 2, 0x14, 3, 0x14, 0, 0, 0, 0, 0, 0, 0, 0x21, 0, 0xd, 0x34, 3, 0x69, 0x4f, 0, 0,
  0, 0x4f, 0, 0, 0, 0x11, 0, 0, 0, 0, 0, 0, 0, 0, 0, 0, 0, 0x80, 1, 0x44, 0, 0, 0, 0x6d, 0x6f,
  0x64, 0x75, 0x6c, 0x65, 0x2d, 0x69, 0x6e, 0x66, 0x6f, 0x2e, 0x63, 0x6c, 0x61, 0x73, 0x73,
  0x50, 0x4b, 5, 6, 0, 0, 0, 0, 2, 0, 2, 0, 0x74, 0, 0, 0, 0xc2, 0, 0, 0, 0, 0]

def looseFiles : List (Place × List UInt8) :=
  [(["A.class"], plainClassFile), (["module-info.class"], moduleDescriptor)]

def unpackedTree : FileTree where
  files := [(["d.jar"], moduleArchive), (["d", "A.class"], plainClassFile),
    (["d", "module-info.class"], moduleDescriptor)]

theorem checksum_moduleDescriptor : Archive.checksum moduleDescriptor = 0x6903340d := by
  have hfront : (moduleDescriptor.take 40).foldl Archive.checksumByte 0xffffffff = 0x3d464468 := by
    decide +kernel
  have hback : (moduleDescriptor.drop 40).foldl Archive.checksumByte 0x3d464468 = 0x96fccbf2 := by
    decide +kernel
  calc Archive.checksum moduleDescriptor
      = (moduleDescriptor.take 40 ++ moduleDescriptor.drop 40).foldl Archive.checksumByte
          0xffffffff ^^^ 0xffffffff := by rw [List.take_append_drop, Archive.checksum]
    _ = 0x6903340d := by
        rw [List.foldl_append, hfront, hback]
        decide

theorem marksBetween_toArray (bytes : List UInt8) (mark : Archive.Mark) (start limit : Nat) :
    Archive.marksBetween bytes.toArray mark start limit =
      (List.range' start (limit + 1 - (start + mark.length))).filter
        (fun offset => (bytes.drop offset).take mark.length = mark) := by
  refine List.filter_congr fun offset _ => ?_
  rw [Archive.hasMark, Archive.blockAt]
  simp [List.extract_eq_take_drop]

/-- The records of the archive's directory. -/
def plainRecord : Archive.DirectoryRecord where
  name := "A.class"
  rawName := [65, 46, 99, 108, 97, 115, 115]
  comment := ""
  method := .stored
  isEncrypted := false
  checksum := 0x0e2393b8
  storedSize := 31
  size := 31
  headerOffset := 0

def moduleRecord : Archive.DirectoryRecord where
  name := "module-info.class"
  rawName := [109, 111, 100, 117, 108, 101, 45, 105, 110, 102, 111, 46, 99, 108, 97, 115, 115]
  comment := ""
  method := .stored
  isEncrypted := false
  checksum := 0x6903340d
  storedSize := 79
  size := 79
  headerOffset := 68

theorem readDirectory_moduleArchive :
    Archive.readDirectory moduleArchive.toArray = .ok [plainRecord, moduleRecord] := by
  have hmarks : Archive.marksBetween moduleArchive.toArray Archive.endMark 0
      moduleArchive.toArray.size = [310] := by
    rw [marksBetween_toArray]
    decide +kernel
  rw [Archive.readDirectory, hmarks]
  decide +kernel

theorem storedContent_plainRecord :
    Archive.storedContent moduleArchive.toArray plainRecord = .ok plainClassFile := by
  decide +kernel

theorem storedContent_moduleRecord :
    Archive.storedContent moduleArchive.toArray moduleRecord = .ok moduleDescriptor := by
  decide +kernel

theorem readEntry_plainRecord : Archive.readEntry moduleArchive.toArray plainRecord =
    .ok ⟨"A.class", 31, .ok plainClassFile⟩ := by
  have hcontent : Archive.checkedContent plainRecord plainClassFile = .ok plainClassFile := by
    decide +kernel
  rw [Archive.readEntry, bind_of_eq_ok storedContent_plainRecord, hcontent]
  rfl

theorem readEntry_moduleRecord : Archive.readEntry moduleArchive.toArray moduleRecord =
    .ok ⟨"module-info.class", 79, .ok moduleDescriptor⟩ := by
  have hexpanded : Archive.expand moduleRecord.method moduleDescriptor =
      .ok moduleDescriptor := rfl
  have hchecksum : Archive.checksum moduleDescriptor = moduleRecord.checksum :=
    checksum_moduleDescriptor
  have hcontent : Archive.checkedContent moduleRecord moduleDescriptor = .ok moduleDescriptor := by
    rw [Archive.checkedContent, bind_of_eq_ok hexpanded, if_pos hchecksum]
    rfl
  rw [Archive.readEntry, bind_of_eq_ok storedContent_moduleRecord, hcontent]
  rfl

theorem archiveHolds_moduleArchive : ArchiveHolds moduleArchive looseFiles := by
  intro wanted
  have hrecords : Archive.lastOfEachName [plainRecord, moduleRecord] =
      [plainRecord, moduleRecord] := by
    simp [Archive.lastOfEachName, distinctBy_eq_distinctAfter, distinctAfter, plainRecord,
      moduleRecord]
  have hread : Archive.readArchive wanted moduleArchive =
      ([plainRecord, moduleRecord].filter (fun record => wanted record.name)).mapM
        (Archive.readEntry moduleArchive.toArray) := by
    rw [Archive.readArchive, bind_of_eq_ok readDirectory_moduleArchive]
    simp only [hrecords, List.mapM_cons, List.mapM_nil, storedContent_plainRecord,
      storedContent_moduleRecord]
    rfl
  have hnames : entryName ["A.class"] = "A.class" ∧
      entryName ["module-info.class"] = "module-info.class" := by decide +kernel
  have hplain : plainRecord.name = "A.class" := rfl
  have hmodule : moduleRecord.name = "module-info.class" := rfl
  rw [hread]
  cases hclass : wanted "A.class" <;> cases hinfo : wanted "module-info.class" <;>
    simp [looseFiles, hnames, hplain, hmodule, hclass, hinfo, readEntry_plainRecord,
      readEntry_moduleRecord, bind, Except.bind, pure, Except.pure]

theorem unpacked_unpackedTree : Unpacked unpackedTree "d" "d.jar" looseFiles where
  named := by
    simp only [looseFiles, List.forall_mem_cons]
    exact ⟨⟨"A", by decide, by decide⟩, ⟨"module-info", by decide, by decide⟩, by simp⟩
  below := by
    refine ⟨⟨["d"], by decide +kernel, .of_eq (by decide +kernel), ?_⟩, ?_⟩
    · simp [FileTree.directoriesBelow, unpackedTree]
    · simp only [looseFiles, List.forall_mem_cons]
      exact ⟨by decide +kernel, by decide +kernel, by simp⟩
  packed := ⟨moduleArchive, by decide +kernel, archiveHolds_moduleArchive⟩
  sort_eq := by decide +kernel

theorem scanInputs_unpackedTree : Unpacked unpackedTree "d" "d.jar" looseFiles ∧
    ∃ loose packed, scanInputs unpackedTree "d" [] = .ok loose ∧
      scanInputs unpackedTree "d.jar" [] = .ok packed ∧
      loose.FindsAlso (descriptorContents looseFiles) packed := by
  refine ⟨unpacked_unpackedTree, ?_⟩
  rcases scanInputs_unpacked unpackedTree "d" "d.jar" looseFiles unpacked_unpackedTree [] with
    ⟨error, hfails, -, -⟩ | ⟨completing, loose, packed, -, hloose, hpacked, halso⟩
  · rw [scanBaseline, scanBaselineInto_nil] at hfails
    cases hfails
  · exact ⟨loose, packed, hloose, hpacked, halso⟩

/-- The scan of the directory fails to load the descriptor of the module, which the scan of
the archive passes over. -/
theorem scanInputs_unpackedTree_differ :
    ¬ ∀ tree directory archive files, Unpacked tree directory archive files →
      ∃ loose packed, scanInputs tree directory [] = .ok loose ∧
        scanInputs tree archive [] = .ok packed ∧
        (loose.classes.map ClassDecl.withoutArtifact).Perm
          (packed.classes.map ClassDecl.withoutArtifact) ∧
        (loose.failures.map TypeFailure.message).Perm
          (packed.failures.map TypeFailure.message) := by
  intro hall
  obtain ⟨loose, packed, hloose, hpacked, -, hperm⟩ :=
    hall unpackedTree "d" "d.jar" looseFiles unpacked_unpackedTree
  obtain ⟨found, others, hfound, hothers, halso⟩ := unpacked_unpackedTree.findsAlso
  rw [scanInputs, bind_of_eq_ok hfound, scanBaselineInto_nil] at hloose
  rw [scanInputs, bind_of_eq_ok hothers, scanBaselineInto_nil] at hpacked
  cases hloose
  cases hpacked
  have hmessages : loadMessages (descriptorContents looseFiles) =
      ["failed to parse class file bytes: I/O Error: unmatched attribute: Module"] := by
    decide +kernel
  have hlength := (hperm.symm.trans halso.failures).length_eq
  simp [hmessages] at hlength

end Linkage
