import Linkage.Proofs.PathReads
import Linkage.Proofs.RootVisits
import Linkage.Scan
import Mathlib.Data.List.Forall2
import Mathlib.Data.List.Range
/-
Accounts of scans.  Indices of artifacts are handed out through walks of directories,
archives and failures to load.  Whatever a scan comes to, each artifact is an archive, or
stands for one class that was loaded or one failure; the index of a class leads to the
artifact that its bytes came from, and that of a parent to the archive around an entry.
-/

namespace Linkage

/-! Where a scan finds bytes. -/

/-- A path leads to a file of a sort with these bytes: the path was given for the file, or
a walk through a directory comes to it. -/
inductive LeadsTo (tree : FileTree) (path : String) (sort : FileSort) (bytes : List UInt8) :
    Prop where
  | given (hfind : tree.find path = .ok (.file bytes))
      (hsort : FileSort.ofName? (fileName? path) = some sort)
  | below {directory : String} {place below : Place}
      (hfind : tree.find directory = .ok (.directory place))
      (hfile : (place ++ below, bytes) ∈ tree.files)
      (hreach : FileTree.firstUnreachable directory below = none)
      (hpath : path = joinPath directory below)
      (hsort : FileSort.ofName? below.getLast? = some sort)

/-- The bytes of an archive hold a class under a name. -/
def HoldsClass (archive : List UInt8) (name : String) (bytes : List UInt8) : Prop :=
  isClassEntry name = true ∧ ∃ entries entry,
    Archive.readArchive isClassEntry archive = .ok entries ∧ entry ∈ entries ∧
      entry.name = name ∧ entry.content = .ok bytes

/-- The artifact at an index is a class that an archive holds, and the archive has been
scanned earlier. -/
structure EntryOf (tree : FileTree) (artifacts : List Artifact) (archives : List Nat)
    (index parent : Nat) (artifact : Artifact) (bytes : List UInt8) : Prop where
  parent_mem : parent ∈ archives
  earlier : parent < index
  held : ∃ archive content name, artifacts[parent]? = some archive ∧
    LeadsTo tree archive.uri .archive content ∧ HoldsClass content name bytes ∧
    artifact.uri = "jar:" ++ archive.uri ++ "!/" ++ name

/-- Bytes stand behind the artifact of a class: those of the file that its path leads to,
or those of an entry of the archive that is its parent. -/
inductive ClassSource (tree : FileTree) (artifacts : List Artifact) (archives : List Nat)
    (index : Nat) (artifact : Artifact) (bytes : List UInt8) : Prop where
  | file (hparent : artifact.parent = none) (hleads : LeadsTo tree artifact.uri .classFile bytes)
  | entry {parent : Nat} (hparent : artifact.parent = some parent)
      (hentry : EntryOf tree artifacts archives index parent artifact bytes)

theorem mem_of_readArchive {wanted : String → Bool} {bytes : List UInt8}
    {entries : List Archive.ArchiveEntry} (h : Archive.readArchive wanted bytes = .ok entries)
    {entry : Archive.ArchiveEntry} (hentry : entry ∈ entries) : wanted entry.name = true := by
  obtain ⟨directory, -, h⟩ := bind_eq_ok h
  obtain ⟨stored, -, h⟩ := bind_eq_ok h
  obtain ⟨record, hrecord, hread⟩ := (mem_of_mapM_eq_ok h).mp hentry
  obtain ⟨content, -, rfl⟩ := bind_pure_eq_ok hread
  exact (List.mem_filter.mp hrecord).2

theorem holdsClass_of_classEntries {path : String} {bytes : List UInt8}
    {entries : List ClassEntry} (h : classEntries path bytes = .ok entries)
    {entry : ClassEntry} (hentry : entry ∈ entries) :
    HoldsClass bytes entry.name entry.content := by
  rw [classEntries] at h
  cases hread : Archive.readArchive isClassEntry bytes with
  | error cause => simp [hread, throw, throwThe, MonadExceptOf.throw] at h
  | ok records =>
      simp only [hread] at h
      obtain ⟨record, hrecord, hcontent⟩ := (mem_of_mapM_eq_ok h).mp hentry
      have hmem := (sortByNames_perm _ records).mem_iff.mp hrecord
      cases hbytes : record.content with
      | error cause => simp [hbytes] at hcontent
      | ok content =>
          simp only [hbytes, Except.ok.injEq] at hcontent
          subst hcontent
          exact ⟨mem_of_readArchive hread hmem, records, record, hread, hmem, rfl, hbytes⟩

/-- What a walk through a directory comes to and can read is a file below it. -/
theorem mem_files_of_mem_entriesBelow {tree : FileTree} {path : String} {place below : Place}
    {bytes : List UInt8} (h : (below, .ok bytes) ∈ tree.entriesBelow path place) :
    (place ++ below, bytes) ∈ tree.files ∧ FileTree.firstUnreachable path below = none := by
  rw [FileTree.entriesBelow, List.mem_append] at h
  rcases h with h | h
  · obtain ⟨⟨found, content⟩, hfound, hentry⟩ := List.mem_map.mp h
    cases hreach : FileTree.firstUnreachable path found with
    | some unreachable => simp [hreach] at hentry
    | none =>
        simp only [hreach, Prod.mk.injEq, Except.ok.injEq] at hentry
        obtain ⟨rfl, rfl⟩ := hentry
        refine ⟨?_, hreach⟩
        obtain ⟨file, hfile, hbelow⟩ := List.mem_filterMap.mp hfound
        obtain ⟨rest, hdrop, heq⟩ := Option.map_eq_some_iff.mp hbelow
        cases heq
        rw [← dropStart_eq_some_iff.mp hdrop]
        exact hfile
  · obtain ⟨directory, -, hentry⟩ := List.mem_filterMap.mp h
    obtain ⟨unreachable, -, heq⟩ := Option.map_eq_some_iff.mp hentry
    simp at heq

/-- In a tree as file systems have them, the path of what a scan comes to reads as the bytes
that the scan has read. -/
theorem LeadsTo.read_eq {tree : FileTree} (h : tree.WellFormed) {path : String}
    {sort : FileSort} {bytes : List UInt8} (hleads : LeadsTo tree path sort bytes) :
    tree.read path = .ok bytes := by
  cases hleads with
  | given hfind hsort =>
      rw [FileTree.read, bind_of_eq_ok hfind]
      rfl
  | @below directory place below hfind hfile hreach hpath hsort =>
      have hbelow : below ≠ [] := by
        rintro rfl
        cases hsort
      rw [hpath]
      exact h.read_below hfind hfile hbelow hreach

/-! Artifacts added later change nothing about those before. -/

theorem getElem?_extended {α : Type} {items more : List α} (h : items <+: more) {index : Nat}
    {item : α} (hitem : items[index]? = some item) : more[index]? = some item := by
  obtain ⟨hindex, rfl⟩ := List.getElem?_eq_some_iff.mp hitem
  exact List.prefix_iff_getElem?.mp h index hindex

theorem EntryOf.grow {tree : FileTree} {artifacts more : List Artifact}
    {archives moreArchives : List Nat} {index parent : Nat} {artifact : Artifact}
    {bytes : List UInt8} (h : EntryOf tree artifacts archives index parent artifact bytes)
    (hmore : artifacts <+: more) (harchives : archives ⊆ moreArchives) :
    EntryOf tree more moreArchives index parent artifact bytes := by
  obtain ⟨archive, content, name, harchive, hheld⟩ := h.held
  exact ⟨harchives h.parent_mem, h.earlier, archive, content, name,
    getElem?_extended hmore harchive, hheld⟩

theorem ClassSource.grow {tree : FileTree} {artifacts more : List Artifact}
    {archives moreArchives : List Nat} {index : Nat} {artifact : Artifact} {bytes : List UInt8}
    (h : ClassSource tree artifacts archives index artifact bytes) (hmore : artifacts <+: more)
    (harchives : archives ⊆ moreArchives) :
    ClassSource tree more moreArchives index artifact bytes := by
  cases h with
  | file hparent hleads => exact .file hparent hleads
  | entry hparent hentry => exact .entry hparent (hentry.grow hmore harchives)

/-- The artifact at an index is an archive that a path leads to. -/
def StandsForArchive (tree : FileTree) (artifacts : List Artifact) (index : Nat) : Prop :=
  ∃ archive content, artifacts[index]? = some archive ∧ archive.parent = none ∧
    LeadsTo tree archive.uri .archive content

/-- The artifact at an index is that of a class, and loading its bytes has an outcome. -/
def StandsFor (tree : FileTree) (artifacts : List Artifact) (archives : List Nat) (index : Nat)
    (outcome : Artifact → ClassFile.Loaded ClassDecl → Prop) : Prop :=
  ∃ artifact bytes, artifacts[index]? = some artifact ∧
    ClassSource tree artifacts archives index artifact bytes ∧
    outcome artifact (ClassFile.load bytes index)

/-- The artifact at an index stands for a loaded class. -/
def StandsForClass (tree : FileTree) (artifacts : List Artifact) (archives : List Nat)
    (index : Nat) (decl : ClassDecl) : Prop :=
  StandsFor tree artifacts archives index (fun _ loaded => loaded = .ok decl)

/-- The artifact at an index stands for a failure, which carries its path. -/
def StandsForFailure (tree : FileTree) (artifacts : List Artifact) (archives : List Nat)
    (index : Nat) (failure : TypeFailure) : Prop :=
  StandsFor tree artifacts archives index (fun artifact loaded =>
    ∃ error, loaded = .error error ∧ failure = ⟨artifact.uri, error.message⟩)

theorem StandsForArchive.grow {tree : FileTree} {artifacts more : List Artifact} {index : Nat}
    (h : StandsForArchive tree artifacts index) (hmore : artifacts <+: more) :
    StandsForArchive tree more index := by
  obtain ⟨archive, content, harchive, hsource⟩ := h
  exact ⟨archive, content, getElem?_extended hmore harchive, hsource⟩

theorem StandsFor.grow {tree : FileTree} {artifacts more : List Artifact}
    {archives moreArchives : List Nat} {index : Nat}
    {outcome : Artifact → ClassFile.Loaded ClassDecl → Prop}
    (h : StandsFor tree artifacts archives index outcome) (hmore : artifacts <+: more)
    (harchives : archives ⊆ moreArchives) :
    StandsFor tree more moreArchives index outcome := by
  obtain ⟨artifact, bytes, hartifact, hsource, houtcome⟩ := h
  exact ⟨artifact, bytes, getElem?_extended hmore hartifact, hsource.grow hmore harchives,
    houtcome⟩

namespace ScanOutput

@[simp] theorem artifacts_addClass (output : ScanOutput) (decl : ClassDecl) (role : ScanRole) :
    (output.addClass decl role).artifacts = output.artifacts := by
  cases role <;> rfl

@[simp] theorem failures_addClass (output : ScanOutput) (decl : ClassDecl) (role : ScanRole) :
    (output.addClass decl role).failures = output.failures := by
  cases role <;> rfl

theorem classes_addClass {output : ScanOutput} {role : ScanRole}
    (hrole : role = .input → output.baseline = []) {decl : ClassDecl} :
    (output.addClass decl role).classes ++ (output.addClass decl role).baseline =
      output.classes ++ output.baseline ++ [decl] := by
  cases role with
  | input => simp [addClass, hrole rfl]
  | baseline => simp [addClass]

end ScanOutput

/-! What a scan has accounted for. -/

/-- The artifacts of a scan are divided among archives, classes and failures. -/
structure ScanAccount (tree : FileTree) (output : ScanOutput)
    (archives loaded failed : List Nat) : Prop where
  archive_source : ∀ index ∈ archives, StandsForArchive tree output.artifacts index
  class_source : List.Forall₂ (StandsForClass tree output.artifacts archives) loaded
    (output.classes ++ output.baseline)
  failure_source : List.Forall₂ (StandsForFailure tree output.artifacts archives) failed
    output.failures
  ascending : loaded.Pairwise (· < ·)
  partition : (archives ++ loaded ++ failed).Perm (List.range output.artifacts.length)

namespace ScanAccount

variable {tree : FileTree} {output : ScanOutput} {archives loaded failed : List Nat}

theorem start (tree : FileTree) : ScanAccount tree {} [] [] [] where
  archive_source := by simp
  class_source := .nil
  failure_source := .nil
  ascending := .nil
  partition := .refl []

theorem lt_of_mem (h : ScanAccount tree output archives loaded failed) {index : Nat}
    (hindex : index ∈ loaded) : index < output.artifacts.length :=
  List.mem_range.mp (h.partition.mem_iff.mp
    (List.mem_append_left _ (List.mem_append_right _ hindex)))

/-- What one more artifact preserves, whatever it stands for. -/
theorem extend (h : ScanAccount tree output archives loaded failed) {next : ScanOutput}
    {artifact : Artifact} {newArchives newLoaded newFailed : List Nat}
    {newClasses : List ClassDecl} {newFailures : List TypeFailure}
    (hartifacts : next.artifacts = output.artifacts ++ [artifact])
    (hclasses : next.classes ++ next.baseline = output.classes ++ output.baseline ++ newClasses)
    (hfailures : next.failures = output.failures ++ newFailures)
    (hnew : newArchives ++ newLoaded ++ newFailed = [output.artifacts.length])
    (harchive : ∀ index ∈ newArchives, StandsForArchive tree next.artifacts index)
    (hclass : List.Forall₂ (StandsForClass tree next.artifacts (archives ++ newArchives))
      newLoaded newClasses)
    (hfailure : List.Forall₂ (StandsForFailure tree next.artifacts (archives ++ newArchives))
      newFailed newFailures) :
    ScanAccount tree next (archives ++ newArchives) (loaded ++ newLoaded)
      (failed ++ newFailed) := by
  have hmore : output.artifacts <+: next.artifacts := ⟨_, hartifacts.symm⟩
  have hsubset : archives ⊆ archives ++ newArchives := List.subset_append_left _ _
  have hlast : newLoaded.Sublist [output.artifacts.length] := by
    rw [← hnew]
    exact (List.sublist_append_right _ _).trans (List.sublist_append_left _ _)
  refine ⟨?_, ?_, ?_, ?_, ?_⟩
  · intro index hindex
    rcases List.mem_append.mp hindex with hold | hindex
    · exact (h.archive_source index hold).grow hmore
    · exact harchive index hindex
  · rw [hclasses]
    exact List.rel_append (h.class_source.imp (fun _ _ hold => hold.grow hmore hsubset)) hclass
  · rw [hfailures]
    exact List.rel_append (h.failure_source.imp (fun _ _ hold => hold.grow hmore hsubset))
      hfailure
  · rw [List.pairwise_append]
    refine ⟨h.ascending, (List.pairwise_singleton _ _).sublist hlast, ?_⟩
    intro earlier hearlier later hlater
    rw [List.mem_singleton.mp (hlast.subset hlater)]
    exact h.lt_of_mem hearlier
  · have hperm := h.partition
    rw [List.perm_iff_count] at hperm ⊢
    intro index
    have hcount := hperm index
    have hcountNew := congrArg (List.count index) hnew
    simp only [hartifacts, List.length_append, List.length_singleton, List.range_succ,
      List.count_append] at hcount hcountNew ⊢
    omega

/-- One more artifact of an archive. -/
theorem addArchive (h : ScanAccount tree output archives loaded failed) {archive : Artifact}
    {content : List UInt8} (hparent : archive.parent = none)
    (hleads : LeadsTo tree archive.uri .archive content) :
    ScanAccount tree { output with artifacts := output.artifacts ++ [archive] }
      (archives ++ [output.artifacts.length]) loaded failed := by
  have hsource : ∀ index ∈ [output.artifacts.length],
      StandsForArchive tree (output.artifacts ++ [archive]) index := by
    intro index hindex
    rw [List.mem_singleton.mp hindex]
    exact ⟨archive, content, List.getElem?_concat_length, hparent, hleads⟩
  have hnext : ScanAccount tree { output with artifacts := output.artifacts ++ [archive] }
      (archives ++ [output.artifacts.length]) (loaded ++ []) (failed ++ []) :=
    h.extend rfl (List.append_nil _).symm (List.append_nil _).symm rfl hsource .nil .nil
  rwa [List.append_nil, List.append_nil] at hnext

/-- One more artifact of a class, and the class or the failure to load it. -/
theorem addContent (h : ScanAccount tree output archives loaded failed) {role : ScanRole}
    (hrole : role = .input → output.baseline = []) {artifact : Artifact} {bytes : List UInt8}
    (hsource : ClassSource tree output.artifacts archives output.artifacts.length artifact
      bytes) :
    ∃ loaded' failed',
      ScanAccount tree (output.addContent role artifact bytes) archives loaded' failed' := by
  have hgrown := hsource.grow (List.prefix_append _ [artifact]) (List.subset_append_left _ [])
  let grown : ScanOutput := { output with artifacts := output.artifacts ++ [artifact] }
  rw [ScanOutput.addContent]
  cases hload : ClassFile.load bytes output.artifacts.length with
  | error error =>
      have hstands : StandsForFailure tree grown.artifacts (archives ++ [])
          output.artifacts.length ⟨artifact.uri, error.message⟩ :=
        ⟨artifact, bytes, List.getElem?_concat_length, hgrown, error, hload, rfl⟩
      have hnext : ScanAccount tree
          { grown with failures := grown.failures ++ [⟨artifact.uri, error.message⟩] }
          (archives ++ []) (loaded ++ []) (failed ++ [output.artifacts.length]) :=
        h.extend rfl (List.append_nil _).symm rfl rfl (by simp) .nil (.cons hstands .nil)
      rw [List.append_nil] at hnext
      exact ⟨_, _, hnext⟩
  | ok decl =>
      have hstands : StandsForClass tree (grown.addClass decl role).artifacts (archives ++ [])
          output.artifacts.length decl := by
        rw [ScanOutput.artifacts_addClass]
        exact ⟨artifact, bytes, List.getElem?_concat_length, hgrown, hload⟩
      have hclasses : (grown.addClass decl role).classes ++ (grown.addClass decl role).baseline =
          output.classes ++ output.baseline ++ [decl] :=
        ScanOutput.classes_addClass (show role = .input → grown.baseline = [] from hrole)
      have hnext : ScanAccount tree (grown.addClass decl role) (archives ++ [])
          (loaded ++ [output.artifacts.length]) (failed ++ []) :=
        h.extend (grown.artifacts_addClass decl role) hclasses (by simp [grown]) rfl (by simp)
          (.cons hstands .nil) .nil
      rw [List.append_nil] at hnext
      exact ⟨_, _, hnext⟩

end ScanAccount

/-! What a scan comes to, file by file. -/

/-- Some account of a scan so far; while the input is scanned there is no baseline. -/
def Accounted (tree : FileTree) (role : ScanRole) (output : ScanOutput) : Prop :=
  (role = .input → output.baseline = []) ∧
    ∃ archives loaded failed, ScanAccount tree output archives loaded failed

theorem ScanOutput.baseline_addContent (output : ScanOutput) (artifact : Artifact)
    (bytes : List UInt8) :
    (output.addContent .input artifact bytes).baseline = output.baseline := by
  rw [addContent]
  cases ClassFile.load bytes output.artifacts.length <;> rfl

theorem ScanOutput.artifacts_addContent (output : ScanOutput) (role : ScanRole)
    (artifact : Artifact) (bytes : List UInt8) :
    (output.addContent role artifact bytes).artifacts = output.artifacts ++ [artifact] := by
  rw [addContent]
  cases ClassFile.load bytes output.artifacts.length with
  | error error => rfl
  | ok decl => exact artifacts_addClass _ decl role

namespace ScanAccount

variable {tree : FileTree} {output : ScanOutput} {archives loaded failed : List Nat}

/-- The entries of an archive that has its artifact. -/
theorem addEntries (h : ScanAccount tree output archives loaded failed) {role : ScanRole}
    (hrole : role = .input → output.baseline = []) {parent : Nat} {archive : Artifact}
    {content : List UInt8} (hmem : parent ∈ archives)
    (harchive : output.artifacts[parent]? = some archive)
    (hleads : LeadsTo tree archive.uri .archive content) {entries : List ClassEntry}
    (hentries : ∀ entry ∈ entries, HoldsClass content entry.name entry.content) :
    Accounted tree role
      (entries.foldl (ScanOutput.addEntry role archive.uri parent) output) := by
  induction entries generalizing output loaded failed with
  | nil => exact ⟨hrole, archives, loaded, failed, h⟩
  | cons entry rest ih =>
      rw [List.forall_mem_cons] at hentries
      have hsource : ClassSource tree output.artifacts archives output.artifacts.length
          { uri := "jar:" ++ archive.uri ++ "!/" ++ entry.name
            length := ScanOutput.signedSize entry.size
            parent := some parent } entry.content :=
        .entry rfl ⟨hmem, (List.getElem?_eq_some_iff.mp harchive).1, archive, content, entry.name,
          harchive, hleads, hentries.1, rfl⟩
      obtain ⟨loaded', failed', hnext⟩ := h.addContent hrole hsource
      refine ih hnext ?_ ?_ hentries.2
      · rintro rfl
        rw [ScanOutput.addEntry, ScanOutput.baseline_addContent]
        exact hrole rfl
      · rw [ScanOutput.addEntry, ScanOutput.artifacts_addContent]
        exact getElem?_extended (List.prefix_append _ _) harchive

end ScanAccount

/-- A file that a path leads to, with all that it holds. -/
theorem Accounted.addSource {tree : FileTree} {role : ScanRole} {output : ScanOutput}
    (h : Accounted tree role output) {path : String} {sort : FileSort} {content : List UInt8}
    (hleads : LeadsTo tree path sort content) {source : ScanSource}
    (hsource : ScanSource.read path content sort = .ok source) (isTarget : Bool) :
    Accounted tree role (output.addSource role path isTarget source) := by
  obtain ⟨hrole, archives, loaded, failed, haccount⟩ := h
  cases sort with
  | classFile =>
      cases hsource
      have hsource : ClassSource tree output.artifacts archives output.artifacts.length
          { uri := path, length := content.length, isTarget } content := .file rfl hleads
      obtain ⟨loaded', failed', hnext⟩ := haccount.addContent hrole hsource
      refine ⟨?_, archives, loaded', failed', hnext⟩
      rintro rfl
      exact (ScanOutput.baseline_addContent ..).trans (hrole rfl)
  | archive =>
      obtain ⟨entries, hentries, rfl⟩ := bind_pure_eq_ok hsource
      let archive : Artifact := { uri := path, length := content.length, isTarget }
      have hnext := haccount.addArchive (show archive.parent = none from rfl) hleads
      exact hnext.addEntries hrole (List.mem_append_right _ (List.mem_singleton_self _))
        List.getElem?_concat_length hleads
        (fun entry hentry => holdsClass_of_classEntries hentries hentry)

theorem Accounted.scanBelow {tree : FileTree} {role : ScanRole} {output next : ScanOutput}
    (h : Accounted tree role output) {directory : String} {place : Place}
    (hfind : tree.find directory = .ok (.directory place))
    {entry : Place × Except PathError (List UInt8)}
    (hentry : entry ∈ tree.entriesBelow directory place)
    (hscan : scanBelow directory role output entry = .ok next) : Accounted tree role next := by
  obtain ⟨below, found⟩ := entry
  rw [Linkage.scanBelow] at hscan
  cases hsort : FileSort.ofName? below.getLast? with
  | none =>
      simp only [hsort, Except.ok.injEq] at hscan
      exact hscan ▸ h
  | some sort =>
      simp only [hsort] at hscan
      obtain ⟨content, hcontent, hscan⟩ := bind_eq_ok hscan
      obtain ⟨source, hsource, rfl⟩ := bind_pure_eq_ok hscan
      rw [mapError_eq_ok hcontent] at hentry
      obtain ⟨hfile, hreach⟩ := mem_files_of_mem_entriesBelow hentry
      exact h.addSource (.below hfind hfile hreach rfl hsort) hsource false

theorem Accounted.scanFile {tree : FileTree} {role : ScanRole} {output next : ScanOutput}
    (h : Accounted tree role output) {path : String} {content : List UInt8}
    (hfind : tree.find path = .ok (.file content))
    (hscan : scanFile (.ok content) path role output = .ok next) : Accounted tree role next := by
  unfold Linkage.scanFile at hscan
  split at hscan
  case h_1 => cases hscan
  case h_2 => contradiction
  case h_3 sort found hsort hfound =>
      cases hfound
      obtain ⟨source, hsource, rfl⟩ := bind_pure_eq_ok hscan
      exact h.addSource (.given hfind hsort) hsource _

theorem Accounted.scanPath {tree : FileTree} {role : ScanRole} {output next : ScanOutput}
    (h : Accounted tree role output) {path : String}
    (hscan : scanPath tree role output path = .ok next) : Accounted tree role next := by
  rw [Linkage.scanPath] at hscan
  cases hfind : tree.find path with
  | error cause =>
      simp only [hfind, Linkage.scanFile] at hscan
      split at hscan <;> simp_all
  | ok node =>
      cases node with
      | file content =>
          simp only [hfind] at hscan
          exact h.scanFile hfind hscan
      | directory place =>
          simp only [hfind] at hscan
          refine foldlM_preserves ?_ hscan h
          intro before entry hentry hbefore after hafter
          exact hbefore.scanBelow hfind ((sortByNames_perm _ _).mem_iff.mp hentry) hafter

/-- An account of the input, and then of the paths that complete the known types. -/
theorem Accounted.scanInputs {tree : FileTree} {input : String} {baseline : List String}
    {output : ScanOutput} (h : scanInputs tree input baseline = .ok output) :
    ∃ archives loaded failed, ScanAccount tree output archives loaded failed := by
  obtain ⟨before, hinput, hbaseline⟩ := bind_eq_ok h
  have hstart : Accounted tree .input {} := ⟨fun _ => rfl, [], [], [], ScanAccount.start tree⟩
  have hbefore : Accounted tree .baseline before :=
    ⟨nofun, (hstart.scanPath hinput).2⟩
  have hafter : Accounted tree .baseline output :=
    foldlM_preserves (fun _ _ _ hcurrent _ hnext => hcurrent.scanPath hnext) hbaseline hbefore
  exact hafter.2

/-! The report. -/

/-- What the output of a scan says about where everything came from; some artifacts are
archives, and some stand for the failures, in order. -/
structure ScanReport (tree : FileTree) (output : ScanOutput) (archives failed : List Nat) :
    Prop where
  /-- The index of a class is that of the artifact that its bytes came from. -/
  class_source : ∀ decl ∈ output.classes ++ output.baseline, ∃ index : Nat,
    decl.artifact = index ∧ StandsForClass tree output.artifacts archives index decl
  /-- In a tree as file systems have them, the path of a class file reads as the bytes that
  the class was loaded from. -/
  class_read : tree.WellFormed → ∀ decl ∈ output.classes ++ output.baseline,
    ∀ (index : Nat) artifact, decl.artifact = index → output.artifacts[index]? = some artifact →
      artifact.parent = none →
        ∃ bytes, tree.read artifact.uri = .ok bytes ∧ ClassFile.load bytes index = .ok decl
  class_ascending : (output.classes ++ output.baseline).Pairwise
    (fun left right => left.artifact < right.artifact)
  archive_source : ∀ index ∈ archives, StandsForArchive tree output.artifacts index
  failure_source : List.Forall₂ (StandsForFailure tree output.artifacts archives) failed
    output.failures
  /-- An artifact is an archive, or it accounts for one class or for one failure. -/
  each_once : ∀ index < output.artifacts.length,
    archives.count index +
      (output.classes ++ output.baseline).countP (fun decl => decl.artifact = (index : Int)) +
      failed.count index = 1
  count_eq : output.artifacts.length =
    output.classes.length + output.baseline.length + output.failures.length + archives.length
  /-- A parent is the archive that holds the entry, and has been scanned earlier. -/
  parent_source : ∀ index artifact parent, output.artifacts[index]? = some artifact →
    artifact.parent = some parent →
    ∃ bytes, EntryOf tree output.artifacts archives index parent artifact bytes

theorem StandsForClass.artifact_eq {tree : FileTree} {artifacts : List Artifact}
    {archives : List Nat} {index : Nat} {decl : ClassDecl}
    (h : StandsForClass tree artifacts archives index decl) : decl.artifact = index := by
  obtain ⟨artifact, bytes, -, -, hload⟩ := h
  exact (fields_of_load hload).1

/-- Where the artifact of a class is a file, its path reads as what the class is loaded
from. -/
theorem StandsForClass.load_read {tree : FileTree} (h : tree.WellFormed)
    {artifacts : List Artifact} {archives : List Nat} {index : Nat} {decl : ClassDecl}
    (hstands : StandsForClass tree artifacts archives index decl) {artifact : Artifact}
    (hartifact : artifacts[index]? = some artifact) (hparent : artifact.parent = none) :
    ∃ bytes, tree.read artifact.uri = .ok bytes ∧ ClassFile.load bytes index = .ok decl := by
  obtain ⟨found, bytes, hfound, hsource, hload⟩ := hstands
  cases hartifact.symm.trans hfound
  cases hsource with
  | file hnone hleads => exact ⟨bytes, hleads.read_eq h, hload⟩
  | entry hsome hentry => cases hparent.symm.trans hsome

/-- The artifact of a class that has a parent is an entry of the archive there. -/
theorem StandsFor.parent_source {tree : FileTree} {artifacts : List Artifact}
    {archives : List Nat} {index parent : Nat} {artifact : Artifact}
    {outcome : Artifact → ClassFile.Loaded ClassDecl → Prop}
    (h : StandsFor tree artifacts archives index outcome)
    (hartifact : artifacts[index]? = some artifact) (hparent : artifact.parent = some parent) :
    ∃ bytes, EntryOf tree artifacts archives index parent artifact bytes := by
  obtain ⟨found, bytes, hfound, hsource, -⟩ := h
  cases hartifact.symm.trans hfound
  cases hsource with
  | file hnone => cases hnone.symm.trans hparent
  | entry hsome hentry =>
      cases hsome.symm.trans hparent
      exact ⟨bytes, hentry⟩

theorem exists_of_forall₂ {α β : Type} {relation : α → β → Prop} {items : List α}
    {images : List β} (h : List.Forall₂ relation items images) {image : β}
    (himage : image ∈ images) : ∃ item ∈ items, relation item image := by
  induction h with
  | nil => cases himage
  | @cons item first items images hfirst hrest ih =>
      rcases List.mem_cons.mp himage with rfl | hmem
      · exact ⟨item, List.mem_cons_self, hfirst⟩
      · obtain ⟨found, hfound, hrelation⟩ := ih hmem
        exact ⟨found, List.mem_cons_of_mem item hfound, hrelation⟩

namespace ScanAccount

variable {tree : FileTree} {output : ScanOutput} {archives loaded failed : List Nat}

/-- The indices of the classes are those of their artifacts. -/
theorem map_artifact (h : ScanAccount tree output archives loaded failed) :
    (output.classes ++ output.baseline).map ClassDecl.artifact = loaded.map Int.ofNat := by
  have hindices : List.Forall₂ (· = ·)
      ((output.classes ++ output.baseline).map ClassDecl.artifact) (loaded.map Int.ofNat) := by
    rw [List.forall₂_map_left_iff, List.forall₂_map_right_iff]
    exact (h.class_source.imp (fun _ _ hstands => hstands.artifact_eq)).flip
  rwa [List.forall₂_eq_eq_eq] at hindices

theorem countP_artifact (h : ScanAccount tree output archives loaded failed) (index : Nat) :
    (output.classes ++ output.baseline).countP (fun decl => decl.artifact = (index : Int)) =
      loaded.count index := by
  calc (output.classes ++ output.baseline).countP (fun decl => decl.artifact = (index : Int))
    _ = ((output.classes ++ output.baseline).map ClassDecl.artifact).count (index : Int) := by
        rw [List.count, List.countP_map]
        rfl
    _ = (loaded.map Int.ofNat).count (Int.ofNat index) := by rw [h.map_artifact]; rfl
    _ = loaded.count index :=
        List.count_map_of_injective loaded Int.ofNat (fun _ _ => Int.ofNat.inj) index

theorem parent_source (h : ScanAccount tree output archives loaded failed)
    {index parent : Nat} {artifact : Artifact}
    (hartifact : output.artifacts[index]? = some artifact)
    (hparent : artifact.parent = some parent) :
    ∃ bytes, EntryOf tree output.artifacts archives index parent artifact bytes := by
  have hmem : index ∈ archives ++ loaded ++ failed :=
    h.partition.mem_iff.mpr (List.mem_range.mpr (List.getElem?_eq_some_iff.mp hartifact).1)
  rw [List.mem_append, List.mem_append] at hmem
  obtain (harchive | hloaded) | hfailed := hmem
  · obtain ⟨archive, content, hfound, hnone, -⟩ := h.archive_source index harchive
    cases hartifact.symm.trans hfound
    cases hnone.symm.trans hparent
  · obtain ⟨decl, -, hstands⟩ := exists_of_forall₂ h.class_source.flip hloaded
    exact hstands.parent_source hartifact hparent
  · obtain ⟨failure, -, hstands⟩ := exists_of_forall₂ h.failure_source.flip hfailed
    exact hstands.parent_source hartifact hparent

theorem report (h : ScanAccount tree output archives loaded failed) :
    ScanReport tree output archives failed where
  class_source := by
    intro decl hdecl
    obtain ⟨index, -, hstands⟩ := exists_of_forall₂ h.class_source hdecl
    exact ⟨index, hstands.artifact_eq, hstands⟩
  class_read := by
    intro hformed decl hdecl index artifact hindex hartifact hparent
    obtain ⟨own, -, hstands⟩ := exists_of_forall₂ h.class_source hdecl
    obtain rfl : own = index := Int.ofNat.inj (hstands.artifact_eq.symm.trans hindex)
    exact hstands.load_read hformed hartifact hparent
  class_ascending := by
    have hindices : ((output.classes ++ output.baseline).map ClassDecl.artifact).Pairwise
        (· < ·) := by
      rw [h.map_artifact, List.pairwise_map]
      exact h.ascending.imp Int.ofNat_lt.mpr
    exact List.pairwise_map.mp hindices
  archive_source := h.archive_source
  failure_source := h.failure_source
  each_once := by
    intro index hindex
    have hcount := h.partition.count_eq index
    rw [List.count_eq_one_of_mem List.nodup_range (List.mem_range.mpr hindex),
      List.count_append, List.count_append] at hcount
    rw [h.countP_artifact, hcount]
  count_eq := by
    have hlength := h.partition.length_eq
    have hclasses := h.class_source.length_eq
    have hfailures := h.failure_source.length_eq
    simp only [List.length_append, List.length_range] at hlength hclasses hfailures
    omega
  parent_source := fun _ _ _ => h.parent_source

end ScanAccount

/-- Every artifact of a scan that succeeds is accounted for: as an archive, or by one class
or one failure, each with the file or entry that its bytes came from; and the path of a class
file reads as what the class was loaded from, where paths lead back to files. -/
theorem scanInputs_report (tree : FileTree) (input : String) (baseline : List String)
    (output : ScanOutput) (h : scanInputs tree input baseline = .ok output) :
    ∃ archives failed, ScanReport tree output archives failed := by
  obtain ⟨archives, loaded, failed, haccount⟩ := Accounted.scanInputs h
  exact ⟨archives, failed, haccount.report⟩

/-! An archive with one entry, which cannot be loaded, and a class. -/

/-- An archive that holds an empty file as `A.class`. -/
def emptyClassArchive : List UInt8 := [
  0x50, 0x4b, 3, 4, 0x14, 0, 0, 0, 0, 0, 0, 0, 0x21, 0, 0, 0, 0, 0, 0, 0, 0, 0, 0, 0, 0, 0, 7,
  0, 0, 0, 0x41, 0x2e, 0x63, 0x6c, 0x61, 0x73, 0x73, 0x50, 0x4b, 1, 2, 0x14, 3, 0x14, 0, 0, 0,
  0, 0, 0, 0, 0x21, 0, 0, 0, 0, 0, 0, 0, 0, 0, 0, 0, 0, 0, 7, 0, 0, 0, 0, 0, 0, 0, 0, 0, 0, 0,
  0x80, 1, 0, 0, 0, 0, 0x41, 0x2e, 0x63, 0x6c, 0x61, 0x73, 0x73, 0x50, 0x4b, 5, 6, 0, 0, 0, 0,
  1, 0, 1, 0, 0x35, 0, 0, 0, 0x25, 0, 0, 0, 0, 0]

/-- A class file of a class `A` without members. -/
def plainClassFile : List UInt8 := [
  0xca, 0xfe, 0xba, 0xbe, 0, 0, 0, 0x34, 0, 3, 7, 0, 2, 1, 0, 1, 0x41, 0, 0, 0, 1, 0, 0, 0, 0,
  0, 0, 0, 0, 0, 0]

def scannedTree : FileTree where
  files := [(["a.jar"], emptyClassArchive), (["A.class"], plainClassFile)]

/-- What a scan of the archive and the class finds. -/
def scannedOutput : ScanOutput where
  artifacts := [
    { uri := "a.jar", length := 112, isTarget := true },
    { uri := "jar:a.jar!/A.class", length := 0, parent := some 0 },
    { uri := "A.class", length := 31 }]
  baseline := [{ name := "A", artifact := 2 }]
  failures := [⟨"jar:a.jar!/A.class",
    "failed to parse class file bytes: " ++
      "I/O Error: overflow : attempt to read from 0 whereas len is 0"⟩]

theorem readArchive_emptyClassArchive :
    Archive.readArchive isClassEntry emptyClassArchive = .ok [⟨"A.class", 0, .ok []⟩] := by
  let record : Archive.DirectoryRecord :=
    { name := "A.class"
      rawName := [65, 46, 99, 108, 97, 115, 115]
      comment := ""
      method := .stored
      isEncrypted := false
      checksum := 0
      storedSize := 0
      size := 0
      headerOffset := 0 }
  have hdirectory : Archive.readDirectory emptyClassArchive.toArray = .ok [record] := by
    decide +kernel
  have hstored : Archive.storedContent emptyClassArchive.toArray record = .ok [] := by
    decide +kernel
  have hcontent : Archive.checkedContent record [] = .ok [] := by decide +kernel
  have hwanted : isClassEntry record.name = true := by decide +kernel
  have hrecords : Archive.lastOfEachName [record] = [record] := by
    simp [Archive.lastOfEachName, distinctBy_eq_distinctAfter, distinctAfter]
  have hentry : Archive.readEntry emptyClassArchive.toArray record =
      .ok ⟨"A.class", 0, .ok []⟩ := by
    rw [Archive.readEntry, bind_of_eq_ok hstored, hcontent]
    rfl
  have hfilter : [record].filter (fun record => isClassEntry record.name) = [record] :=
    List.filter_cons_of_pos hwanted
  rw [Archive.readArchive, bind_of_eq_ok hdirectory]
  simp only [hrecords, hfilter, List.mapM_cons, List.mapM_nil, hstored, hentry]
  rfl

theorem scanInputs_scannedTree :
    scanInputs scannedTree "a.jar" ["A.class"] = .ok scannedOutput := by
  have harchive : scannedTree.find "a.jar" = .ok (.file emptyClassArchive) := by decide +kernel
  have hclass : scannedTree.find "A.class" = .ok (.file plainClassFile) := by decide +kernel
  have harchiveSort : FileSort.ofName? (fileName? "a.jar") = some .archive := by decide +kernel
  have hclassSort : FileSort.ofName? (fileName? "A.class") = some .classFile := by decide +kernel
  have hentries : classEntries "a.jar" emptyClassArchive = .ok [⟨"A.class", 0, []⟩] := by
    simp only [classEntries, readArchive_emptyClassArchive, sortByName, sortByNames,
      List.map_cons, List.map_nil, List.mergeSort_singleton, List.mapM_cons, List.mapM_nil]
    rfl
  have hinput : scanPath scannedTree .input {} "a.jar" =
      .ok (({} : ScanOutput).addSource .input "a.jar" true
        (.archive emptyClassArchive.length [⟨"A.class", 0, []⟩])) := by
    simp [scanPath, harchive, scanFile, harchiveSort, ScanSource.read, hentries, bind,
      Except.bind, pure, Except.pure]
  have hbaseline : ∀ output : ScanOutput, scanPath scannedTree .baseline output "A.class" =
      .ok (output.addSource .baseline "A.class" false (.classFile plainClassFile)) := by
    intro output
    simp [scanPath, hclass, scanFile, hclassSort, ScanSource.read, bind, Except.bind, pure,
      Except.pure]
  have hscan : scanInputs scannedTree "a.jar" ["A.class"] =
      .ok ((({} : ScanOutput).addSource .input "a.jar" true
        (.archive emptyClassArchive.length [⟨"A.class", 0, []⟩])).addSource .baseline "A.class"
          false (.classFile plainClassFile)) := by
    simp only [scanInputs, hinput, scanBaselineInto, sortByName, sortByNames, List.map_cons,
      List.map_nil, List.mergeSort_singleton, id_eq]
    rw [bind_of_eq_ok rfl, List.foldlM_cons, bind_of_eq_ok (hbaseline _)]
    rfl
  rw [hscan]
  decide +kernel

theorem wellFormed_scannedTree : scannedTree.WellFormed where
  places_nodup := by decide
  not_directory := by decide
  names := by
    intro file hfile name hname
    have hlisted : name = "a.jar" ∨ name = "A.class" := by
      simp only [scannedTree, List.mem_cons, List.not_mem_nil, or_false] at hfile
      rcases hfile with rfl | rfl
      · exact .inl (List.mem_singleton.mp hname)
      · exact .inr (List.mem_singleton.mp hname)
    rcases hlisted with rfl | rfl <;>
      exact ⟨by decide, by decide, by decide, by decide, by decide +kernel⟩

theorem scanInputs_report_scannedTree :
    scanInputs scannedTree "a.jar" ["A.class"] = .ok scannedOutput ∧ scannedTree.WellFormed ∧
      ∃ archives failed, ScanReport scannedTree scannedOutput archives failed :=
  ⟨scanInputs_scannedTree, wellFormed_scannedTree,
    scanInputs_report scannedTree "a.jar" ["A.class"] scannedOutput scanInputs_scannedTree⟩

end Linkage
