import Linkage.FileTree
import Linkage.Proofs.Outcome
import Mathlib.Data.List.Nodup
/-
Paths of files below a directory.  A walk through a directory makes paths of the names on
its way.  In a tree whose files have proper names, such a path leads back to the file that
the walk came to, and reads as its bytes.
-/

namespace Linkage

/-! Parts of joined paths. -/

theorem splitAtMark_eq_splitOn (mark : Char) (text : List Char) :
    splitAtMark mark text = text.splitOn mark := by
  rw [List.splitOn_eq_splitOnP]
  induction text with
  | nil => rfl
  | cons c rest ih =>
      rw [splitAtMark, List.splitOnP_cons_eq_if_modifyHead, ih]
      by_cases hmark : c = mark
      · simp [hmark]
      · rw [if_neg hmark, if_neg (by simpa using hmark)]
        cases hrest : rest.splitOnP (fun other => other == mark) with
        | nil => exact absurd hrest (List.splitOnP_ne_nil _ _)
        | cons first more => rfl

theorem splitAtMark_append (mark : Char) (left right : List Char) :
    splitAtMark mark (left ++ mark :: right) =
      splitAtMark mark left ++ splitAtMark mark right := by
  simp only [splitAtMark_eq_splitOn, List.splitOn_eq_splitOnP]
  exact List.splitOnP_append_cons left right (beq_self_eq_true mark)

/-- Names without slashes are the parts of the path that joins them. -/
theorem segments_intercalate {below : Place} (hbelow : below ≠ [])
    (hnames : ∀ name ∈ below, '/' ∉ name.toList) :
    segments (String.intercalate "/" below) = below := by
  have hparts : ∀ part ∈ below.map String.toList, '/' ∉ part := by simpa using hnames
  rw [segments, splitAtMark_eq_splitOn, String.toList_intercalate]
  change (List.splitOn '/' (['/'].intercalate (below.map String.toList))).map String.ofList = below
  rw [List.splitOn_intercalate '/' hparts (by simpa using hbelow), List.map_map]
  simp [Function.comp_def]

theorem segments_of_toList {path : String} {left right : List Char}
    (h : path.toList = left ++ '/' :: right) :
    segments path = segments (String.ofList left) ++ segments (String.ofList right) := by
  rw [segments, h, splitAtMark_append, List.map_append, segments, segments,
    String.toList_ofList, String.toList_ofList]

namespace FileTree

theorem step_empty {tree : FileTree} {place next : Place} (h : tree.step place "" = .ok next) :
    next = place := by
  obtain ⟨-, -, h⟩ := bind_eq_ok h
  rw [if_pos (Or.inl rfl)] at h
  exact (Except.ok.inj h).symm

/-- Whether the path of a directory ends with a slash or not, the path of something below
goes on from the place that it leads to. -/
theorem foldlM_step_joinPath (tree : FileTree) {start place : Place} {directory : String}
    (hplace : (segments directory).foldlM tree.step start = .ok place) {below : Place}
    (hbelow : below ≠ []) (hnames : ∀ name ∈ below, '/' ∉ name.toList) :
    (segments (joinPath directory below)).foldlM tree.step start =
      below.foldlM tree.step place := by
  by_cases hslash : directory.toList.getLast? = some '/'
  · obtain ⟨front, hfront⟩ := List.getLast?_eq_some_iff.mp hslash
    have hjoined : (joinPath directory below).toList =
        front ++ '/' :: (String.intercalate "/" below).toList := by
      simp [joinPath, hfront]
    rw [segments_of_toList hfront, List.foldlM_append] at hplace
    obtain ⟨reached, hreached, hempty⟩ := bind_eq_ok hplace
    have hsame : place = reached := by
      obtain ⟨next, hnext, hlast⟩ := bind_eq_ok hempty
      cases hlast
      exact step_empty hnext
    rw [segments_of_toList hjoined, String.ofList_toList, segments_intercalate hbelow hnames,
      List.foldlM_append, bind_of_eq_ok hreached, hsame]
  · have hjoined : (joinPath directory below).toList =
        directory.toList ++ '/' :: (String.intercalate "/" below).toList := by
      simp [joinPath, hslash]
    rw [segments_of_toList hjoined, String.ofList_toList, String.ofList_toList,
      segments_intercalate hbelow hnames, List.foldlM_append, bind_of_eq_ok hplace]

/-! Trees as file systems have them. -/

/-- A name that a file or directory can have. -/
structure ProperName (name : String) : Prop where
  nonempty : name ≠ ""
  not_here : name ≠ "."
  not_up : name ≠ ".."
  no_slash : '/' ∉ name.toList
  size : name.utf8ByteSize ≤ maxNameSize

/-- One file at a place, no directory where a file is, and proper names. -/
structure WellFormed (tree : FileTree) : Prop where
  places_nodup : (tree.files.map Prod.fst).Nodup
  not_directory : ∀ file ∈ tree.files, tree.isDirectory file.1 = false
  names : ∀ file ∈ tree.files, ∀ name ∈ file.1, ProperName name

theorem step_proper {tree : FileTree} {place : Place} {name : String}
    (hplace : tree.isDirectory place = true) (hname : ProperName name) :
    tree.step place name = .ok (place ++ [name]) := by
  have hsize : ¬ maxNameSize < name.utf8ByteSize := Nat.not_lt.mpr hname.size
  simp [step, requireDirectory, hplace, hname.nonempty, hname.not_here, hname.not_up, hsize, bind,
    Except.bind, pure, Except.pure]

theorem isDirectory_of_below {tree : FileTree} {place below : Place} {bytes : List UInt8}
    (hfile : (place ++ below, bytes) ∈ tree.files) (hbelow : below ≠ []) :
    tree.isDirectory place = true := by
  have hdrop : dropStart place (place ++ below) = some below := dropStart_eq_some_iff.mpr rfl
  have hany : tree.files.any
      (fun file => file.1 ≠ place && (dropStart place file.1).isSome) = true := by
    refine List.any_eq_true.mpr ⟨_, hfile, ?_⟩
    simp [hdrop, hbelow]
  rw [isDirectory, hany, Bool.or_true]

/-- The names on the way to a file lead to it. -/
theorem foldlM_step_below {tree : FileTree} {place below : Place} {bytes : List UInt8}
    (hfile : (place ++ below, bytes) ∈ tree.files)
    (hnames : ∀ name ∈ below, ProperName name) :
    below.foldlM tree.step place = .ok (place ++ below) := by
  induction below generalizing place with
  | nil => simp [pure, Except.pure]
  | cons name rest ih =>
      rw [List.forall_mem_cons] at hnames
      have hdirectory := isDirectory_of_below hfile (List.cons_ne_nil name rest)
      have hsplit : place ++ name :: rest = (place ++ [name]) ++ rest := by simp
      rw [List.foldlM_cons, bind_of_eq_ok (step_proper hdirectory hnames.1), hsplit]
      rw [hsplit] at hfile
      exact ih hfile hnames.2

theorem WellFormed.contentAt_eq {tree : FileTree} (h : tree.WellFormed) {place : Place}
    {bytes : List UInt8} (hfile : (place, bytes) ∈ tree.files) :
    tree.contentAt place = some bytes := by
  rw [contentAt]
  cases hfind : tree.files.find? (fun file => file.1 = place) with
  | none => simpa using List.find?_eq_none.mp hfind _ hfile
  | some file =>
      have hplace : file.1 = place := by simpa using List.find?_some hfind
      rw [List.inj_on_of_nodup_map h.places_nodup (List.mem_of_find?_eq_some hfind) hfile hplace]
      rfl

theorem locate_of_find {tree : FileTree} {path : String} {place : Place}
    (h : tree.find path = .ok (.directory place)) : tree.locate path = .ok place := by
  obtain ⟨found, hlocate, h⟩ := bind_eq_ok h
  rw [hlocate]
  by_cases hdirectory : tree.isDirectory found = true
  · simp only [hdirectory, if_true, pure, Except.pure, Except.ok.injEq,
      FileNode.directory.injEq] at h
    rw [h]
  · rw [if_neg hdirectory] at h
    cases hcontent : tree.contentAt found <;>
      simp [hcontent, pure, Except.pure, throw, throwThe, MonadExceptOf.throw] at h

theorem requirePath_of_reachable {path : String} {below : Place} (hbelow : below ≠ [])
    (h : firstUnreachable path below = none) : requirePath (joinPath path below) = .ok () := by
  have hlength : 0 < below.length := List.length_pos_iff.mpr hbelow
  have hmem : below ∈ beginnings below := by
    refine List.mem_map.mpr ⟨below.length - 1, List.mem_range.mpr (by omega), ?_⟩
    exact List.take_of_length_le (by omega)
  have hnone := List.findSome?_eq_none_iff.mp h below hmem
  cases hrequire : requirePath (joinPath path below) with
  | ok _ => rfl
  | error cause => simp [hrequire] at hnone

theorem startOf_joinPath (tree : FileTree) {directory : String}
    (hrequire : requirePath directory = .ok ()) (below : Place) :
    tree.startOf (joinPath directory below) = tree.startOf directory := by
  have hnonempty : directory.toList ≠ [] := by
    intro hnil
    have hempty : directory = "" := String.toList_eq_nil_iff.mp hnil
    simp [requirePath, hempty] at hrequire
  obtain ⟨first, rest, hlist⟩ := List.exists_cons_of_ne_nil hnonempty
  simp [startOf, joinPath, hlist]

/-- In a tree as file systems have them, the path of what a walk through a directory comes to
reads as the bytes of the file. -/
theorem WellFormed.read_below {tree : FileTree} (h : tree.WellFormed) {directory : String}
    {place below : Place} {bytes : List UInt8}
    (hfind : tree.find directory = .ok (.directory place))
    (hfile : (place ++ below, bytes) ∈ tree.files) (hbelow : below ≠ [])
    (hreach : firstUnreachable directory below = none) :
    tree.read (joinPath directory below) = .ok bytes := by
  have hnames : ∀ name ∈ below, ProperName name :=
    fun name hname => h.names _ hfile name (List.mem_append_right _ hname)
  have hdirectory := locate_of_find hfind
  obtain ⟨⟨⟩, hrequire, hplace⟩ := bind_eq_ok hdirectory
  have hlocate : tree.locate (joinPath directory below) = .ok (place ++ below) := by
    rw [locate, bind_of_eq_ok (requirePath_of_reachable hbelow hreach),
      tree.startOf_joinPath hrequire, tree.foldlM_step_joinPath hplace hbelow
        (fun name hname => (hnames name hname).no_slash)]
    exact foldlM_step_below hfile hnames
  have hfound : tree.find (joinPath directory below) = .ok (.file bytes) := by
    rw [find, bind_of_eq_ok hlocate, h.not_directory _ hfile, h.contentAt_eq hfile]
    rfl
  rw [read, bind_of_eq_ok hfound]
  rfl

end FileTree

end Linkage
