import Std.Data.HashSet
/-
Names of types.  Class files write a type name with slashes (`a/b/C`, the
internal form); references, reports and universes use dots (`a.b.C`, the
qualified form).  Names are ordered by code point.
-/

namespace Linkage

/-- A slash becomes a dot, every other character stays. -/
def qualifiedChar (c : Char) : Char :=
  if c = '/' then '.' else c

/-- The qualified form of an internal name. -/
def qualifiedName (internal : String) : String :=
  internal.map qualifiedChar

/-- The characters before the last occurrence of a mark, if there is one. -/
def beforeLast (mark : Char) (text : List Char) : Option (List Char) :=
  match text.reverse.dropWhile (· ≠ mark) with
  | [] => none
  | _ :: head => some head.reverse

/-- The package of a qualified name, empty for the default package. -/
def packageName (qualified : String) : String :=
  match beforeLast '.' qualified.toList with
  | some package => String.ofList package
  | none => ""

/-- The name of the type around a nested type, read off its last dollar sign. -/
def outerByDollar (internal : String) : Option String :=
  (beforeLast '$' internal.toList).map String.ofList

/-- What follows a given start of a list, if the list starts that way. -/
def dropStart {α : Type} [DecidableEq α] : (start items : List α) → Option (List α)
  | [], items => some items
  | _ :: _, [] => none
  | a :: start, b :: items => if a = b then dropStart start items else none

/-- What precedes a given end of a list, if the list ends that way. -/
def dropEnd {α : Type} [DecidableEq α] (tail text : List α) : Option (List α) :=
  (dropStart tail.reverse text.reverse).map List.reverse

theorem dropStart_eq_some_iff {α : Type} [DecidableEq α] {start items rest : List α} :
    dropStart start items = some rest ↔ items = start ++ rest := by
  fun_induction dropStart start items with
  | case1 items => simp [eq_comm]
  | case2 head start => simp
  | case3 head start items ih => simpa using ih
  | case4 head start other items hne => simp [Ne.symm hne]

theorem dropEnd_eq_some_iff {α : Type} [DecidableEq α] {tail text front : List α} :
    dropEnd tail text = some front ↔ text = front ++ tail := by
  simp only [dropEnd, Option.map_eq_some_iff, dropStart_eq_some_iff]
  constructor
  · rintro ⟨rest, hrest, rfl⟩
    rw [← List.reverse_reverse text, hrest, List.reverse_append, List.reverse_reverse]
  · rintro rfl
    exact ⟨front.reverse, List.reverse_append, List.reverse_reverse front⟩

/-- Stable sorting by a list of names: the first difference decides. -/
def sortByNames {α : Type} (key : α → List String) (items : List α) : List α :=
  ((items.map (fun item => (key item, item))).mergeSort
    (fun left right => (compare left.1 right.1).isLE)).map Prod.snd

/-- Stable sorting by one name. -/
def sortByName {α : Type} (key : α → String) (items : List α) : List α :=
  sortByNames (fun item => [key item]) items

/-- Adds an item to those kept, unless its key is among those seen. -/
def keepNew {α κ : Type} [BEq κ] [Hashable κ] (key : α → κ)
    (state : Std.HashSet κ × Array α) (item : α) : Std.HashSet κ × Array α :=
  let found := key item
  if state.1.contains found then state
  else (state.1.insert found, state.2.push item)

/-- The items whose key has not occurred before, in order. -/
def distinctBy {α κ : Type} [BEq κ] [Hashable κ] (key : α → κ) (items : List α) : List α :=
  (items.foldl (keepNew key) (∅, #[])).2.toList

/-- The items whose key is new, where some keys have been seen. -/
def distinctAfter {α κ : Type} [DecidableEq κ] (key : α → κ) :
    (seen : List κ) → List α → List α
  | _, [] => []
  | seen, item :: rest =>
      if key item ∈ seen then distinctAfter key seen rest
      else item :: distinctAfter key (key item :: seen) rest

theorem foldl_keepNew {α κ : Type} [DecidableEq κ] [BEq κ] [LawfulBEq κ] [Hashable κ]
    (key : α → κ) (items : List α) (state : Std.HashSet κ × Array α) (seen : List κ)
    (h : ∀ k, k ∈ state.1 ↔ k ∈ seen) :
    (items.foldl (keepNew key) state).2.toList
      = state.2.toList ++ distinctAfter key seen items := by
  induction items generalizing state seen with
  | nil => simp [distinctAfter]
  | cons item rest ih =>
      by_cases hitem : key item ∈ seen
      · have hstate : keepNew key state item = state := by
          simp [keepNew, (h (key item)).mpr hitem]
        rw [List.foldl_cons, hstate, ih state seen h, distinctAfter, if_pos hitem]
      · have hstate : keepNew key state item
            = (state.1.insert (key item), state.2.push item) := by
          simp [keepNew, mt (h (key item)).mp hitem]
        rw [List.foldl_cons, hstate, ih _ (key item :: seen) (by
          intro k
          simp only [Std.HashSet.mem_insert, beq_iff_eq, h k, List.mem_cons]
          rw [eq_comm]), distinctAfter, if_neg hitem]
        simp

/-- A table of the keys seen gives what remembering them in a list gives. -/
theorem distinctBy_eq_distinctAfter {α κ : Type} [DecidableEq κ] [BEq κ] [LawfulBEq κ]
    [Hashable κ] (key : α → κ) (items : List α) :
    distinctBy key items = distinctAfter key [] items := by
  simpa [distinctBy] using foldl_keepNew key items (∅, #[]) [] (by simp)

example : qualifiedName "a/b/C" = "a.b.C" := by decide +kernel
example : packageName "a.b.C" = "a.b" ∧ packageName "C" = "" := by decide
example : outerByDollar "a/B$C$1" = some "a/B$C" := by decide

end Linkage
