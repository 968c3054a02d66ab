import Std.Data.HashMap
/-
Tables.  A table of a function holds its values at the arguments that have been
added, so that each is worked out once; reading a table gives what the function
gives at every argument.  An index holds the first item of each key.
-/

namespace Linkage

/-- Values of a function, kept by argument. -/
structure Table {α β : Type} [DecidableEq α] [Hashable α] (f : α → β) where
  entries : Std.HashMap α β := ∅
  right : ∀ (a : α) (b : β), entries[a]? = some b → b = f a := by simp

namespace Table

variable {α β : Type} [DecidableEq α] [Hashable α] {f : α → β}

/-- The table with the value at a further argument. -/
def add (table : Table f) (a : α) : Table f :=
  if a ∈ table.entries then table
  else
    { entries := table.entries.insert a (f a)
      right := by
        intro other b hfound
        rw [Std.HashMap.getElem?_insert] at hfound
        split at hfound
        · rename_i heq
          simp only [beq_iff_eq] at heq
          simp only [Option.some.injEq] at hfound
          rw [← hfound, heq]
        · exact table.right other b hfound }

/-- The table of the values at listed arguments. -/
def ofKeys (f : α → β) (keys : List α) : Table f :=
  keys.foldl add {}

/-- The value at an argument, worked out if the table does not hold it. -/
def get (table : Table f) (a : α) : β :=
  match table.entries[a]? with
  | some b => b
  | none => f a

@[simp] theorem get_eq (table : Table f) (a : α) : table.get a = f a := by
  unfold get
  split
  · rename_i b hfound
    exact table.right a b hfound
  · rfl

end Table

/-- The images of items, where equal items share theirs. -/
def mapOnce {α β : Type} [DecidableEq α] [Hashable α] (f : α → β) (items : List α) :
    List β :=
  items.map (Table.ofKeys f items).get

@[simp] theorem mapOnce_eq {α β : Type} [DecidableEq α] [Hashable α] (f : α → β)
    (items : List α) : mapOnce f items = items.map f := by
  simp [mapOnce]

/-- The items by key, of several items with one key the first. -/
def indexBy {α κ : Type} [BEq κ] [Hashable κ] (key : α → κ) (items : List α) :
    Std.HashMap κ α :=
  items.foldl (fun index item => index.insertIfNew (key item) item) ∅

theorem getElem?_foldl_insertIfNew {α κ : Type} [BEq κ] [LawfulBEq κ] [Hashable κ]
    (key : α → κ) (items : List α) (index : Std.HashMap κ α) (k : κ) :
    (items.foldl (fun index item => index.insertIfNew (key item) item) index)[k]?
      = index[k]?.or (items.find? (fun item => key item == k)) := by
  induction items generalizing index with
  | nil => simp
  | cons item rest ih =>
      rw [List.foldl_cons, ih, Std.HashMap.getElem?_insertIfNew, List.find?_cons]
      cases heq : key item == k with
      | true =>
          rw [beq_iff_eq] at heq
          subst heq
          by_cases hmem : key item ∈ index <;> simp [hmem]
      | false => simp

/-- An index finds what a search through the items finds. -/
theorem getElem?_indexBy {α κ : Type} [BEq κ] [LawfulBEq κ] [Hashable κ] (key : α → κ)
    (items : List α) (k : κ) :
    (indexBy key items)[k]? = items.find? (fun item => key item == k) := by
  rw [indexBy, getElem?_foldl_insertIfNew]
  simp

end Linkage
