/-
Prefix codes over bits.  A code is given by the length of every symbol's word:
words of one length are consecutive numbers in the order of the symbols, and
shorter words come first.
-/

namespace Linkage.Archive

/-- The bits that are left after some were read. -/
abbrev Rest (bits : List Bool) := { rest : List Bool // rest.length ≤ bits.length }

/-- The bits that are left after at least one was read. -/
abbrev Shorter (bits : List Bool) := { rest : List Bool // rest.length < bits.length }

inductive BitError where
  /-- There are too few of them. -/
  | incomplete
  /-- They stand for nothing. -/
  | corrupt
  deriving DecidableEq, Repr

/-- A prefix code: the symbols sit at the ends of their words. -/
inductive CodeTree where
  | empty
  | leaf (symbol : Nat)
  | node (zero one : CodeTree)
  deriving DecidableEq, Repr

namespace CodeTree

def zero : CodeTree → CodeTree
  | node zero _ => zero
  | _ => empty

def one : CodeTree → CodeTree
  | node _ one => one
  | _ => empty

/-- Puts a symbol at the end of a word. -/
def insert (symbol : Nat) : List Bool → CodeTree → CodeTree
  | [], _ => leaf symbol
  | true :: word, tree => node tree.zero (insert symbol word tree.one)
  | false :: word, tree => node (insert symbol word tree.zero) tree.one

/-- The bits of a number, most significant first. -/
def word : (length value : Nat) → List Bool
  | 0, _ => []
  | length + 1, value => value.testBit length :: word length value

def maxLength : Nat := 15

/-- The used symbols with the lengths of their words, in the order of the words. -/
def used (lengths : List Nat) : List (Nat × Nat) :=
  (List.range' 1 maxLength).flatMap (fun length =>
    lengths.zipIdx.filter (fun entry => entry.1 = length))

/-- The number of words of greatest length that start with a word. -/
def share (length : Nat) : Nat := 1 <<< (maxLength - length)

/-- Gives a symbol the next free word of its length.  The position counts the
words of greatest length that are taken. -/
def assign (state : Nat × CodeTree) (entry : Nat × Nat) : Nat × CodeTree :=
  let unit := share entry.1
  (state.1 + unit, state.2.insert entry.2 (word entry.1 (state.1 / unit)))

/-- The code with the given lengths of words; a length of zero is an unused symbol. -/
def ofLengths (lengths : List Nat) : CodeTree :=
  ((used lengths).foldl assign (0, empty)).2

/-- How many words of greatest length the words of a code take. -/
def taken (lengths : List Nat) : Nat :=
  (used lengths).foldl (fun total entry => total + share entry.1) 0

/-- Whether every sequence of bits starts with a word, and with no second one. -/
def fillsUp (lengths : List Nat) : Bool := taken lengths = share 0

/-- Whether a code has at most one word, and that one is a single bit. -/
def isMeagre (lengths : List Nat) : Bool :=
  match used lengths with
  | [] => true
  | [entry] => entry.1 = 1
  | _ => false

/-- A code of symbols or distances: it fills up, or it is meagre. -/
def ofWritten (lengths : List Nat) : Except BitError CodeTree :=
  if fillsUp lengths || isMeagre lengths then .ok (ofLengths lengths)
  else .error .corrupt

/-- A code of lengths, which fills up.  Without any words each bit is a zero length. -/
def ofWrittenLengths (lengths : List Nat) : Except BitError CodeTree :=
  if (used lengths).isEmpty then .ok (node (leaf 0) (leaf 0))
  else if fillsUp lengths then .ok (ofLengths lengths)
  else .error .corrupt

def follow : CodeTree → (bits : List Bool) → Except BitError (Nat × Rest bits)
  | empty, _ => .error .corrupt
  | leaf symbol, bits => .ok (symbol, ⟨bits, Nat.le_refl _⟩)
  | node _ _, [] => .error .incomplete
  | node zero one, bit :: bits =>
      (if bit then one.follow bits else zero.follow bits).map
        (fun (symbol, rest) => (symbol, ⟨rest.val, Nat.le_succ_of_le rest.property⟩))

/-- Reads one symbol, which takes at least one bit. -/
def read (tree : CodeTree) : (bits : List Bool) → Except BitError (Nat × Shorter bits)
  | [] => .error .incomplete
  | bit :: bits =>
      ((if bit then tree.one else tree.zero).follow bits).map
        (fun (symbol, rest) => (symbol, ⟨rest.val, Nat.lt_succ_of_le rest.property⟩))

end CodeTree

end Linkage.Archive
