import Linkage.Extraction.Entry
import Std.Data.HashMap
/-
Folding of synthetic accessors.  A static call to a synthetic member that uses a
field stands for a use of that field by the caller.
-/

namespace Linkage

/-- Whether a reference calls a given member. -/
def callsMember (call : Reference) : MemberHandle → Bool
  | .method typeName name descriptor =>
      call.typeName = typeName && call.memberName = some name
        && call.signature = some descriptor
  | .field typeName name => call.typeName = typeName && call.memberName = some name
  | .type _ => false

/-- The members that a reference calls. -/
def calledMembers (call : Reference) : List MemberHandle :=
  match call.memberName, call.signature with
  | none, _ => []
  | some name, none => [.field call.typeName name]
  | some name, some descriptor =>
      [.field call.typeName name, .method call.typeName name descriptor]

/-- The uses of fields by synthetic members. -/
def syntheticAccesses (entries : List Entry) : List Entry :=
  entries.filter (fun entry => entry.trail = .syntheticAccess)

def staticCalls (entries : List Entry) : List Entry :=
  entries.filter (fun entry => entry.trail = .staticCall)

/-- The members that use fields, and the static calls by the members that they call, in
order. -/
structure AccessorTable where
  accessors : Std.HashSet MemberHandle
  calls : Std.HashMap MemberHandle (List Entry)

namespace AccessorTable

/-- Puts a call in front of the calls of every member that it calls. -/
def addCall (call : Entry) (calls : Std.HashMap MemberHandle (List Entry)) :
    Std.HashMap MemberHandle (List Entry) :=
  (calledMembers call.reference).foldl (fun calls member =>
    calls.insert member (call :: calls.getD member [])) calls

def ofEntries (entries : List Entry) : AccessorTable where
  accessors := (syntheticAccesses entries).foldl
    (fun accessors access => accessors.insert access.reference.source) ∅
  calls := (staticCalls entries).foldr addCall ∅

/-- The calls that reach the member making a use of a field. -/
def callsReaching (table : AccessorTable) (access : Entry) : List Entry :=
  table.calls.getD access.reference.source []

/-- Whether folding replaces an entry: an accessor call, or the use of a field by an
accessor that is called. -/
def folds (table : AccessorTable) (entry : Entry) : Bool :=
  match entry.trail with
  | .plain => false
  | .syntheticAccess => !(table.callsReaching entry).isEmpty
  | .staticCall => (calledMembers entry.reference).any table.accessors.contains

end AccessorTable

/-- The direct use of a field that replaces an accessor call. -/
def directUse (access call : Entry) : Reference :=
  (Reference.ofField call.reference.source access.reference.typeName
    (access.reference.memberName.getD "") access.reference.kind).atLine call.line

/-- The direct uses that accessor calls stand for. -/
def directUses (options : ExtractOptions) (table : AccessorTable) (entries : List Entry) :
    List Entry :=
  (syntheticAccesses entries).flatMap (fun access =>
    (table.callsReaching access).map (fun call =>
      options.record call.scope { reference := directUse access call }))

/-- The entries after folding. -/
def foldAccessors (options : ExtractOptions) (entries : List Entry) : List Entry :=
  if (syntheticAccesses entries).isEmpty then entries
  else
    let table := AccessorTable.ofEntries entries
    entries.map (fun entry => if table.folds entry then entry.hidden else entry)
      ++ directUses options table entries

theorem mem_calledMembers {call : Reference} {member : MemberHandle} :
    member ∈ calledMembers call ↔ callsMember call member = true := by
  unfold calledMembers
  cases hname : call.memberName with
  | none => cases member <;> simp [callsMember, hname]
  | some called =>
      cases hsignature : call.signature with
      | none =>
          cases member <;> simp [callsMember, hname, hsignature]
          rw [eq_comm, @eq_comm String _ called]
      | some descriptor =>
          cases member <;> simp [callsMember, hname, hsignature]
          · rw [eq_comm, @eq_comm String _ called]
          · rw [eq_comm, @eq_comm String _ called, @eq_comm String _ descriptor, and_assoc]

theorem calledMembers_nodup (call : Reference) : (calledMembers call).Nodup := by
  unfold calledMembers
  split <;> simp

namespace AccessorTable

theorem getD_addCall (call : Entry) (calls : Std.HashMap MemberHandle (List Entry))
    (member : MemberHandle) :
    (addCall call calls).getD member [] =
      (if callsMember call.reference member then [call] else []) ++ calls.getD member [] := by
  have hfold : ∀ (members : List MemberHandle), members.Nodup →
      ∀ calls : Std.HashMap MemberHandle (List Entry),
        (members.foldl (fun calls member =>
            calls.insert member (call :: calls.getD member [])) calls).getD member []
          = (if member ∈ members then [call] else []) ++ calls.getD member [] := by
    intro members hnodup
    induction members with
    | nil => simp
    | cons head rest ih =>
        intro calls
        rw [List.nodup_cons] at hnodup
        rw [List.foldl_cons, ih hnodup.2, Std.HashMap.getD_insert]
        by_cases hhead : head = member
        · subst hhead
          simp [hnodup.1]
        · have hne : member ≠ head := fun h => hhead h.symm
          simp [hhead, hne]
  rw [addCall, hfold _ (calledMembers_nodup call.reference)]
  simp only [mem_calledMembers]

/-- The table finds the calls that a search through all static calls finds. -/
theorem callsReaching_ofEntries (entries : List Entry) (access : Entry) :
    (ofEntries entries).callsReaching access =
      (staticCalls entries).filter
        (fun call => callsMember call.reference access.reference.source) := by
  unfold callsReaching ofEntries
  simp only
  induction staticCalls entries with
  | nil => simp
  | cons call rest ih =>
      rw [List.foldr_cons, getD_addCall, ih, List.filter_cons]
      split <;> simp

/-- The table knows the members that make a use of a field. -/
theorem mem_accessors_ofEntries (entries : List Entry) (member : MemberHandle) :
    member ∈ (ofEntries entries).accessors ↔
      ∃ access ∈ syntheticAccesses entries, access.reference.source = member := by
  have hfold : ∀ (accesses : List Entry) (accessors : Std.HashSet MemberHandle),
      member ∈ accesses.foldl
          (fun accessors access => accessors.insert access.reference.source) accessors ↔
        (∃ access ∈ accesses, access.reference.source = member) ∨ member ∈ accessors := by
    intro accesses
    induction accesses with
    | nil => simp
    | cons access rest ih =>
        intro accessors
        rw [List.foldl_cons, ih]
        simp only [Std.HashSet.mem_insert, beq_iff_eq, List.mem_cons, exists_eq_or_imp]
        constructor
        · rintro (h | h | h)
          · exact .inl (.inr h)
          · exact .inl (.inl h)
          · exact .inr h
        · rintro ((h | h) | h)
          · exact .inr (.inl h)
          · exact .inl h
          · exact .inr (.inr h)
  rw [ofEntries, hfold]
  simp

end AccessorTable

end Linkage
