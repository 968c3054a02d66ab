import Linkage.Extraction.Glossary
import Linkage.Proofs.Destructuring
import Linkage.Proofs.SignatureKinds
/-
Roles in generic signatures.  The classes in arguments and bounds have the kind of the
declaration, the class of a type that of its role, so that the classes of a role can be told
among all that a signature names.
-/

namespace Linkage

namespace Signature

variable {kinds wanted : List ReferenceKind} {declaration role : ReferenceKind}

theorem Tagged.append {left right : List SignatureType} (hleft : Tagged kinds left)
    (hright : Tagged kinds right) : Tagged kinds (left ++ right) :=
  List.forall_mem_append.mpr ⟨hleft, hright⟩

theorem Tagged.flatMap {α : Type} {items : List α} {found : α → List SignatureType}
    (h : ∀ item ∈ items, Tagged kinds (found item)) : Tagged kinds (items.flatMap found) := by
  intro type hmem
  obtain ⟨item, hitem, hmem⟩ := List.mem_flatMap.mp hmem
  exact h item hitem type hmem

theorem Tagged.filter_eq_nil {types : List SignatureType} (h : Tagged kinds types)
    (hapart : ∀ kind ∈ kinds, kind ∉ wanted) :
    types.filter (fun type => type.kind ∈ wanted) = [] := by
  rw [List.filter_eq_nil_iff]
  intro type hmem
  simpa using hapart _ (h type hmem)

/-! The classes that types name. -/

mutual

theorem ClassType.tagged_inArguments (hdeclaration : declaration ∈ kinds) : (type : ClassType) →
    Tagged kinds (type.inArguments declaration)
  | .outer _ _ arguments => arguments.tagged_named hdeclaration
  | .inner enclosing _ arguments =>
      (enclosing.tagged_inArguments hdeclaration).append (arguments.tagged_named hdeclaration)

theorem TypeArguments.tagged_named (hdeclaration : declaration ∈ kinds) :
    (arguments : TypeArguments) → Tagged kinds (arguments.named declaration)
  | .none => List.forall_mem_nil _
  | .cons first others =>
      (first.tagged_named hdeclaration).append (others.tagged_named hdeclaration)

theorem TypeArgument.tagged_named (hdeclaration : declaration ∈ kinds) :
    (argument : TypeArgument) → Tagged kinds (argument.named declaration)
  | .any => List.forall_mem_nil _
  | .bounded _ bound => bound.tagged_named hdeclaration hdeclaration
  | .exact type => type.tagged_named hdeclaration hdeclaration

theorem ReferenceType.tagged_named {role : ReferenceKind} (hdeclaration : declaration ∈ kinds)
    (hrole : role ∈ kinds) : (type : ReferenceType) → Tagged kinds (type.named declaration role)
  | .classType type =>
      (type.tagged_inArguments hdeclaration).append (List.forall_mem_singleton.mpr hrole)
  | .typeVariable _ => List.forall_mem_nil _
  | .array element => element.tagged_named hdeclaration hrole

theorem JavaType.tagged_named {role : ReferenceKind} (hdeclaration : declaration ∈ kinds)
    (hrole : role ∈ kinds) : (type : JavaType) → Tagged kinds (type.named declaration role)
  | .primitive _ => List.forall_mem_nil _
  | .reference type => type.tagged_named hdeclaration hrole

end

theorem TypeParameter.tagged_named (hdeclaration : declaration ∈ kinds)
    (parameter : TypeParameter) : Tagged kinds (parameter.named declaration) :=
  .flatMap fun bound _ => bound.type.tagged_named hdeclaration hdeclaration

/-! The classes of a role. -/

/-- Of the classes that a class type in a role names, its own has the role. -/
theorem ClassType.filter_named (hdeclaration : declaration ∉ wanted) (hrole : role ∈ wanted)
    (type : ClassType) :
    (type.named declaration role).filter (fun type => type.kind ∈ wanted) =
      [⟨String.ofList type.name, role⟩] := by
  have harguments : Tagged [declaration] (type.inArguments declaration) :=
    type.tagged_inArguments (List.mem_singleton_self _)
  rw [ClassType.named, ReferenceType.named, List.filter_append,
    harguments.filter_eq_nil (List.forall_mem_singleton.mpr hdeclaration), List.nil_append,
    List.filter_cons_of_pos (by simpa), List.filter_nil]

/-- The class of a type that is not a type variable. -/
def NamedType.class? : NamedType → Option ClassType
  | .classType type => some type
  | .typeVariable _ => none

/-- A type variable names no class. -/
theorem NamedType.filter_named (hdeclaration : declaration ∉ wanted) (hrole : role ∈ wanted)
    (type : NamedType) :
    (type.named declaration role).filter (fun type => type.kind ∈ wanted) =
      type.class?.toList.map (fun type => ⟨String.ofList type.name, role⟩) := by
  cases type with
  | classType type => exact type.filter_named hdeclaration hrole
  | typeVariable _ => rfl

/-- The text of a signature is read as the classes that it names. -/
theorem readSignature_text (signature : Declared) :
    readSignature signature.owner signature.text = .ok signature.named := by
  rw [readSignature, destructure_eq_map_reverse]
  simp [Functor.map, Except.map]

end Signature

end Linkage
