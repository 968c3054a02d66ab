import Linkage.ClassFile.LoadError
/-
Lookup of constants by index.
-/

namespace Linkage.ClassFile

/-- Owner, name and descriptor of a field or method. -/
structure MemberRef where
  owner : String
  name : String
  descriptor : String
  deriving DecidableEq, Repr

namespace Pool

def textAt (pool : Pool) (index : Nat) : Loaded String :=
  match pool[index]? with
  | none => fault (.missing .text)
  | some (.text value) => .ok value
  | some _ => fault (.unexpected .text)

def classAt (pool : Pool) (index : Nat) : Loaded String :=
  match pool[index]? with
  | none => fault (.missing .classRef)
  | some (.classRef name) => textAt pool name
  | some _ => fault (.unexpected .classRef)

def nameAndTypeAt (pool : Pool) (index : Nat) : Loaded (String × String) :=
  match pool[index]? with
  | none => fault (.missing .nameAndType)
  | some (.nameAndType name descriptor) => do
      let name ← within .memberName (textAt pool name)
      let descriptor ← within .memberDescriptor (textAt pool descriptor)
      return (name, descriptor)
  | some _ => fault (.unexpected .nameAndType)

/-- A member with the class and the name and type at two indices. -/
def memberOf (pool : Pool) (owner nameAndType : Nat) : Loaded MemberRef := do
  let owner ← within .memberOwner (classAt pool owner)
  let (name, descriptor) ← nameAndTypeAt pool nameAndType
  return { owner, name, descriptor }

def memberAt (pool : Pool) (index : Nat) : Loaded MemberRef :=
  match pool[index]? with
  | none => fault (.missing .member)
  | some (.fieldRef owner nameAndType) => memberOf pool owner nameAndType
  | some (.methodRef owner nameAndType) => memberOf pool owner nameAndType
  | some (.interfaceMethodRef owner nameAndType) => memberOf pool owner nameAndType
  | some _ => fault (.unexpected .member)

/-- Name and descriptor of the dynamic call at an index. -/
def dynamicAt (pool : Pool) (index : Nat) : Loaded (String × String) :=
  match pool[index]? with
  | none => fault (.missing .dynamicCall)
  | some (.invokeDynamic _ nameAndType) => nameAndTypeAt pool nameAndType
  | some _ => fault (.unexpected .dynamicCall)

end Pool

end Linkage.ClassFile
