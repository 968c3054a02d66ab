import Linkage.Decimal
/-
Constants of a class file's pool, and their text in messages.
-/

namespace Linkage.ClassFile

/-- An entry of the constant pool.  Other entries are named by their index. -/
inductive Constant where
  /-- The unused first slot, and the slot after a wide constant. -/
  | empty
  | text (value : String)
  | integer (value : Int)
  /-- A single-precision number, by its bits. -/
  | float (bits : Nat)
  | long (value : Int)
  /-- A double-precision number, by its bits. -/
  | double (bits : Nat)
  | classRef (name : Nat)
  | stringRef (value : Nat)
  | fieldRef (owner nameAndType : Nat)
  | methodRef (owner nameAndType : Nat)
  | interfaceMethodRef (owner nameAndType : Nat)
  | nameAndType (name descriptor : Nat)
  | methodHandle (kind target : Nat)
  | methodType (descriptor : Nat)
  | dynamic (bootstrap nameAndType : Nat)
  | invokeDynamic (bootstrap nameAndType : Nat)
  | moduleRef (name : Nat)
  | packageRef (name : Nat)
  deriving DecidableEq, Repr

/-- The constants of a class file, by index. -/
abbrev Pool := Array Constant

namespace Constant

/-- Whether the constant takes two slots. -/
def isWide : Constant → Bool
  | long _ => true
  | double _ => true
  | _ => false

/-- A named value between braces. -/
def record (name : String) (fields : List (String × String)) : String :=
  name ++ " \x7b " ++ String.intercalate ", "
    (fields.map (fun field => field.1 ++ ": " ++ field.2)) ++ " \x7d"

def describe : Constant → String
  | empty => "Empty"
  | text value => record "Utf8" [("value", "\"" ++ value ++ "\"")]
  | integer value => record "Integer" [("value", toString value)]
  | float bits => record "Float" [("value", Decimal.text .single bits)]
  | long value => record "Long" [("value", toString value)]
  | double bits => record "Double" [("value", Decimal.text .double bits)]
  | classRef name => record "Class" [("name_index", toString name)]
  | stringRef value => record "String" [("string_index", toString value)]
  | fieldRef owner pair =>
      record "Fieldref" [("class_index", toString owner),
        ("name_and_type_index", toString pair)]
  | methodRef owner pair =>
      record "Methodref" [("class_index", toString owner),
        ("name_and_type_index", toString pair)]
  | interfaceMethodRef owner pair =>
      record "InterfaceMethodref" [("class_index", toString owner),
        ("name_and_type_index", toString pair)]
  | nameAndType name descriptor =>
      record "NameAndType" [("name_index", toString name),
        ("descriptor_index", toString descriptor)]
  | methodHandle kind target =>
      record "MethodHandle" [("reference_kind", toString kind),
        ("reference_index", toString target)]
  | methodType descriptor =>
      record "MethodType" [("descriptor_index", toString descriptor)]
  | dynamic bootstrap pair =>
      record "Dynamic" [("bootstrap_method_attr_index", toString bootstrap),
        ("name_and_type_index", toString pair)]
  | invokeDynamic bootstrap pair =>
      record "InvokeDynamic" [("bootstrap_method_attr_index", toString bootstrap),
        ("name_and_type_index", toString pair)]
  | moduleRef name => record "Module" [("name_index", toString name)]
  | packageRef name => record "Package" [("name_index", toString name)]

end Constant

end Linkage.ClassFile
