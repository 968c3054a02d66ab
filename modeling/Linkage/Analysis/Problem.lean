import Linkage.Reference
/-
Problems: what detectors report about a reference, and the rules that the
reports belong to.
-/

namespace Linkage

/-- The rule that a detector checks. -/
structure Rule where
  id : String
  name : String
  description : String
  deriving DecidableEq, Repr

/-- The member that a problem is reported at. -/
structure Location where
  name : String
  kind : String
  deriving DecidableEq, Repr

/-- A violation of a rule. -/
structure Problem where
  ruleId : String
  message : String
  location : Location
  deriving DecidableEq, Repr

/-- A member as the location of a problem: members follow their type after a dot. -/
def Location.ofMember : MemberHandle → Location
  | .type name => ⟨name, "type"⟩
  | .field typeName name => ⟨typeName ++ "." ++ name, "member"⟩
  | .method typeName name descriptor =>
      ⟨typeName ++ "." ++ name ++ descriptor, "function"⟩

/-- A message with the source line, where it is known. -/
def messageAtLine (message : String) (line : Int) : String :=
  if 0 ≤ line then message ++ " (line " ++ toString line ++ ")" else message

/-- A violation of a rule by a reference, reported at the reference's source. -/
def Problem.ofReference (rule : Rule) (message : String) (reference : Reference) :
    Problem where
  ruleId := rule.id
  message := messageAtLine message reference.line
  location := Location.ofMember reference.source

example : Location.ofMember (.method "a.B" "run" "(I)V") =
    ⟨"a.B.run(I)V", "function"⟩ := by decide

end Linkage
