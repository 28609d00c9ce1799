/-!
# Qualified names

An Ada entity in a library package is written with the package's name and a point before its own.
-/

namespace AdaStubs.Ada

/-- What stands before the last point of a name. -/
def qualifier? (name : String) : Option String :=
  match name.toList.reverse.dropWhile (· != '.') with
  | [] => none
  | _ :: front => some (String.ofList front.reverse)

/-- The package a runtime entity is declared in; a name without a point is its own package. -/
def packageOf (entity : String) : String := (qualifier? entity).getD entity

/-- `entity` qualified by the package of `name`, if that has one. -/
def sibling (name entity : String) : String :=
  match qualifier? name with
  | some package => s!"{package}.{entity}"
  | none => entity

end AdaStubs.Ada
