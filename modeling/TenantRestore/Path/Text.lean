/-
# Reading the text of a path

The text of a path is its parts with a separator between them, so reading it is splitting it
at the separators and looking up the names of the service and of the category.
-/
import TenantRestore.Path.Basic

namespace TenantRestore

/-- Put a character in front of the first of some parts. -/
def consFirst (c : Char) : List (List Char) → List (List Char)
  | [] => [[c]]
  | w :: ws => (c :: w) :: ws

/-- The parts of a text between the occurrences of a separator; one more than these. -/
def partsAt (sep : Char) : List Char → List (List Char)
  | [] => [[]]
  | c :: cs => if c = sep then [] :: partsAt sep cs else consFirst c (partsAt sep cs)

/-- The parts of a text between its separators. -/
def splitAtChar (sep : Char) (text : String) : List String :=
  (partsAt sep text.toList).map String.ofList

/-- Read a path.  The first thing that is wrong, from left to right, is the error. -/
def BackupPath.parse (text : String) : Except PathError BackupPath :=
  match splitAtChar pathSeparator text with
  | tenant :: service :: owner :: category :: elements =>
    match Service.ofName? service with
    | none => .error (.unknownService service)
    | some s =>
      match Category.ofName? category with
      | none => .error (.unknownCategory category)
      | some c => BackupPath.make tenant s owner c elements
  | _ => .error (.tooFewElements text)

end TenantRestore
