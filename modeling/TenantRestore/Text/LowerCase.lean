/-
# Lower case

Every letter is replaced by its lower case form.  Two letters need more than a table: the
capital I with a dot becomes an i followed by the dot as a combining mark, and the capital
sigma has a form of its own at the end of a word.
-/
import TenantRestore.Text.CaseTables

namespace TenantRestore

/-- Whether a character lies in one of some ranges. -/
def inRanges (ranges : List (Nat × Nat)) (c : Char) : Bool :=
  ranges.any fun r => r.1 ≤ c.toNat && c.toNat ≤ r.2

/-- Whether a character belongs to a run. -/
def CaseRun.contains (r : CaseRun) (c : Char) : Bool :=
  r.first ≤ c.toNat && c.toNat ≤ r.last && (c.toNat - r.first) % r.step == 0

/-- The lower case form of a character on its own. -/
def lowerChar (c : Char) : Char :=
  match caseRuns.find? fun r => r.contains c with
  | some r => Char.ofNat ((c.toNat : Int) + r.distance).toNat
  | none => c

/-- Whether the first character that is not looked through has a case. -/
def startsCased (cs : List Char) : Bool :=
  match cs.dropWhile (inRanges caseIgnorable) with
  | [] => false
  | c :: _ => inRanges cased c

/-- The lower case form of a character; `before` is what stands in front of it, from its
neighbour outwards, and `after` what follows. -/
def lowerAt (before : List Char) (c : Char) (after : List Char) : List Char :=
  if c = '\u0130' then ['i', '\u0307']
  else if c = '\u03a3' then
    [if startsCased before && !startsCased after then '\u03c2' else '\u03c3']
  else [lowerChar c]

/-- The lower case form of the rest of a text; `before` is what has been read, backwards. -/
def lowerFrom (before : List Char) : List Char → List Char
  | [] => []
  | c :: after => lowerAt before c after ++ lowerFrom (c :: before) after

/-- The lower case form of a text. -/
def toLowerCase (s : String) : String := String.ofList (lowerFrom [] s.toList)

end TenantRestore
