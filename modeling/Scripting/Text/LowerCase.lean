import Scripting.Text.CaseData
import Scripting.Text.Ranges

/-!
# Lower case

The full lower-case mapping of a text. Two letters depend on more than a table: `İ` becomes two
characters, and `Σ` becomes the final form `ς` at the end of a word, that is when a cased letter
stands before it and none after it, looking through case-ignorable characters on both sides.
-/

namespace Scripting.Text

/-- Whether a character has the property Cased. -/
def isCased (c : Char) : Bool := inRanges casedRanges c

/-- Whether a character has the property Case_Ignorable. -/
def isCaseIgnorable (c : Char) : Bool := inRanges caseIgnorableRanges c

/-- Whether a run maps the character. -/
def CaseRun.covers (run : CaseRun) (c : Char) : Bool :=
  run.first ≤ c.toNat && c.toNat ≤ run.last && (c.toNat - run.first) % run.step == 0

/-- The simple lower-case form of one character. -/
def lowerChar (c : Char) : Char :=
  if c.toNat < 0x80 then
    c.toLower
  else
    match lowerRuns.find? (·.covers c) with
    | some run => Char.ofNat (c.toNat + run.shift).toNat
    | none => c

/-- Whether the first character that is not case-ignorable is cased. -/
def startsCased (cs : List Char) : Bool :=
  match cs.dropWhile isCaseIgnorable with
  | c :: _ => isCased c
  | [] => false

/-- The lower-case form of the characters `cs`, where `before` are the characters that precede them,
nearest first. -/
def lowerAfter (before : List Char) : List Char → List Char
  | [] => []
  | c :: rest =>
    let lower :=
      if c = 'Σ' then
        if startsCased before && !startsCased rest then ['ς'] else ['σ']
      else if c = 'İ' then
        ['i', '\u0307']
      else
        [lowerChar c]
    lower ++ lowerAfter (c :: before) rest

/-- The lower-case form of a text. -/
def toLowerCase (text : String) : String :=
  String.ofList (lowerAfter [] text.toList)

end Scripting.Text
