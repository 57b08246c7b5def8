import Scripting.Text.ClusterData
import Scripting.Text.Ranges

/-!
# Clusters

A text falls into clusters, each of them what a reader takes for one character: a letter with its
marks, a syllable, a conjunct of consonants, a flag, a picture joined from others. These are the
extended grapheme clusters of the Unicode standard. Whether a character still belongs to a cluster
depends on the cluster alone, so a text is cut from left to right, and nothing of it is lost:
`flatten_clusters`.
-/

namespace Scripting.Text

/-- The part that a character plays in a cluster. -/
inductive ClusterRole where
  | plain
  | carriageReturn
  | lineFeed
  | control
  | extender
  | linker
  | nonJoiner
  | joiner
  | spacing
  | opener
  | regional
  | leading
  | vowel
  | trailing
  | openSyllable
  | closedSyllable
  | pictograph
  | consonant
  deriving DecidableEq

namespace ClusterRole

/-- The roles that tables give, with their tables. -/
def tables : List (ClusterRole × Array (Nat × Nat)) :=
  [(control, controlRanges), (extender, extenderRanges), (linker, linkerRanges),
    (spacing, spacingRanges), (opener, openerRanges), (regional, regionalRanges),
    (leading, leadingRanges), (vowel, vowelRanges), (trailing, trailingRanges),
    (pictograph, pictographRanges), (consonant, consonantRanges)]

/-- The role of a whole Hangul syllable: every twenty-eighth of them has no end. -/
def ofSyllable (index : Nat) : ClusterRole :=
  if index % 28 = 0 then openSyllable else closedSyllable

/-- The role of a character. -/
def ofChar (c : Char) : ClusterRole :=
  if c = '\r' then carriageReturn
  else if c = '\n' then lineFeed
  else if c < ' ' then control
  else if c ≤ '~' then plain
  else if c = '\u200c' then nonJoiner
  else if c = '\u200d' then joiner
  else if '가' ≤ c ∧ c ≤ '힣' then ofSyllable (c.toNat - '가'.toNat)
  else
    match tables.find? fun (_, ranges) => inRanges ranges c with
    | some (role, _) => role
    | none => plain

/-- Whether a character is a cluster of its own. The two characters of a line ending stay together
all the same. -/
def standsAlone : ClusterRole → Bool
  | carriageReturn | lineFeed | control => true
  | _ => false

/-- Whether a character belongs to what is before it, whatever that is. -/
def attaches : ClusterRole → Bool
  | extender | linker | nonJoiner | joiner | spacing => true
  | _ => false

/-- Whether a character extends what is before it without taking room. -/
def extendsSilently : ClusterRole → Bool
  | extender | linker | nonJoiner => true
  | _ => false

/-- Whether a character can stand between the consonants of a conjunct. -/
def staysInConjunct : ClusterRole → Bool
  | extender | linker | joiner => true
  | _ => false

/-- Whether a letter goes on with the syllable of the letter before it. -/
def goesOnSyllable : ClusterRole → ClusterRole → Bool
  | leading, next => next = leading || next = vowel || next = openSyllable || next = closedSyllable
  | openSyllable, next | vowel, next => next = vowel || next = trailing
  | closedSyllable, next | trailing, next => next = trailing
  | _, _ => false

end ClusterRole

open ClusterRole

/-- Whether a cluster, its last character first, asks for a consonant: after its last consonant come
marks only, and one of them links. -/
def asksConsonant (cluster : List Char) : Bool :=
  (cluster.takeWhile (ofChar · |>.staysInConjunct)).any (ofChar · = linker) &&
    (cluster.dropWhile (ofChar · |>.staysInConjunct)).head?.any (ofChar · = consonant)

/-- Whether a cluster, its last character first, asks for a picture: it ends in a picture with its
marks and a joiner. -/
def asksPictograph (cluster : List Char) : Bool :=
  match cluster with
  | [] => false
  | last :: earlier =>
    ofChar last = joiner &&
      (earlier.dropWhile (ofChar · |>.extendsSilently)).head?.any (ofChar · = pictograph)

/-- Whether a cluster, its last character first, asks for a flag's second letter. -/
def asksRegional (cluster : List Char) : Bool :=
  (cluster.takeWhile (ofChar · = regional)).length % 2 = 1

/-- Whether a character belongs to the cluster before it, which is given with its last character
first. -/
def joins (cluster : List Char) (c : Char) : Bool :=
  match cluster with
  | [] => false
  | last :: _ =>
    let before := ofChar last
    let next := ofChar c
    if before.standsAlone || next.standsAlone then
      before = carriageReturn && next = lineFeed
    else if next.attaches || before = opener || before.goesOnSyllable next then
      true
    else
      match next with
      | consonant => asksConsonant cluster
      | pictograph => asksPictograph cluster
      | regional => asksRegional cluster
      | _ => false

/-- The clusters of a text whose first cluster has begun with the characters `begun`, the last of
them first. -/
def clustersFrom (begun : List Char) : List Char → List (List Char)
  | [] => [begun.reverse]
  | c :: rest =>
    if joins begun c then
      clustersFrom (c :: begun) rest
    else
      begun.reverse :: clustersFrom [c] rest

/-- The clusters of a text. -/
def clusters : List Char → List (List Char)
  | [] => []
  | c :: rest => clustersFrom [c] rest

theorem flatten_clustersFrom (begun cs : List Char) :
    (clustersFrom begun cs).flatten = begun.reverse ++ cs := by
  fun_induction clustersFrom begun cs with
  | case1 begun => simp
  | case2 begun c rest h ih => simp [ih]
  | case3 begun c rest h ih => simp [ih]

/-- Clusters lose nothing of a text. -/
@[simp] theorem flatten_clusters (cs : List Char) : (clusters cs).flatten = cs := by
  cases cs with
  | nil => rfl
  | cons c rest => simp [clusters, flatten_clustersFrom]

end Scripting.Text
