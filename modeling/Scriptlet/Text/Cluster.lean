-- Clusters of characters, by the rules of Unicode for extended grapheme
-- clusters. A character either continues the cluster before it or begins one.
import Scriptlet.Text.ClusterRole

namespace Scriptlet.Text

namespace ClusterRole

/-! ## Two neighbours -/

/-- Whether a character stands alone, whatever is next to it. -/
def isSeparate : ClusterRole → Bool
  | carriageReturn | lineFeed | control => true
  | _ => false

/-- Whether a character continues any cluster. -/
def isAttached : ClusterRole → Bool
  | extender | joiner | spacingMark => true
  | _ => false

/-- Whether two parts of Hangul belong to one syllable. -/
def inSyllable : ClusterRole → ClusterRole → Bool
  | initial, initial | initial, medial | initial, openSyllable | initial, closedSyllable => true
  | medial, medial | medial, final | openSyllable, medial | openSyllable, final => true
  | closedSyllable, final | final, final => true
  | _, _ => false

end ClusterRole

/-! ## A character and the cluster before it -/

/-- Whether a regional indicator would be the second of its pair. -/
def endsInHalfFlag (before : List Char) : Bool :=
  (before.takeWhile (role · = .regional)).length % 2 == 1

/-- Whether a pictograph would be joined to one. -/
def endsInJoinedPictograph : List Char → Bool
  | [] => false
  | c :: earlier =>
    role c = .joiner && (earlier.find? (role · ≠ .extender)).map role = some .pictograph

/-- Whether a consonant would be linked to one. -/
def endsInLinkedConsonant (before : List Char) : Bool :=
  (before.takeWhile isConjunctFiller).any isLinker
    && (before.find? (!isConjunctFiller ·)).map role = some .consonant

/-- Whether `c` continues the cluster `before`, which is given last character
first. -/
def continues (before : List Char) (c : Char) : Bool :=
  match before with
  | [] => false
  | b :: _ =>
    let p := role b
    let q := role c
    if p = .carriageReturn ∧ q = .lineFeed then true
    else if p.isSeparate || q.isSeparate then false
    else if q.isAttached || p = .prepended || p.inSyllable q then true
    else
      match q with
      | .regional => endsInHalfFlag before
      | .pictograph => endsInJoinedPictograph before
      | .consonant => endsInLinkedConsonant before
      | _ => false

/-! ## All clusters -/

/-- The clusters of a text with one more character. The last one comes first,
and so does its last character. -/
def addChar (cs : List (List Char)) (c : Char) : List (List Char) :=
  match cs with
  | [] => [[c]]
  | cluster :: earlier =>
    if continues cluster c then (c :: cluster) :: earlier else [c] :: cluster :: earlier

/-- The clusters of a text. -/
def clusters (text : List Char) : List (List Char) :=
  ((text.foldl addChar []).map List.reverse).reverse

end Scriptlet.Text
