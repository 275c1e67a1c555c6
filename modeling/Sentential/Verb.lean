import Sentential.Text.Alphanumeric
import Sentential.Text.Lowercase

/-!
# Verbs and negated clauses

Rendering puts *não* before the verb of a clause.  Whether a word is a verb is decided by a
heuristic over endings and common forms; where it recognises none, *não* goes to the end of the
clause.
-/

namespace Sentential

/-- Decides whether a word of a clause is the verb before which *não* belongs. -/
abbrev VerbDetector := Text → Bool

/-- A heuristic for verbs.  A word is compared in lower case and without the characters at its ends
that are neither letters nor digits. -/
structure VerbLexicon where
  /-- The endings of verbs. -/
  suffixes : List Text
  /-- Forms that mark a word as a verb wherever they stand in it. -/
  forms : List Text
deriving DecidableEq

namespace VerbLexicon

/-- Infinitive and future endings, and a list of common forms. -/
def standard : VerbLexicon where
  suffixes := ["ar".toList, "er".toList, "ir".toList, "rá".toList]
  forms :=
    ["está".toList, "esta".toList, "é".toList, "foi".toList, "vai".toList, "fica".toList,
      "ficará".toList, "molhada".toList, "chove".toList, "chover".toList, "fazer".toList,
      "fará".toList, "trabalha".toList, "estuda".toList, "corre".toList, "salta".toList,
      "colhe".toList, "será".toList, "terá".toList, "serão".toList, "terão".toList]

/-- The entries of a list of endings or forms that say something, in the form in which they are
compared. -/
def usable (entries : List Text) : List Text :=
  (entries.map fun t => t.trim.lower).filter fun t => !t.isEmpty

/-- Adds endings and forms.  Blank ones are ignored. -/
def extend (l : VerbLexicon) (suffixes forms : List Text) : VerbLexicon :=
  ⟨l.suffixes ++ usable suffixes, l.forms ++ usable forms⟩

/-- The form in which a word is compared with endings and forms. -/
def comparedForm (word : Text) : Text :=
  (word.trimBy fun c => !isAlphanumeric c).lower

/-- Whether a word counts as a verb. -/
def isVerb (l : VerbLexicon) : VerbDetector := fun word =>
  let w := comparedForm word
  !w.isEmpty && (l.suffixes.any (·.isSuffixOf w) || l.forms.any (Text.hasInfix · w))

end VerbLexicon

/-- The word that negates a clause. -/
def negationWord : Text :=
  "não".toList

/-- Puts the negation word before the first verb, or at the end if there is none. -/
def negateWords (isVerb : VerbDetector) : List Text → List Text
  | [] => [negationWord]
  | w :: rest =>
    if isVerb w then negationWord :: w :: rest else w :: negateWords isVerb rest

/-- Negates a clause.  Its words end up separated by single spaces. -/
def negateClause (isVerb : VerbDetector) (clause : Text) : Text :=
  Text.unwords (negateWords isVerb clause.words)

end Sentential
