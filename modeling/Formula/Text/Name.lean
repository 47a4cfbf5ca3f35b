import Formula.Text.Alphabet
/-!
Names that may stand for a positional argument, and texts that hold nothing but white space.
-/

namespace Formula.Text

/-- Whether a name may begin with this character. -/
def startsName (c : Char) : Bool :=
  isAlphabetic c || c == '_'

/-- Whether a name may go on with this character. -/
def continuesName (c : Char) : Bool :=
  isAlphabetic c || isNumeric c || c == '_'

/-- Whether a list of characters is a name: a letter or underscore, then letters, numbers and
underscores. -/
def isNameOf : List Char → Bool
  | [] => false
  | c :: cs => startsName c && cs.all continuesName

/-- Whether a text can be used as the name of a positional argument. -/
def isName (name : String) : Bool :=
  isNameOf name.toList

/-- Whether a text holds only white space. -/
def isBlankText (text : String) : Bool :=
  text.toList.all isBlank

end Formula.Text
