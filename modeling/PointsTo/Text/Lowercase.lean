/-!
# Lower case

The lower-case form of a character where that form is made of ASCII letters. Only the capital ASCII
letters and the Kelvin sign have such a form and differ from it; every other character is left as it
is. This decides whether the lower-case form of a text is a given ASCII word, since the lower-case
form of any other non-ASCII character has a non-ASCII character in it.
-/

namespace PointsTo.Text

/-- The lower-case form of a character, where that is an ASCII letter. -/
def lowerChar (c : Char) : Char :=
  if c = '\u212A' then 'k' else c.toLower

/-- A text in lower case, as far as it decides equality with ASCII words. -/
def lower (l : List Char) : List Char :=
  l.map lowerChar

end PointsTo.Text
