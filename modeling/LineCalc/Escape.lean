import LineCalc.Digits
import LineCalc.Unicode.DefaultIgnorable
import LineCalc.Unicode.GraphemeExtend
import LineCalc.Unicode.Unprintable
/-
  Escape: characters as they are shown in messages

  A character is shown as itself if it can be seen where it stands alone.
  NUL, tab, line ends, the backslash and the quotes in use are escaped by a
  backslash, every other character that cannot be seen by its code point,
  `\u` and hexadecimal digits in braces.

  The quotes to escape are a parameter: a message escapes both, a quoted
  character or string only the quote it stands in.
-/

namespace LineCalc.Escape

/-- The halfwidth katakana sound marks. They extend the character before them
and yet stand in a cell of their own. -/
def isSoundMark (c : Char) : Bool := c = '\uff9e' || c = '\uff9f'

/-- Whether a character can be seen where it stands alone. -/
def isVisible (c : Char) : Bool :=
  !(Unicode.isUnprintable c || Unicode.isDefaultIgnorable c
    || (Unicode.isGraphemeExtend c && !isSoundMark c))

/-- A backslash and one character. -/
def backslash (c : Char) : List Char := ['\\', c]

/-- The code point of a character in hexadecimal, in braces. -/
def codePoint (c : Char) : List Char :=
  '\\' :: 'u' :: '\x7b' :: Digits.hex c.toNat ++ ['\x7d']

/-- A character as it is shown where the given quotes are escaped. -/
def char (quotes : List Char) (c : Char) : List Char :=
  if c = '\x00' then backslash '0'
  else if c = '\t' then backslash 't'
  else if c = '\r' then backslash 'r'
  else if c = '\n' then backslash 'n'
  else if c = '\\' || quotes.contains c then backslash c
  else if isVisible c then [c]
  else codePoint c

/-- A character as it is shown in a message. -/
def inMessage (c : Char) : String := String.ofList (char ['\'', '"'] c)

/-- A character in single quotes. -/
def quotedChar (c : Char) : String :=
  "'" ++ String.ofList (char ['\''] c) ++ "'"

/-- A string in double quotes. -/
def quotedString (s : String) : String :=
  "\"" ++ String.ofList (s.toList.flatMap (char ['"'])) ++ "\""

end LineCalc.Escape
