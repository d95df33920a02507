import Highlighting.Number.Numeral
import Highlighting.Text.Printable

/-!
# Quoted text

How a text is shown inside a message: between quotes, with escapes for the quote in use, for the
backslash and for characters without a visible form. The quote is an apostrophe unless the text
holds an apostrophe and no double quote.
-/

namespace Highlighting
namespace Quoted

/-- Quote for a text: the apostrophe, or the double quote where that needs fewer escapes. -/
def quoteFor (cs : List Char) : Char :=
  if cs.contains '\'' && !cs.contains '"' then '"' else '\''

/-- Escape of a character by its code point, as wide as the code point needs. -/
def escapeCode (c : Char) : List Char :=
  let n := c.toNat
  if n < 0x100 then '\\' :: 'x' :: Numeral.hex 2 n
  else if n < 0x10000 then '\\' :: 'u' :: Numeral.hex 4 n
  else '\\' :: 'U' :: Numeral.hex 8 n

def encodeChar (quote c : Char) : List Char :=
  if c = quote ∨ c = '\\' then ['\\', c]
  else if c = '\t' then ['\\', 't']
  else if c = '\n' then ['\\', 'n']
  else if c = '\r' then ['\\', 'r']
  else if isPrintable c then [c]
  else escapeCode c

def encode (cs : List Char) : List Char :=
  let quote := quoteFor cs
  quote :: (cs.flatMap (encodeChar quote) ++ [quote])

end Quoted

def quoted (text : String) : String :=
  String.ofList (Quoted.encode text.toList)

end Highlighting
