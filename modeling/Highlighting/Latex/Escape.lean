/-!
# Escaping in verbatim material

Inside verbatim material whose command characters are the backslash and the braces, exactly these
three have to be escaped: a brace gets a backslash in front, and a backslash is spelled out.
-/

namespace Highlighting
namespace Latex

def backslash : List Char :=
  "\\textbackslash\x7b\x7d".toList

def escapeChar (c : Char) : List Char :=
  match c with
  | '\\' => backslash
  | '{' => ['\\', '{']
  | '}' => ['\\', '}']
  | _ => [c]

def escapeChars (cs : List Char) : List Char :=
  cs.flatMap escapeChar

def escape (text : String) : String :=
  String.ofList (escapeChars text.toList)

/-- Reads escapes from left to right; any other character, also a stray backslash, stays. -/
def unescapeChars : List Char → List Char
  | [] => []
  | '\\' :: 't' :: 'e' :: 'x' :: 't' :: 'b' :: 'a' :: 'c' :: 'k' :: 's' :: 'l' :: 'a' :: 's' ::
      'h' :: '{' :: '}' :: rest => '\\' :: unescapeChars rest
  | '\\' :: '{' :: rest => '{' :: unescapeChars rest
  | '\\' :: '}' :: rest => '}' :: unescapeChars rest
  | c :: rest => c :: unescapeChars rest

def unescape (text : String) : String :=
  String.ofList (unescapeChars text.toList)

end Latex
end Highlighting
