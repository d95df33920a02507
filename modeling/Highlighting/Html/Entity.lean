/-!
# Character entities

Text in HTML: the five characters that could be read as markup are written as entities. The
encoding works character by character, so it never joins what stood apart.
-/

namespace Highlighting
namespace Html

def escapeChar (c : Char) : List Char :=
  match c with
  | '&' => "&amp;".toList
  | '<' => "&lt;".toList
  | '>' => "&gt;".toList
  | '"' => "&quot;".toList
  | '\'' => "&#x27;".toList
  | _ => [c]

def escapeChars (cs : List Char) : List Char :=
  cs.flatMap escapeChar

def escape (text : String) : String :=
  String.ofList (escapeChars text.toList)

/-- Characters that `escapeChars` has encoded, read from left to right; other text stays. -/
def unescapeChars : List Char → List Char
  | [] => []
  | '&' :: 'a' :: 'm' :: 'p' :: ';' :: rest => '&' :: unescapeChars rest
  | '&' :: 'l' :: 't' :: ';' :: rest => '<' :: unescapeChars rest
  | '&' :: 'g' :: 't' :: ';' :: rest => '>' :: unescapeChars rest
  | '&' :: 'q' :: 'u' :: 'o' :: 't' :: ';' :: rest => '"' :: unescapeChars rest
  | '&' :: '#' :: 'x' :: '2' :: '7' :: ';' :: rest => '\'' :: unescapeChars rest
  | c :: rest => c :: unescapeChars rest

end Html
end Highlighting
