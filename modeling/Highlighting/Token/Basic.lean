import Highlighting.Data.Candidate
import Highlighting.Token.Category

/-!
# Tokens and documents

A token is a classified piece of a source line, a document a list of lines of tokens. Callers may
also hand over plain pairs whose category is not checked yet; reading the items of a document in
order either yields its tokens or reports the first pair without a proper category.
-/

namespace Highlighting

structure Token where
  category : Category
  text : String
  deriving DecidableEq, Repr

abbrev Document := List (List Token)

structure InvalidToken where
  category : Argument
  deriving Repr

namespace InvalidToken

def message (e : InvalidToken) : String :=
  "Token category must be a TokenType, got " ++ e.category.describe

end InvalidToken

namespace Token

def ofCandidate (category : Candidate Category) (text : String) : Except InvalidToken Token :=
  (category.check InvalidToken.mk).map fun c => ⟨c, text⟩

def shownLength : Nat := 20

/-- Text of a token as it is shown: a long one keeps its first seventeen characters. -/
def shownText (cs : List Char) : List Char :=
  if shownLength < cs.length then cs.take 17 ++ ['.', '.', '.'] else cs

def describe (token : Token) : String :=
  "Token(" ++ token.category.label ++ ", " ++
    String.ofList (Quoted.encode (shownText token.text.toList)) ++ ")"

end Token

/-- What a line may hold: a token, or a pair whose category is checked when it is reached. -/
inductive Item where
  | token (t : Token)
  | pair (category : Candidate Category) (text : String)
  deriving Repr

namespace Item

def toToken : Item → Except InvalidToken Token
  | .token t => .ok t
  | .pair category text => Token.ofCandidate category text

end Item

/-- Document of lines of items; the first improper pair in reading order is reported. -/
def Document.ofItems (lines : List (List Item)) : Except InvalidToken Document :=
  lines.mapM fun line => line.mapM Item.toToken

end Highlighting
