import Highlighting.Data.Value

/-!
# Arguments and candidates

What an untyped caller hands over is a data value or some other object. Where a value of some type
is wanted, a candidate is either of that type or stray. Checking a sequence of candidates reports
the first stray one.
-/

namespace Highlighting

/-- An object that is not data is only ever shown in a message or tested for its truth. -/
inductive Argument where
  | data (value : Value)
  | other (description : String) (truth : Bool)
  deriving Repr, Inhabited

namespace Argument

def describe : Argument → String
  | .data value => value.describe
  | .other description _ => description

def isTruthy : Argument → Bool
  | .data value => value.isTruthy
  | .other _ truth => truth

end Argument

inductive Candidate (α : Type) where
  | fit (a : α)
  | stray (argument : Argument)
  deriving Repr

namespace Candidate

variable {α ε : Type}

def check (complain : Argument → ε) : Candidate α → Except ε α
  | .fit a => .ok a
  | .stray argument => .error (complain argument)

end Candidate
end Highlighting
