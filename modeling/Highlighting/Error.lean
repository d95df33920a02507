import Highlighting.Options.Basic
import Highlighting.Theme.Data
import Highlighting.Token.Basic

/-!
# Errors

Everything that the library can complain about, and the families to which a complaint belongs. A
family lies within others: those of the library, and the general ones that its callers know.
-/

namespace Highlighting

inductive ErrorFamily where
  | any
  | ordinary
  | value
  | type
  | lookup
  | key
  | library
  | color
  | unknownTheme
  | formatOption
  | theme
  | render
  | invalidToken
  deriving DecidableEq, Repr

namespace ErrorFamily

def parents : ErrorFamily → List ErrorFamily
  | .any => []
  | .ordinary => [.any]
  | .value => [.ordinary]
  | .type => [.ordinary]
  | .lookup => [.ordinary]
  | .key => [.lookup]
  | .library => [.ordinary]
  | .color => [.library, .value]
  | .unknownTheme => [.library, .key]
  | .formatOption => [.library, .type]
  | .theme => [.library, .value]
  | .render => [.library]
  | .invalidToken => [.render, .type]

def within : Nat → ErrorFamily → List ErrorFamily
  | 0, _ => []
  | steps + 1, family => family.parents.flatMap fun parent => parent :: within steps parent

/-- All families in which a family lies, each once; none is more than four steps away. -/
def ancestors (family : ErrorFamily) : List ErrorFamily :=
  (within 4 family).eraseDups

end ErrorFamily

inductive Error where
  | color (e : ColorError)
  | unknownTheme (e : Palette.UnknownTheme)
  | option (e : OptionError)
  | theme (e : ThemeError)
  | entry (e : EntryError)
  | token (e : InvalidToken)
  | title (e : UnknownTitle)
  deriving Repr

namespace Error

def family : Error → ErrorFamily
  | .color _ => .color
  | .unknownTheme _ => .unknownTheme
  | .option _ => .formatOption
  | .theme _ => .theme
  | .entry _ => .type
  | .token _ => .invalidToken
  | .title _ => .value

def message : Error → String
  | .color e => e.message
  | .unknownTheme e => e.message
  | .option e => e.message
  | .theme e => e.message
  | .entry e => e.message
  | .token e => e.message
  | .title e => e.message

end Error
end Highlighting
