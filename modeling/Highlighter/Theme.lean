import Highlighter.Color
import Highlighter.Table

/-!
Themes: colors by the role that a text plays. Roles are dotted; a role without a color of its own
has that of the role it refines.
-/

namespace Highlighter

structure Theme where
  base : Color
  roles : Table Color
  deriving DecidableEq, Repr

namespace Theme

/-- The color of the longest proper dotted part of a role, which is given last character first. -/
def refinedColor? (roles : Table Color) : Text → Option Color
  | [] => none
  | c :: r =>
    if c = '.' then (roles.get? (String.ofList r.reverse)).or (refinedColor? roles r)
    else refinedColor? roles r

def colorForRole? (t : Theme) (role : String) : Option Color :=
  (t.roles.get? role).or (refinedColor? t.roles role.toList.reverse)

def resolve? (t : Theme) (value : Text) : Option Color :=
  if (Text.trimLeft value).head? = some '#' then Color.parse? value
  else t.colorForRole? (String.ofList (Text.trim value))

def mocha : Theme where
  base := .ofNat 0xcdd6f4
  roles := .ofList [
    ("keyword", .ofNat 0xcba6f7),
    ("function", .ofNat 0x89b4fa),
    ("type", .ofNat 0xf9e2af),
    ("constructor", .ofNat 0x74c7ec),
    ("string", .ofNat 0xa6e3a1),
    ("string.template", .ofNat 0x94e2d5),
    ("escape", .ofNat 0xf5c2e7),
    ("constant", .ofNat 0xfab387),
    ("number", .ofNat 0xfab387),
    ("comment", .ofNat 0x6c7086),
    ("variable.builtin", .ofNat 0xf38ba8),
    ("variable.parameter", .ofNat 0xeba0ac),
    ("property", .ofNat 0xb4befe),
    ("label", .ofNat 0x74c7ec),
    ("punctuation", .ofNat 0xa6adc8),
    ("operator", .ofNat 0x89dceb),
    ("attribute", .ofNat 0xf9e2af),
    ("tag", .ofNat 0x89b4fa),
    ("embedded", .ofNat 0xf5c2e7),
    ("text", .ofNat 0xcdd6f4)]

end Theme

end Highlighter
