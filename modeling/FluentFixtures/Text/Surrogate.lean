import FluentFixtures.Text.Basic

/-!
# Surrogates spelled out

Half of a surrogate pair has no UTF-8 form. `escape` writes each one as a
backslash, `u` and four hexadecimal digits, so that the text encodes.
-/

namespace FluentFixtures.Surrogate

/-- `\uXXXX` with lower-case digits. -/
def spelled (c : CodePoint) : Text := 0x5C :: 0x75 :: Text.hex 4 c.val

def escapePoint (c : CodePoint) : Text := if c.isSurrogate then spelled c else [c]

def escape (t : Text) : Text := t.flatMap escapePoint

end FluentFixtures.Surrogate
