/-!
# Quoted text in JSON

A text is written between quotation marks.  Inside, quotation mark, backslash
and the control characters below U+0020 are escaped; five of the latter have a
short escape and the others are written by their code.  All other characters
stand for themselves.
-/

namespace RateDesk
namespace Json

/-- The hexadecimal digit of a number below sixteen, in small letters. -/
def hexChar (n : Nat) : Char :=
  if n < 10 then Char.ofNat (48 + n) else Char.ofNat (87 + n)

/-- A character inside quotation marks. -/
def escape (c : Char) : List Char :=
  if c = '"' then ['\\', '"']
  else if c = '\\' then ['\\', '\\']
  else if c = '\n' then ['\\', 'n']
  else if c = '\r' then ['\\', 'r']
  else if c = '\t' then ['\\', 't']
  else if c = '\x08' then ['\\', 'b']
  else if c = '\x0c' then ['\\', 'f']
  else if c.toNat < 32 then
    ['\\', 'u', '0', '0', hexChar (c.toNat / 16), hexChar (c.toNat % 16)]
  else [c]

/-- A text between quotation marks. -/
def quoted (s : List Char) : List Char :=
  '"' :: (s.flatMap escape ++ ['"'])

end Json
end RateDesk
