import RegionLayout.Text.Glyph

/-!
Quoted text. A quoted text stands between double quotes and spells what could not be read inside
them as an escape; an apostrophe is left alone.
-/

namespace RegionLayout.Quoted

def hexDigits (value : Nat) : List Char :=
  Nat.toDigits 16 value

/-- A hidden character is spelled by its number in base sixteen, if it has no escape of its own. -/
def encodeChar (c : Char) : List Char :=
  if c = '"' then ['\\', '"']
  else if c = '\\' then ['\\', '\\']
  else if c = '\n' then ['\\', 'n']
  else if c = '\t' then ['\\', 't']
  else if c = '\r' then ['\\', 'r']
  else if c.toNat = 0 then ['\\', '0']
  else if Glyph.isHidden c then ['\\', 'u', '\x7b'] ++ hexDigits c.toNat ++ ['\x7d']
  else [c]

def encode (text : List Char) : List Char :=
  '"' :: text.flatMap encodeChar ++ ['"']

def quote (text : String) : String :=
  String.ofList (encode text.toList)

end RegionLayout.Quoted
