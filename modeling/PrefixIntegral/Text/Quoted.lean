import PrefixIntegral.Text.Blank
import PrefixIntegral.Text.Printable

namespace PrefixIntegral.Text

def hex (width n : Nat) : Text := padLeft width '0' (Nat.toDigits 16 n)

/-- The escape of a character that is not printable, by the size of its code point. -/
def codeEscape (n : Nat) : Text :=
  if n ≤ 0xFF then '\\' :: 'x' :: hex 2 n
  else if n ≤ 0xFFFF then '\\' :: 'u' :: hex 4 n
  else '\\' :: 'U' :: hex 8 n

def quoteChar (quote c : Char) : Text :=
  if c = quote || c = '\\' then ['\\', c]
  else if c = '\n' then ['\\', 'n']
  else if c = '\r' then ['\\', 'r']
  else if c = '\t' then ['\\', 't']
  else if isPrintable c then [c]
  else codeEscape c.toNat

def singleQuote : Char := Char.ofNat 0x27

def doubleQuote : Char := Char.ofNat 0x22

def quoteFor (t : Text) : Char :=
  if singleQuote ∈ t ∧ doubleQuote ∉ t then doubleQuote else singleQuote

def quoted (t : Text) : Text :=
  let quote := quoteFor t
  quote :: t.flatMap (quoteChar quote) ++ [quote]

end PrefixIntegral.Text
