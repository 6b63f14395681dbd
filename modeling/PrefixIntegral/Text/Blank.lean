/-!
Text as a list of characters, and the characters that separate words in it.
Positions in a text count characters, so a text is never handled as bytes.
-/

namespace PrefixIntegral

abbrev Text := List Char

namespace Text

/-- The separators of words: the ASCII controls from tab to carriage return and from the
file separator to the space, and every space and line mark of Unicode. -/
def isBlank (c : Char) : Bool :=
  let n := c.toNat
  (9 ≤ n && n ≤ 13) || (28 ≤ n && n ≤ 32) || n == 0x85 || n == 0xA0 || n == 0x1680 ||
  (0x2000 ≤ n && n ≤ 0x200A) || n == 0x2028 || n == 0x2029 || n == 0x202F ||
  n == 0x205F || n == 0x3000

def isAllBlank (t : Text) : Bool := t.all isBlank

def trimBoth (drop : Char → Bool) (t : Text) : Text :=
  ((t.dropWhile drop).reverse.dropWhile drop).reverse

def trim (t : Text) : Text := trimBoth isBlank t

def padRight (width : Nat) (fill : Char) (t : Text) : Text :=
  t ++ List.replicate (width - t.length) fill

def padLeft (width : Nat) (fill : Char) (t : Text) : Text :=
  List.replicate (width - t.length) fill ++ t

/-- Splits at every occurrence of a character; there is one piece more than occurrences. -/
def splitAt (mark : Char) : Text → List Text
  | [] => [[]]
  | c :: rest =>
    if c = mark then [] :: splitAt mark rest
    else match splitAt mark rest with
      | [] => [[c]]
      | piece :: pieces => (c :: piece) :: pieces

def bracketed (items : List String) : String := "[" ++ ", ".intercalate items ++ "]"

end Text

end PrefixIntegral
