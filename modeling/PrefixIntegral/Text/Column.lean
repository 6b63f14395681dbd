import PrefixIntegral.Text.Blank

namespace PrefixIntegral.Column

def left (width : Nat) (text : String) : String :=
  String.ofList (Text.padRight width ' ' text.toList)

def right (width : Nat) (text : String) : String :=
  String.ofList (Text.padLeft width ' ' text.toList)

def fill (width : Nat) (c : Char) : String := String.ofList (List.replicate width c)

end PrefixIntegral.Column
