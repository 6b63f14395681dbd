import PrefixIntegral.Text.Blank

namespace PrefixIntegral

inductive Choice where
  | help | symbol | points | lower | upper | order | grain | workers | chunkSize
  | symbolic | tree | level
  deriving DecidableEq, Repr

namespace Choice

def all : List Choice :=
  [help, symbol, points, lower, upper, order, grain, workers, chunkSize, symbolic, tree, level]

def letter : Choice → Option Char
  | help => some 'h'
  | symbol => some 'v'
  | _ => none

def word : Choice → String
  | help => "help"
  | symbol => "variable"
  | points => "eval"
  | lower => "from"
  | upper => "to"
  | order => "order"
  | grain => "grain"
  | workers => "workers"
  | chunkSize => "chunk-size"
  | symbolic => "symbolic"
  | tree => "tree"
  | level => "log-level"

def long (c : Choice) : Text := '-' :: '-' :: c.word.toList

def title (c : Choice) : String :=
  match c.letter with
  | some letter => String.ofList ['-', letter, '/'] ++ String.ofList c.long
  | none => String.ofList c.long

def takesValue : Choice → Bool
  | help | symbolic | tree => false
  | _ => true

def ofLetter? (letter : Char) : Option Choice := all.find? (·.letter = some letter)

def ofLong? (form : Text) : Option Choice := all.find? (·.long = form)

def beginningWith (start : Text) : List Choice := all.filter fun c => start.isPrefixOf c.long

end Choice

end PrefixIntegral
