import PrefixIntegral.Formula.Mark
import PrefixIntegral.Text.Quoted
import PrefixIntegral.Tree.Structure

namespace PrefixIntegral

inductive Malformation where
  | undefined
  | empty
  | noGroup (place : Nat)
  | trailing (place : Nat)
  | emptyGroup (place : Nat)
  deriving DecidableEq, Repr

inductive FormulaFault where
  | unclosed
  | extraClosing (place : Nat)
  | unknownOperator (word : Text)
  | operandCount (op : Operator) (actual : Nat)
  | missingSeparator (place : Nat)
  | invalidLiteral (word : Text)
  | malformed (reason : Malformation)
  | notATree (fault : StructureFault)
  deriving DecidableEq, Repr

namespace FormulaFault

def name : FormulaFault → String
  | unclosed | extraClosing _ => "UnbalancedParenthesesError"
  | unknownOperator _ => "UnknownOperatorError"
  | operandCount .. => "ArityError"
  | missingSeparator _ => "MissingSeparatorError"
  | invalidLiteral _ => "InvalidLiteralError"
  | malformed _ => "MalformedExpressionError"
  | notATree _ => "TreeStructureError"

def message : FormulaFault → String
  | unclosed => "Unclosed parentheses"
  | extraClosing place => s!"Extra closing parenthesis at {place}"
  | unknownOperator word => "Unknown operation type: " ++ String.ofList (Text.quoted word)
  | operandCount op actual =>
    s!"Incorrect number of operands in the {String.ofList op.token} operation: " ++
      s!"expected {op.arity.describe}, got {actual}"
  | missingSeparator place => s!"Whitespace between brackets is missed at {place}"
  | invalidLiteral word => "Invalid number format: " ++ String.ofList (Text.quoted word)
  | malformed .undefined => "Formula is undefined"
  | malformed .empty => "Formula is empty"
  | malformed (.noGroup place) => s!"Expected a parenthesized expression at {place}"
  | malformed (.trailing place) => s!"Unexpected text after the expression at {place}"
  | malformed (.emptyGroup place) => s!"Empty expression at {place}"
  | notATree fault => fault.message

end FormulaFault

end PrefixIntegral
