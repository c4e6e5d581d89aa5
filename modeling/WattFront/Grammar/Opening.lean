import WattFront.Token.Kind

/-! # What a token opens

The grammar is decided by one token: the first token of an operand, a statement or an item says which
form it has, and the token behind an operand says how the expression goes on. A statement that starts
with an identifier has no form of its own here: it is a chain, and the token behind the chain decides.
-/

namespace WattFront

inductive OperandForm where
  | literal
  | chain
  | list
  | map
  | signed
  | group
  | new
  | choice
  | lambda
  | function
deriving DecidableEq, Repr

def TokenKind.operandForm? : TokenKind → Option OperandForm
  | .number | .string | .kwTrue | .kwFalse => some .literal
  | .identifier => some .chain
  | .openBracket => some .list
  | .openCurly => some .map
  | .dash | .not => some .signed
  | .openParen => some .group
  | .kwNew => some .new
  | .kwMatch => some .choice
  | .kwLambda => some .lambda
  | .kwFn => some .function
  | _ => none

/-- The forms in which an expression goes on behind an operand. -/
inductive InfixForm where
  | binary
deriving DecidableEq, Repr

/-- The form in which a token behind an operand goes on with the expression. -/
def TokenKind.infixForm? : TokenKind → Option InfixForm
  | .kwAnd | .kwOr => some .binary
  | .equals | .notEquals | .less | .lessEquals | .greater | .greaterEquals => some .binary
  | .dotDot | .kwImpls => some .binary
  | .plus | .dash | .star | .slash | .percent => some .binary
  | _ => none

inductive StatementForm where
  | returnValue
  | whileLoop
  | conditional
  | forLoop
  | breakLoop
  | continueLoop
  | native
  | function
deriving DecidableEq, Repr

def TokenKind.statementForm? : TokenKind → Option StatementForm
  | .kwReturn => some .returnValue
  | .kwWhile => some .whileLoop
  | .kwIf => some .conditional
  | .kwFor => some .forLoop
  | .kwBreak => some .breakLoop
  | .kwContinue => some .continueLoop
  | .kwNative => some .native
  | .kwFn => some .function
  | _ => none

inductive ItemForm where
  | function
  | trait
  | type
  | unit
  | imports
deriving DecidableEq, Repr

def TokenKind.itemForm? : TokenKind → Option ItemForm
  | .kwFn => some .function
  | .kwTrait => some .trait
  | .kwType => some .type
  | .kwUnit => some .unit
  | .kwImport => some .imports
  | _ => none

end WattFront
