import WattFront.Token.Kind

/-! # Operators

The operators of expressions and assignments, the tokens that spell them, and how tightly the binary
operators bind. Every binary operator is left associative.
-/

namespace WattFront

/-- How tightly an operator binds. `BindingPower.rank` orders them, loosest first: `lowest` belongs
to no operator and `unary` to the prefixed ones. -/
inductive BindingPower where
  | lowest
  | logical
  | equality
  | relational
  | range
  | impls
  | additive
  | multiplicative
  | unary
deriving DecidableEq, Repr

namespace BindingPower

def rank : BindingPower → Nat
  | .lowest => 0
  | .logical => 1
  | .equality => 2
  | .relational => 3
  | .range => 4
  | .impls => 5
  | .additive => 6
  | .multiplicative => 7
  | .unary => 8

end BindingPower

inductive BinaryOp where
  | and
  | or
  | equals
  | notEquals
  | greater
  | less
  | greaterEquals
  | lessEquals
  | range
  | impls
  | plus
  | minus
  | divide
  | multiply
  | modulo
deriving DecidableEq, Repr

namespace BinaryOp

def ofToken? : TokenKind → Option BinaryOp
  | .kwAnd => some .and
  | .kwOr => some .or
  | .equals => some .equals
  | .notEquals => some .notEquals
  | .greater => some .greater
  | .less => some .less
  | .greaterEquals => some .greaterEquals
  | .lessEquals => some .lessEquals
  | .dotDot => some .range
  | .kwImpls => some .impls
  | .plus => some .plus
  | .dash => some .minus
  | .slash => some .divide
  | .star => some .multiply
  | .percent => some .modulo
  | _ => none

def symbol : BinaryOp → String
  | .and => "and"
  | .or => "or"
  | .equals => "=="
  | .notEquals => "!="
  | .greater => ">"
  | .less => "<"
  | .greaterEquals => ">="
  | .lessEquals => "<="
  | .range => ".."
  | .impls => "impls"
  | .plus => "+"
  | .minus => "-"
  | .divide => "/"
  | .multiply => "*"
  | .modulo => "%"

end BinaryOp

/-- How tightly a token binds when it stands between operands; `lowest` if it cannot. -/
def TokenKind.bindingPower : TokenKind → BindingPower
  | .kwAnd | .kwOr => .logical
  | .equals | .notEquals => .equality
  | .less | .lessEquals | .greater | .greaterEquals => .relational
  | .dotDot => .range
  | .kwImpls => .impls
  | .plus | .dash => .additive
  | .star | .slash | .percent => .multiplicative
  | _ => .lowest

/-- The operators that change what their target holds. -/
inductive AssignOp where
  | assign
  | add
  | sub
  | mul
  | div
deriving DecidableEq, Repr

namespace AssignOp

def ofToken? : TokenKind → Option AssignOp
  | .assignment => some .assign
  | .plusEquals => some .add
  | .minusEquals => some .sub
  | .starEquals => some .mul
  | .slashEquals => some .div
  | _ => none

def symbol : AssignOp → String
  | .assign => "="
  | .add => "+="
  | .sub => "-="
  | .mul => "*="
  | .div => "/="

end AssignOp

/-- The operators in front of one operand. -/
inductive UnaryOp where
  | negate
  | not
deriving DecidableEq, Repr

namespace UnaryOp

def symbol : UnaryOp → String
  | .negate => "-"
  | .not => "!"

end UnaryOp

end WattFront
