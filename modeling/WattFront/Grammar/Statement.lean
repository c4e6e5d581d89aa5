import WattFront.Grammar.Expression

/-! # Statements

Statements stand in blocks. A statement is opened by its keyword, or it starts with a chain: then the
token behind the chain says whether the chain is defined, assigned to or evaluated for its effect.
-/

namespace WattFront.Grammar

open Reading

variable (inner : Inner)

/-- A statement that starts with a chain. -/
def chainStatement : Reading Stmt := do
  let start ← here
  let target ← chain inner
  let kind ← kind
  if kind = .define then
    let _ ← advance
    let value ← inner.expr .lowest
    pure (.define target value (← spanFrom start))
  else
    match AssignOp.ofToken? kind with
    | some operator =>
      let _ ← advance
      let value ← inner.expr .lowest
      pure (.assign target operator value (← spanFrom start))
    | none => pure (.expression target (← spanFrom start))

def returnValue : Reading Stmt := do
  let token ← expect .kwReturn
  let value ← inner.expr .lowest
  pure (.returnValue value (← spanFrom token.span.start))

def whileLoop : Reading Stmt := do
  let token ← expect .kwWhile
  let condition ← inner.expr .lowest
  let body ← inner.block
  pure (.whileLoop condition body (← spanFrom token.span.start))

def branch : Reading Branch := do
  let token ← advance
  let condition ← inner.expr .lowest
  let body ← inner.block
  pure ⟨condition, body, ← spanFrom token.span.start⟩

def opensBranch (kind : TokenKind) : Bool :=
  kind = .kwElif

/-- The last block of a branching statement, whose keyword is the current token. A further condition
has a keyword of its own, so the two keywords of other languages are refused. -/
def otherwise : Reading Block := do
  let next := (← cursor).peek 1
  let _ ← advance
  if next = .kwIf then unexpected "`elif` instead of `else if`"
  else inner.block

def conditional : Reading Stmt := do
  let token ← expect .kwIf
  let condition ← inner.expr .lowest
  let body ← inner.block
  let elifs ← many opensBranch (branch inner)
  let otherwise? ← ifAt .kwElse (otherwise inner)
  pure (.conditional condition body elifs otherwise? (← spanFrom token.span.start))

def forLoop : Reading Stmt := do
  let token ← expect .kwFor
  let name ← expectAs .identifier "loop variable name"
  let _ ← expect .kwIn
  let iterable ← inner.expr .lowest
  let body ← inner.block
  pure (.forLoop ⟨name.value, name.span⟩ iterable body (← spanFrom token.span.start))

def breakLoop : Reading Stmt := do
  let token ← expect .kwBreak
  pure (.breakLoop token.span)

def continueLoop : Reading Stmt := do
  let token ← expect .kwContinue
  pure (.continueLoop token.span)

/-- A name for a symbol that is defined outside of the language. -/
def native : Reading Stmt := do
  let token ← expect .kwNative
  let name ← identifier
  let _ ← expect .arrow
  let symbol ← expectAs .string "native symbol string"
  pure (.native name symbol.value (← spanFrom token.span.start))

/-- A named function. The parameter list and the body may be missing. -/
def function : Reading Function := do
  let token ← expect .kwFn
  let name ← identifier
  let parameters? ← ifAt .openParen parameters
  let body? ← ifAt .openCurly inner.block
  pure ⟨name, parameters?, body?, ← spanFrom token.span.start⟩

def functionStatement : Reading Stmt := do
  let definition ← function inner
  pure (.function definition definition.span)

def statementOf : StatementForm → Reading Stmt
  | .returnValue => returnValue inner
  | .whileLoop => whileLoop inner
  | .conditional => conditional inner
  | .forLoop => forLoop inner
  | .breakLoop => breakLoop
  | .continueLoop => continueLoop
  | .native => native
  | .function => functionStatement inner

def statement : Reading Stmt := do
  let kind ← kind
  if kind = .identifier then chainStatement inner
  else
    match kind.statementForm? with
    | some form => statementOf inner form
    | none => unexpected "statement"

/-- Whether a token goes on with the contents of braces: only the closing brace and the end of input
do not. -/
def insideBraces (kind : TokenKind) : Bool :=
  kind ≠ .closeCurly && kind ≠ .endOfInput

/-- A block. It opens a level of nesting and closes it only if it is read to its end. -/
def block : Reading Block := do
  enter
  let token ← expect .openCurly
  let statements ← many insideBraces (statement inner)
  let _ ← expect .closeCurly
  leave
  pure ⟨statements, ← spanFrom token.span.start⟩

end WattFront.Grammar
