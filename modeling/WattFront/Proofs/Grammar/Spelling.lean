import WattFront.Grammar.Program
import WattFront.Proofs.Grammar.Passing

/-! # The spelling of programs

The grammar, without the readings that implement it: each construct has a form, which says how its
tokens are put together from the tokens of its parts. A form also knows the one token that follows. It is
needed where a construct may go on: a clause that may be missing is taken whenever its first token
follows, and an operand takes every operator that binds tighter than the power it stands at.

The expressions and blocks inside a construct open one level of nesting more than the construct. Their
forms are a parameter, and `Spelling.upTo` builds the forms with a given number of levels from those
with one less.
-/

namespace WattFront

def BinaryOp.bindingPower : BinaryOp → BindingPower
  | .and | .or => .logical
  | .equals | .notEquals => .equality
  | .greater | .less | .greaterEquals | .lessEquals => .relational
  | .range => .range
  | .impls => .impls
  | .plus | .minus => .additive
  | .divide | .multiply | .modulo => .multiplicative

namespace Spelling

open Grammar

/-- How the expressions and blocks inside a construct are spelled. -/
structure Inner where
  expr : BindingPower → Form Expr
  block : Form Block

/-! ## Lists and clauses -/

inductive Name : Form Ident
  | intro {token next} (hkind : token.kind = .identifier) :
    Name [token] next ⟨token.value, token.span⟩

/-- Items one after the other, up to a token that opens no further one. -/
inductive Many {α : Type} (goesOn : TokenKind → Bool) (item : Form α) : Form (List α)
  | nil {next} (hnext : goesOn next.kind = false) : Many goesOn item [] next []
  | cons {tokens others next a as} (hitem : item tokens (others.headD next) a)
    (hitems : Many goesOn item others next as) : Many goesOn item (tokens ++ others) next (a :: as)

/-- One item or more, with one comma between any two of them. -/
inductive Separated {α : Type} (item : Form α) : Form (List α)
  | one {tokens next a} (hitem : item tokens next a) (hnext : next.kind ≠ .comma) :
    Separated item tokens next [a]
  | more {tokens comma others next a as} (hitem : item tokens comma a) (hcomma : comma.kind = .comma)
    (hitems : Separated item others next as) :
    Separated item (tokens ++ comma :: others) next (a :: as)

/-- A comma list whose opening bracket stands in front of it, with its closing bracket. -/
inductive CommaList {α : Type} (closing : TokenKind) (item : Form α) : Form (List α)
  | nil {close next} (hclose : close.kind = closing) : CommaList closing item [close] next []
  | cons {tokens close next as} (hitems : Separated item tokens close as)
    (hclose : close.kind = closing) : CommaList closing item (tokens ++ [close]) next as

inductive Bracketed {α : Type} (opening closing : TokenKind) (item : Form α) : Form (List α)
  | intro {first tokens next as} (hopen : first.kind = opening)
    (hlist : CommaList closing item tokens next as) :
    Bracketed opening closing item (first :: tokens) next as

/-- A clause that may be missing: it is there exactly if a token of its kind follows. -/
inductive Clause {α : Type} (opening : TokenKind) (item : Form α) : Form (Option α)
  | none {next} (hnext : next.kind ≠ opening) : Clause opening item [] next none
  | some {tokens next a} (hitem : item tokens next a) : Clause opening item tokens next (some a)

abbrev Parameters : Form (List Ident) :=
  Bracketed .openParen .closeParen Name

section

variable (inner : Inner)

/-! ## Expressions -/

inductive Literal : Form Expr
  | number {token next value} (hkind : token.kind = .number)
    (hvalue : Numeral.value? token.value.toList = some value) :
    Literal [token] next (.number value token.span)
  | string {token next} (hkind : token.kind = .string) :
    Literal [token] next (.string token.value token.span)
  | true {token next} (hkind : token.kind = .kwTrue) : Literal [token] next (.bool true token.span)
  | false {token next} (hkind : token.kind = .kwFalse) : Literal [token] next (.bool false token.span)

abbrev Arguments : Form (List Expr) :=
  Bracketed .openParen .closeParen (inner.expr .lowest)

/-- The first links of a chain: a name with properties and calls behind it. The mark for handing on
failures stands behind the parenthesis of its call. -/
inductive Links : Form Expr
  | name {token next} (hkind : token.kind = .identifier) :
    Links [token] next (.symbol token.value token.span)
  | member {tokens dot property next object} (hobject : Links tokens dot object)
    (hdot : dot.kind = .dot) (hproperty : property.kind = .identifier) :
    Links (tokens ++ [dot, property]) next
      (.member object ⟨property.value, property.span⟩ (.cover (tokens ++ [dot, property])))
  | call {tokens others next callee arguments} (hcallee : Links tokens (others.headD next) callee)
    (harguments : Arguments inner others next arguments) (hnext : next.kind ≠ .question) :
    Links (tokens ++ others) next (.call callee arguments false (.cover (tokens ++ others)))
  | propagate {tokens others mark next callee arguments}
    (hcallee : Links tokens (others.headD mark) callee)
    (harguments : Arguments inner others mark arguments) (hmark : mark.kind = .question) :
    Links (tokens ++ (others ++ [mark])) next
      (.call callee arguments true (.cover (tokens ++ (others ++ [mark]))))

/-- A chain: it takes every link that follows. -/
inductive Chain : Form Expr
  | intro {tokens next e} (hlinks : Links inner tokens next e) (hnext : opensLink next.kind = false) :
    Chain tokens next e

inductive Entry : Form Pair
  | intro {tokens colon others next key value} (hkey : inner.expr .lowest tokens colon key)
    (hcolon : colon.kind = .colon) (hvalue : inner.expr .lowest others next value) :
    Entry (tokens ++ colon :: others) next ⟨key, value, key.span.through value.span⟩

inductive Body : Form ArmBody
  | expr {arrow tokens next e} (harrow : arrow.kind = .arrow)
    (hbody : inner.expr .lowest tokens next e) : Body (arrow :: tokens) next (.expr e)
  | block {tokens next b} (hbody : inner.block tokens next b) : Body tokens next (.block b)

inductive Case (keyword : TokenKind) : Form Arm
  | intro {first tokens others next pattern body} (hfirst : first.kind = keyword)
    (hpattern : inner.expr .lowest tokens (others.headD next) pattern)
    (hbody : Body inner others next body) :
    Case keyword (first :: (tokens ++ others)) next
      ⟨pattern, body, .cover (first :: (tokens ++ others))⟩

/-- An operand. Parentheses around an expression leave no trace. -/
inductive Operand : Form Expr
  | literal {tokens next e} (h : Literal tokens next e) : Operand tokens next e
  | chain {tokens next e} (h : Chain inner tokens next e) : Operand tokens next e
  | list {tokens next es}
    (h : Bracketed .openBracket .closeBracket (inner.expr .lowest) tokens next es) :
    Operand tokens next (.list es (.cover tokens))
  | map {tokens next pairs} (h : Bracketed .openCurly .closeCurly (Entry inner) tokens next pairs) :
    Operand tokens next (.map pairs (.cover tokens))
  | negate {first tokens next e} (hfirst : first.kind = .dash)
    (hoperand : inner.expr .unary tokens next e) :
    Operand (first :: tokens) next (.unary .negate e (.cover (first :: tokens)))
  | not {first tokens next e} (hfirst : first.kind = .not)
    (hoperand : inner.expr .unary tokens next e) :
    Operand (first :: tokens) next (.unary .not e (.cover (first :: tokens)))
  | group {first tokens close next e} (hfirst : first.kind = .openParen)
    (hexpr : inner.expr .lowest tokens close e) (hclose : close.kind = .closeParen) :
    Operand (first :: (tokens ++ [close])) next e
  | new {first name tokens next arguments} (hfirst : first.kind = .kwNew)
    (hname : name.kind = .identifier) (harguments : Arguments inner tokens next arguments) :
    Operand (first :: name :: tokens) next
      (.new ⟨name.value, name.span⟩ arguments (.cover (first :: name :: tokens)))
  | choice {first tokens others rest next scrutinee cases fallback?} (hfirst : first.kind = .kwMatch)
    (hscrutinee : inner.expr .lowest tokens ((others ++ rest).headD next) scrutinee)
    (hcases : Many opensCase (Case inner .kwCase) others (rest.headD next) cases)
    (hfallback : Clause .kwDefault (Case inner .kwDefault) rest next fallback?) :
    Operand (first :: (tokens ++ (others ++ rest))) next
      (.choice scrutinee cases fallback? (.cover (first :: (tokens ++ (others ++ rest)))))
  | lambda {first tokens arrow others next parameters body} (hfirst : first.kind = .kwLambda)
    (hparameters : Parameters tokens arrow parameters) (harrow : arrow.kind = .arrow)
    (hbody : inner.expr .lowest others next body) :
    Operand (first :: (tokens ++ arrow :: others)) next
      (.lambda parameters body (.cover (first :: (tokens ++ arrow :: others))))
  | function {first tokens others next parameters body} (hfirst : first.kind = .kwFn)
    (hparameters : Parameters tokens (others.headD next) parameters)
    (hbody : inner.block others next body) :
    Operand (first :: (tokens ++ others)) next
      (.function parameters body (.cover (first :: (tokens ++ others))))

/-- An operand with operators that bind tighter than a power, each with its right operand. The right
operand takes only what binds tighter than its operator. -/
inductive Operated (power : BindingPower) : Form Expr
  | operand {tokens next e} (h : Operand inner tokens next e) : Operated power tokens next e
  | binary {tokens operator others next left right op} (hleft : Operated power tokens operator left)
    (htight : bindsTighter power operator.kind = true) (hop : BinaryOp.ofToken? operator.kind = some op)
    (hright : inner.expr op.bindingPower others next right) :
    Operated power (tokens ++ operator :: others) next
      (.binary op left right (left.span.through right.span))

/-- An expression at a power: it takes every operator that binds tighter. -/
inductive Expression (power : BindingPower) : Form Expr
  | intro {tokens next e} (h : Operated inner power tokens next e)
    (hnext : bindsTighter power next.kind = false) : Expression power tokens next e

/-! ## Statements -/

inductive Elif : Form Branch
  | intro {first tokens others next condition body} (hfirst : first.kind = .kwElif)
    (hcondition : inner.expr .lowest tokens (others.headD next) condition)
    (hbody : inner.block others next body) :
    Elif (first :: (tokens ++ others)) next
      ⟨condition, body, .cover (first :: (tokens ++ others))⟩

inductive Otherwise : Form Block
  | intro {first tokens next body} (hfirst : first.kind = .kwElse)
    (hbody : inner.block tokens next body) : Otherwise (first :: tokens) next body

inductive Named : Form Function
  | intro {first name tokens others next parameters? body?} (hfirst : first.kind = .kwFn)
    (hname : name.kind = .identifier)
    (hparameters : Clause .openParen Parameters tokens (others.headD next) parameters?)
    (hbody : Clause .openCurly inner.block others next body?) :
    Named (first :: name :: (tokens ++ others)) next
      ⟨⟨name.value, name.span⟩, parameters?, body?, .cover (first :: name :: (tokens ++ others))⟩

inductive Statement : Form Stmt
  | define {tokens mark others next target value} (htarget : Chain inner tokens mark target)
    (hmark : mark.kind = .define) (hvalue : inner.expr .lowest others next value) :
    Statement (tokens ++ mark :: others) next (.define target value (.cover (tokens ++ mark :: others)))
  | assign {tokens mark others next target value op} (htarget : Chain inner tokens mark target)
    (hmark : AssignOp.ofToken? mark.kind = some op) (hvalue : inner.expr .lowest others next value) :
    Statement (tokens ++ mark :: others) next
      (.assign target op value (.cover (tokens ++ mark :: others)))
  | expression {tokens next e} (h : Chain inner tokens next e) (hdefine : next.kind ≠ .define)
    (hassign : AssignOp.ofToken? next.kind = none) :
    Statement tokens next (.expression e (.cover tokens))
  | returnValue {first tokens next e} (hfirst : first.kind = .kwReturn)
    (hvalue : inner.expr .lowest tokens next e) :
    Statement (first :: tokens) next (.returnValue e (.cover (first :: tokens)))
  | whileLoop {first tokens others next condition body} (hfirst : first.kind = .kwWhile)
    (hcondition : inner.expr .lowest tokens (others.headD next) condition)
    (hbody : inner.block others next body) :
    Statement (first :: (tokens ++ others)) next
      (.whileLoop condition body (.cover (first :: (tokens ++ others))))
  | conditional {first tokens others branches rest next condition body elifs otherwise?}
    (hfirst : first.kind = .kwIf)
    (hcondition : inner.expr .lowest tokens ((others ++ (branches ++ rest)).headD next) condition)
    (hbody : inner.block others ((branches ++ rest).headD next) body)
    (helifs : Many opensBranch (Elif inner) branches (rest.headD next) elifs)
    (hotherwise : Clause .kwElse (Otherwise inner) rest next otherwise?) :
    Statement (first :: (tokens ++ (others ++ (branches ++ rest)))) next
      (.conditional condition body elifs otherwise?
        (.cover (first :: (tokens ++ (others ++ (branches ++ rest))))))
  | forLoop {first name word tokens others next iterable body} (hfirst : first.kind = .kwFor)
    (hname : name.kind = .identifier) (hword : word.kind = .kwIn)
    (hiterable : inner.expr .lowest tokens (others.headD next) iterable)
    (hbody : inner.block others next body) :
    Statement (first :: name :: word :: (tokens ++ others)) next
      (.forLoop ⟨name.value, name.span⟩ iterable body
        (.cover (first :: name :: word :: (tokens ++ others))))
  | breakLoop {token next} (hkind : token.kind = .kwBreak) :
    Statement [token] next (.breakLoop token.span)
  | continueLoop {token next} (hkind : token.kind = .kwContinue) :
    Statement [token] next (.continueLoop token.span)
  | native {first name arrow symbol next} (hfirst : first.kind = .kwNative)
    (hname : name.kind = .identifier) (harrow : arrow.kind = .arrow) (hsymbol : symbol.kind = .string) :
    Statement [first, name, arrow, symbol] next
      (.native ⟨name.value, name.span⟩ symbol.value (.cover [first, name, arrow, symbol]))
  | function {tokens next definition} (h : Named inner tokens next definition) :
    Statement tokens next (.function definition definition.span)

inductive Braced : Form Block
  | intro {first tokens close next statements} (hfirst : first.kind = .openCurly)
    (hstatements : Many insideBraces (Statement inner) tokens close statements)
    (hclose : close.kind = .closeCurly) :
    Braced (first :: (tokens ++ [close])) next
      ⟨statements, .cover (first :: (tokens ++ [close]))⟩

/-! ## Items -/

inductive Alias : Form Ident
  | intro {first name next} (hfirst : first.kind = .kwWith) (hname : name.kind = .identifier) :
    Alias [first, name] next ⟨name.value, name.span⟩

inductive SingleImport : Form Import
  | intro {path tokens next alias?} (hpath : path.kind = .string)
    (halias : Clause .kwWith Alias tokens next alias?) :
    SingleImport (path :: tokens) next ⟨path.value, alias?, .cover (path :: tokens)⟩

inductive Imports : Form (List Import)
  | one {tokens next i} (h : SingleImport tokens next i) : Imports tokens next [i]
  | list {first tokens close next imports} (hfirst : first.kind = .openParen)
    (himports : Separated SingleImport tokens close imports) (hclose : close.kind = .closeParen) :
    Imports (first :: (tokens ++ [close])) next imports

def isImpl (token : Token) : Prop :=
  token.kind = .identifier ∧ token.value = "impl"

/-- The traits of a type behind their word. There may be none. -/
inductive TraitNames : Form (List Ident)
  | nil {next} (hnext : next.kind ≠ .identifier) : TraitNames [] next []
  | cons {tokens next names} (h : Separated Name tokens next names) : TraitNames tokens next names

/-- The traits of a type. The word in front of them is the only identifier without a place in the
tree. -/
inductive Traits : Form (Option (List Ident))
  | none {next} (hnext : ¬ isImpl next) : Traits [] next none
  | some {word tokens next names} (hword : isImpl word) (hnames : TraitNames tokens next names) :
    Traits (word :: tokens) next (some names)

inductive Defined : Form Definition
  | function {tokens next definition} (h : Named inner tokens next definition) :
    Defined tokens next (.function definition)
  | trait {first name brace tokens close next methods} (hfirst : first.kind = .kwTrait)
    (hname : name.kind = .identifier) (hbrace : brace.kind = .openCurly)
    (hmethods : Many insideBraces (Named inner) tokens close methods)
    (hclose : close.kind = .closeCurly) :
    Defined (first :: name :: brace :: (tokens ++ [close])) next
      (.trait ⟨⟨name.value, name.span⟩, methods,
        .cover (first :: name :: brace :: (tokens ++ [close]))⟩)
  | type {first name tokens others rest next parameters? traits? body?} (hfirst : first.kind = .kwType)
    (hname : name.kind = .identifier)
    (hparameters : Clause .openParen Parameters tokens ((others ++ rest).headD next) parameters?)
    (htraits : Traits others (rest.headD next) traits?)
    (hbody : Clause .openCurly inner.block rest next body?) :
    Defined (first :: name :: (tokens ++ (others ++ rest))) next
      (.type ⟨⟨name.value, name.span⟩, parameters?, traits?, body?,
        .cover (first :: name :: (tokens ++ (others ++ rest)))⟩)
  | unit {first name tokens next body?} (hfirst : first.kind = .kwUnit)
    (hname : name.kind = .identifier) (hbody : Clause .openCurly inner.block tokens next body?) :
    Defined (first :: name :: tokens) next
      (.unit ⟨⟨name.value, name.span⟩, body?, .cover (first :: name :: tokens)⟩)

def standsAlone : Stmt → Prop
  | .breakLoop _ | .continueLoop _ | .expression .. | .function .. => False
  | _ => True

/-- An item of a program. -/
inductive Item : Form WattFront.Item
  | definition {tokens next d} (h : Defined inner tokens next d) : Item tokens next (.definition d)
  | imports {first tokens next imports} (hfirst : first.kind = .kwImport)
    (himports : Imports tokens next imports) :
    Item (first :: tokens) next (.statement (.imports imports (.cover (first :: tokens))))
  | statement {tokens next s} (h : Statement inner tokens next s) (halone : standsAlone s) :
    Item tokens next (.statement s)

end

/-! ## Levels of nesting -/

def upTo : Nat → Inner
  | 0 => ⟨fun _ _ _ _ => False, fun _ _ _ => False⟩
  | levels + 1 => ⟨Expression (upTo levels), Braced (upTo levels)⟩

def ending (tokens : List Token) (file : String) : Token :=
  (tokens.dropWhile (·.kind ≠ .endOfInput)).headD (.endOfInput (Cursor.start tokens file).ending)

/-- The tokens in front of the first end of input spell the items of a program, one after the other, with
nothing left over; its span reaches from the beginning of the file to the end of input. -/
structure Program (tokens : List Token) (file : String) (program : WattFront.Program) : Prop where
  items : Many insideProgram (Item (upTo maxNesting)) (tokens.takeWhile (·.kind ≠ .endOfInput))
    (ending tokens file) program.items
  span : program.span = ⟨.origin file, (ending tokens file).span.start⟩

end Spelling

end WattFront
