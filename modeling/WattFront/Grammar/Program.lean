import WattFront.Grammar.Definition
import WattFront.Grammar.Nesting
import WattFront.Token.Stream

/-! # Programs

* `Program.ofTokens` reads a program from a token list;
* `Program.ofSource` reads a program from a text, which is first cut into tokens.
-/

namespace WattFront

open Grammar

/-- Whether a token goes on with a program: only the end of input does not. -/
def Grammar.insideProgram (kind : TokenKind) : Bool :=
  kind ≠ .endOfInput

def Grammar.items : Reading (List Item) :=
  Reading.many insideProgram (atCursor item)

namespace Program

/-- The program that a token list spells. Its span reaches from the beginning of the file to the end
of input. -/
def ofTokens (tokens : List Token) (file : String) : Except Failure Program :=
  match Grammar.items (.start tokens file) with
  | .done items c => .ok ⟨items, ⟨.origin file, c.here⟩⟩
  | .failed failure _ => .error failure

/-- The program that a source text spells. A failure to read the tokens comes first. -/
def ofSource (source : List Char) (file : String) : Except Failure Program := do
  let tokens ← tokenize source file
  ofTokens tokens file

end Program

end WattFront
