import WattFront.Failure.Basic
import WattFront.Source.Line
import WattFront.Text.Blank

/-! # Reports

A report shows a failure with the line it is on and an arrow that points at it:

```text
Error: UnexpectedToken (expected identifier, found `(`)
-> main.watt
  |
1 | fn (
  | ---^
```

The line is shown without the spaces and tabs in front of it and without blank space at its end. The
arrow counts the bytes of the line as it is shown.
-/

namespace WattFront.Failure

/-- The line and column of a failure in its source, both counted from one. -/
def lineColumn (f : Failure) (source : List Char) : Nat × Nat :=
  let point := LinePoint.find source f.position.offset.toNat
  (point.number, point.column + 1)

def fill (c : Char) (count : Nat) : String :=
  String.ofList (List.replicate count c)

def isIndent (c : Char) : Bool :=
  c = ' ' || c = '\t'

/-- The first line of a report: the name of the failure and its hint. -/
def headline (f : Failure) : String :=
  match f.cause.tip? with
  | none => "Error: " ++ f.cause.name
  | some tip => "Error: " ++ f.cause.name ++ " (" ++ tip ++ ")"

/-- The report of a failure in its source. -/
def report (f : Failure) (source : List Char) : String :=
  let point := LinePoint.find source f.position.offset.toNat
  let number := toString point.number
  let gutter := fill ' ' (number.length + 1) ++ "|"
  let indent := byteLength (point.text.takeWhile isIndent)
  let shown := String.ofList (dropBlankEnd (point.text.dropWhile isIndent))
  f.headline ++ "\n"
    ++ "-> " ++ f.position.file ++ "\n"
    ++ gutter ++ "\n"
    ++ number ++ " | " ++ shown ++ "\n"
    ++ gutter ++ " " ++ fill '-' (point.column - indent) ++ "^\n"

end WattFront.Failure
