import WattFront.Failure.Report
import WattFront.Grammar.Program
import WattFront.Tree.Printer

/-! # The command line

`watt FLAGS.. FILE` reads a file and reports how many items its program has. Flags ask for more: the
tokens, or the tree in its written form. The first failure is reported on the error stream instead.

What the command does is a function of its arguments and of what comes of reading the file, so that
only the reading itself is left to the outside.
-/

namespace WattFront.CommandLine

def version : String := "0.1.0"

structure Options where
  tokens : Bool
  tree : Bool
deriving DecidableEq, Repr

inductive Request where
  /-- Say which version this is. -/
  | version
  /-- Check the named file. -/
  | check (name : String) (options : Options)
deriving DecidableEq, Repr

/-- What an argument is, by its own text. -/
inductive Argument where
  | name
  | tokens
  | tree
  | help
  | version
  | separator
  | unknown
deriving DecidableEq, Repr

/-- The short flags end the reading of the arguments, so whatever is written behind their letter does not
matter. A dash alone is a name. -/
def Argument.of (arg : String) : Argument :=
  if arg = "--tokens" then .tokens
  else if arg = "--ast" then .tree
  else if arg = "--help" || ['-', 'h'].isPrefixOf arg.toList then .help
  else if arg = "--version" || ['-', 'V'].isPrefixOf arg.toList then .version
  else if arg = "--" then .separator
  else if ['-'].isPrefixOf arg.toList && arg ≠ "-" then .unknown
  else .name

structure Result where
  exit : UInt8
  out : String
  err : String
deriving DecidableEq, Repr

/-- The result of a failure: nothing but a message on the error stream, behind what was already
written. -/
def Result.failure (out err : String) : Result :=
  ⟨1, out, err⟩

def versionResult : Result :=
  ⟨0, "watt " ++ version ++ "\n", ""⟩

def helpResult : Result :=
  ⟨0, "Lexer and parser for the Watt language\n\n"
    ++ "Usage: watt [OPTIONS] <FILE>\n\n"
    ++ "Arguments:\n"
    ++ "  <FILE>  Path to the .watt file\n\n"
    ++ "Options:\n"
    ++ "      --tokens   Print the token stream\n"
    ++ "      --ast      Print the parsed tree as s-expressions\n"
    ++ "  -h, --help     Print help\n"
    ++ "  -V, --version  Print version\n", ""⟩

def usageResult : Result :=
  ⟨2, "", "Usage: watt [OPTIONS] <FILE>\n"⟩

/-- The request to check a file, if exactly one is named and its name is not empty. -/
def checkOf (names : List String) (options : Options) : Except Result Request :=
  match names with
  | [name] => if name.isEmpty then .error usageResult else .ok (.check name options)
  | _ => .error usageResult

/-- Reads the arguments from left to right. `names` and `options` are what the arguments so far have
asked for. There is no request if help is asked for, if more than one file is named, or if a flag is
unknown or repeated. Behind two dashes there are only names. -/
def requestFrom (names : List String) (options : Options) : List String → Except Result Request
  | [] => checkOf names options
  | arg :: args =>
    match Argument.of arg with
    | .name => if names = [] then requestFrom [arg] options args else .error usageResult
    | .tokens =>
      if options.tokens then .error usageResult else requestFrom names { options with tokens := true } args
    | .tree => if options.tree then .error usageResult else requestFrom names { options with tree := true } args
    | .help => .error helpResult
    | .version => .ok .version
    | .separator => checkOf (names ++ args) options
    | .unknown => .error usageResult

/-- What the arguments ask for, or what is said to them if that is nothing to be done. -/
def request (args : List String) : Except Result Request :=
  requestFrom [] ⟨false, false⟩ args

def request? (args : List String) : Option Request :=
  (request args).toOption

inductive ReadFailure where
  | notFound
  | isDirectory
  | notText
  | other (reason : String)
deriving DecidableEq, Repr

def ReadFailure.message : ReadFailure → String
  | .notFound => "No such file or directory (os error 2)"
  | .isDirectory => "Is a directory (os error 21)"
  | .notText => "stream did not contain valid UTF-8"
  | .other reason => reason

def pathParts (path : List Char) : List (List Char) :=
  path.splitOn '/'

/-- The name by which a file is called in reports: the last part of its path. A path that ends in a
step up, or that has no part at all, stands for itself. -/
def fileName (path : String) : String :=
  match ((pathParts path.toList).filter fun part => part ≠ [] && part ≠ ['.']).getLast? with
  | none => path
  | some part => if part = ['.', '.'] then path else String.ofList part

def listTokens (tokens : List Token) : String :=
  String.join (tokens.map fun token => token.text ++ "\n")

def checkSource (file : String) (options : Options) (source : List Char) : Result :=
  match tokenize source file with
  | .error failure => .failure "" (failure.report source)
  | .ok tokens =>
    let listed := if options.tokens then listTokens tokens else ""
    match Program.ofTokens tokens file with
    | .error failure => .failure listed (failure.report source)
    | .ok program =>
      let written := if options.tree then program.text ++ "\n" else ""
      ⟨0, listed ++ written ++ "Parsed " ++ toString program.items.length ++ " items\n", ""⟩

def textOf (content : Except ReadFailure ByteArray) : Except ReadFailure String := do
  match String.fromUTF8? (← content) with
  | some text => pure text
  | none => throw .notText

/-- Checks the file of the given path, of which `content` is what came of reading it. -/
def check (path : String) (options : Options) (content : Except ReadFailure ByteArray) : Result :=
  match textOf content with
  | .error failure => .failure "" ("Failed to read " ++ path ++ ": " ++ failure.message ++ "\n")
  | .ok text => checkSource (fileName path) options text.toList

/-- What the command does with its arguments. Only the reading of a file is left open. -/
def answer {m : Type → Type} [Monad m] (read : String → m (Except ReadFailure ByteArray))
    (args : List String) : m Result :=
  match request args with
  | .error result => pure result
  | .ok .version => pure versionResult
  | .ok (.check path options) => do return check path options (← read path)

end WattFront.CommandLine
