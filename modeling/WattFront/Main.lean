import WattFront.CommandLine

/-! # The program

Reads the file that the command line names, and writes what the command says about it.
-/

namespace WattFront.CommandLine

def readContent (path : String) : IO (Except ReadFailure ByteArray) := do
  try
    return .ok (← IO.FS.readBinFile path)
  catch e =>
    return .error <| match e with
      | .noFileOrDirectory .. => .notFound
      | .inappropriateType .. => .isDirectory
      | e => .other (toString e)

end WattFront.CommandLine

def main (args : List String) : IO UInt32 := do
  let result ← WattFront.CommandLine.answer WattFront.CommandLine.readContent args
  (← IO.getStdout).putStr result.out
  (← IO.getStderr).putStr result.err
  return result.exit.toUInt32
