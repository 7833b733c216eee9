import Scriptlet.CommandLine

/-! # The command, run

This module reads files and standard input, prints what `CommandLine` answers, and exits.
-/

namespace Scriptlet.Main

/-- Prints a report and gives its exit code. -/
def deliver (r : Report) : IO UInt32 := do
  (← IO.getStdout).putStr r.stdout
  (← IO.getStdout).flush
  (← IO.getStderr).putStr r.stderr
  return r.exit.toUInt32

/-- The number of a system error, which some calls report negated. -/
def systemCode (code : UInt32) : UInt32 :=
  if code < 0x80000000 then code else 0 - code

/-- The reason for which the system could not read a file. -/
def failureOf : IO.Error → ReadFailure
  | .noFileOrDirectory .. => .notFound
  | .inappropriateType _ code details =>
    if systemCode code = 20 then .notDirectory
    else if systemCode code = 21 then .isDirectory
    else .other details
  | e => .other (toString e)

/-- Reads the bytes of a file. -/
def readBytes (path : String) : IO (Except ReadFailure ByteArray) := do
  try
    return .ok (← IO.FS.readBinFile path)
  catch e => return .error (failureOf e)

/-- Reads the bytes of one line after those in `before`; none are left at the end of the input. -/
partial def readLine (before : ByteArray) : IO ByteArray := do
  let more ← (← IO.getStdin).read 1
  match more.toList with
  | [] => return before
  | b :: _ => if b = 10 then return before.push b else readLine (before.push b)

/-- Takes lines from standard input until the session ends. -/
partial def loop (r : Repl) : IO UInt32 := do
  let stdout ← IO.getStdout
  stdout.putStr Repl.prompt
  stdout.flush
  let bytes ← readLine .empty
  if bytes.isEmpty then return 0
  match String.fromUTF8? bytes with
  | none =>
    (← IO.getStderr).putStr Repl.unreadableText
    return 1
  | some line =>
    match r.feed line with
    | .quit => return 0
    | .next r out err =>
      stdout.putStr out
      (← IO.getStderr).putStr err
      loop r

/-- Does what the arguments ask for. -/
def command (arguments : List String) : IO UInt32 :=
  match Request.ofArguments arguments with
  | .tell n => deliver (CommandLine.notice n)
  | .run o =>
    match o.contents with
    | some contents => do
      if o.file then deliver (CommandLine.fileScript o contents (← readBytes contents))
      else deliver (CommandLine.script o CommandLine.scriptOrigin contents)
    | none => do
      (← IO.getStdout).putStr Repl.banner
      loop (.new o.limit)

end Scriptlet.Main

/-- The command. -/
def main (arguments : List String) : IO UInt32 :=
  Scriptlet.Main.command arguments
