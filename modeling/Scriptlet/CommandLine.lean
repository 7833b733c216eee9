import Scriptlet.Run
import Scriptlet.Text.Blank
import Scriptlet.Text.Bytes

/-! # The command

The command runs a script given as an argument or in a file, or else reads lines and runs one after
another in the same scope. `Request.ofArguments` reads the arguments, `Repl.feed` takes one line,
and `CommandLine.report` says for given input what the whole command prints and how it exits.
Nothing here touches the outside world: files are read through a function.
-/

namespace Scriptlet

/-! ## Arguments -/

/-- What the arguments ask for. -/
structure Options where
  /-- The script is in a file. -/
  file : Bool
  /-- The value of the script is printed. -/
  pipe : Bool
  /-- How deeply calls may be nested. -/
  limit : Nat
  /-- How often more detail was asked for. -/
  verbosity : Nat
  /-- The script or its path. -/
  contents : Option String
deriving DecidableEq

/-- The arguments read so far. -/
structure Draft where
  file : Bool
  pipe : Bool
  limit : Option Nat
  verbosity : Nat
  contents : Option String

/-- Why arguments ask for no run. -/
inductive Refusal where
  | unknown (argument : String)
  | repeated (option : String)
  | missingValue (option : String)
  | invalidValue (option value : String)
  | unneededValue (option : String)
deriving DecidableEq

/-- How messages name a refusal. -/
def Refusal.text : Refusal → String
  | unknown argument => "unexpected argument '" ++ argument ++ "'"
  | repeated option => "the argument '" ++ option ++ "' cannot be used more than once"
  | missingValue option => "a value is required for '" ++ option ++ "'"
  | invalidValue option value => "invalid value '" ++ value ++ "' for '" ++ option ++ "'"
  | unneededValue option => "no value is taken by '" ++ option ++ "'"

/-- What the command says instead of running anything. -/
inductive Notice where
  | version
  | help
  | refused (why : Refusal)
deriving DecidableEq

/-- What the command is to do. -/
inductive Request where
  | run (options : Options)
  | tell (notice : Notice)
deriving DecidableEq

/-- The option for the limit on nested calls. -/
def limitOption : String := "--max-call-depth"

/-- The largest limit that can be given. -/
def maxLimit : Nat := Nat.pow 2 64 - 1

/-- The natural number that decimal digits denote, of which there must be one at least; a plus sign
may stand before them. -/
def limitOfText? (s : String) : Option Nat :=
  let digits := match s.toList with
    | '+' :: ds => ds
    | ds => ds
  if digits.isEmpty || !digits.all Char.isDigit then none
  else
    let n := Token.digitsValue digits
    if n ≤ maxLimit then some n else none

/-- Whether an argument is an option rather than a value. -/
def isOption (argument : String) : Bool :=
  match argument.toList with
  | '-' :: _ :: _ => true
  | _ => false

namespace Draft

/-- The draft before any argument. -/
def empty : Draft := ⟨false, false, none, 0, none⟩

/-- The options of a finished draft. -/
def finish (d : Draft) : Options :=
  ⟨d.file, d.pipe, d.limit.getD defaultLimit, d.verbosity, d.contents⟩

/-- Takes an option without a value, given by its letter; `written` is how it was written. -/
def flag (d : Draft) (letter : Char) (written : String) : Except Notice Draft :=
  match letter with
  | 'f' => if d.file then .error (.refused (.repeated "--file")) else .ok { d with file := true }
  | 'p' =>
    if d.pipe then .error (.refused (.repeated "--pipe-mode")) else .ok { d with pipe := true }
  | 'v' => .ok { d with verbosity := d.verbosity + 1 }
  | 'V' => .error .version
  | 'h' => .error .help
  | _ => .error (.refused (.unknown written))

/-- Takes the letters of one argument in order. -/
def flags (d : Draft) (written : String) : List Char → Except Notice Draft
  | [] => .ok d
  | letter :: letters => do
    let d ← d.flag letter written
    d.flags written letters

/-- Takes the limit on nested calls. -/
def takeLimit (d : Draft) (value : String) : Except Notice Draft :=
  if d.limit.isSome then .error (.refused (.repeated limitOption))
  else
    match limitOfText? value with
    | some n => .ok { d with limit := some n }
    | none => .error (.refused (.invalidValue limitOption value))

/-- Takes the script or its path, which may be given once. -/
def takeContents (d : Draft) (value : String) : Except Notice Draft :=
  if d.contents.isSome then .error (.refused (.unknown value))
  else .ok { d with contents := some value }

/-- The letter of an option without a value, given by its long name. -/
def letterOf? : String → Option Char
  | "--file" => some 'f'
  | "--pipe-mode" => some 'p'
  | "--verbose" => some 'v'
  | "--version" => some 'V'
  | "--help" => some 'h'
  | _ => none

/-- Takes a long option; `value` is what stands after an equals sign. -/
def longOption (d : Draft) (option : String) (value : Option String) : Except Notice Draft :=
  match value with
  | some v =>
    if option = limitOption then d.takeLimit v
    else if (letterOf? option).isSome then .error (.refused (.unneededValue option))
    else .error (.refused (.unknown option))
  | none =>
    match letterOf? option with
    | some letter => d.flag letter option
    | none => .error (.refused (.unknown option))

/-- Takes arguments that are values whatever they look like. -/
def values (d : Draft) : List String → Except Notice Draft
  | [] => .ok d
  | a :: rest => do
    let d ← d.takeContents a
    d.values rest

/-- Takes arguments in order: options until two dashes alone, and values. The limit's value may
stand in the next argument if that is no option. -/
def arguments (d : Draft) : List String → Except Notice Draft
  | [] => .ok d
  | a :: rest =>
    if a = "--" then d.values rest
    else if a = limitOption then
      match rest with
      | [] => .error (.refused (.missingValue limitOption))
      | v :: rest =>
        if isOption v then .error (.refused (.missingValue limitOption))
        else do
          let d ← d.takeLimit v
          d.arguments rest
    else
      match a.toList with
      | '-' :: '-' :: _ => do
        let name := a.toList.takeWhile (· != '=')
        let value := (a.toList.drop name.length).tail?
        let d ← d.longOption (String.ofList name) (value.map String.ofList)
        d.arguments rest
      | '-' :: c :: cs => do
        let d ← d.flags a (c :: cs)
        d.arguments rest
      | _ => do
        let d ← d.takeContents a
        d.arguments rest

end Draft

/-- What a list of arguments asks for. The first argument that decides this ends the reading. -/
def Request.ofArguments (arguments : List String) : Request :=
  match Draft.empty.arguments arguments with
  | .ok d => .run d.finish
  | .error n => .tell n

/-! ## Scripts -/

/-- What the command prints and how it exits. -/
structure Report where
  exit : Nat
  stdout : String
  stderr : String
deriving DecidableEq

/-- Why a file cannot be read. -/
inductive ReadFailure where
  | notFound
  | isDirectory
  | notDirectory
  | invalidText
  | other (reason : String)
deriving DecidableEq

/-- How messages name the reason. -/
def ReadFailure.text : ReadFailure → String
  | notFound => "No such file or directory (os error 2)"
  | isDirectory => "Is a directory (os error 21)"
  | notDirectory => "Not a directory (os error 20)"
  | invalidText => "stream did not contain valid UTF-8"
  | other reason => reason

namespace CommandLine

/-- The name of the command. -/
def name : String := "april"

/-- The version of the command. -/
def version : String := "0.1.0"

/-- A short account of the arguments. -/
def help : String :=
  "Usage: " ++ name ++ " [OPTIONS] [CONTENTS]\n\n" ++
  "  [CONTENTS]            The script to run, or its path with --file; else lines are read\n" ++
  "  -f, --file            Look for the script in a file\n" ++
  "  -p, --pipe-mode       Print the value of the last statement\n" ++
  "  --max-call-depth <N>  How many calls may be under way at once [default: " ++
    toString defaultLimit ++ "]\n" ++
  "  -v, --verbose         Ask for more detail\n" ++
  "  -h, --help            Print this account\n" ++
  "  -V, --version         Print the version\n"

/-- The name in diagnostics of a script given as an argument. -/
def scriptOrigin : String := "<script>"

/-- What is said of a run that used up its fuel. -/
def unfinishedText : String := "The program did not finish.\n"

/-- Runs a script that is named `origin` in diagnostics. -/
def script (o : Options) (origin source : String) : Report :=
  match run o.limit ampleFuel Machine.firstScope source (.global .none) with
  | .done v m => ⟨0, if o.pipe then m.sink.text ++ v.text ++ "\n" else m.sink.text, ""⟩
  | .failed e m => ⟨1, m.sink.text, (Diagnostic.mk e origin source).text ++ "\n"⟩
  | .unfinished => ⟨1, "", unfinishedText⟩

/-- What is said of a file that cannot be read. -/
def unreadable (path : String) (why : ReadFailure) : Report :=
  ⟨1, "", "Failed to read the input file '" ++ path ++ "': " ++ why.text ++
    ". Perhaps this file does not exist?\n"⟩

/-- Runs the script in a file whose bytes have been read. -/
def fileScript (o : Options) (path : String) (read : Except ReadFailure ByteArray) : Report :=
  match read with
  | .error why => unreadable path why
  | .ok bytes =>
    match String.fromUTF8? bytes with
    | some source => script o path source
    | none => unreadable path .invalidText

end CommandLine

/-! ## Lines one after another -/

/-- A session that runs lines: its machine and the limit on nested calls. -/
structure Repl where
  machine : Machine
  limit : Nat

namespace Repl

/-- A new session. -/
def new (limit : Nat) : Repl := ⟨.global .none, limit⟩

/-- What is printed before the first line. -/
def banner : String := CommandLine.name ++ " v" ++ CommandLine.version ++ "\n"

/-- What is printed before each line. -/
def prompt : String := "> "

/-- The name of the source in diagnostics. -/
def origin : String := "<repl>"

/-- The line that ends a session. -/
def exitLine : String := "exit"

/-- What is said of a line that is not text. -/
def unreadableText : String :=
  "Failed to read input: " ++ ReadFailure.invalidText.text ++ "\n"

/-- What a session does with a line. -/
inductive Reaction where
  | quit
  | next (session : Repl) (stdout stderr : String)

/-- Takes one line: white space at its end is dropped, an empty line is skipped, and any other is
run, its value or its error being reported. -/
def feed (r : Repl) (input : String) : Reaction :=
  let line := Text.trimEnd input
  if line = exitLine then .quit
  else if line.isEmpty then .next r "" ""
  else
    match run r.limit ampleFuel Machine.firstScope line r.machine with
    | .done v m => .next ⟨m.drained, r.limit⟩ (m.sink.text ++ v.text ++ "\n") ""
    | .failed e m =>
      .next ⟨m.drained, r.limit⟩ m.sink.text ((Diagnostic.mk e origin line).text ++ "\n")
    | .unfinished => .next r "" CommandLine.unfinishedText

/-- Takes lines until one of them ends the session or there are no more; `stdout` and `stderr` is
what has been printed before. -/
def feedAll (r : Repl) (stdout stderr : String) : List ByteArray → Report
  | [] => ⟨0, stdout ++ prompt, stderr⟩
  | bytes :: rest =>
    match String.fromUTF8? bytes with
    | none => ⟨1, stdout ++ prompt, stderr ++ unreadableText⟩
    | some line =>
      match r.feed line with
      | .quit => ⟨0, stdout ++ prompt, stderr⟩
      | .next r out err => r.feedAll (stdout ++ prompt ++ out) (stderr ++ err) rest

end Repl

namespace CommandLine

/-- What the command prints for a notice. Arguments that are refused make it exit with 2. -/
def notice : Notice → Report
  | .version => ⟨0, name ++ " " ++ version ++ "\n", ""⟩
  | .help => ⟨0, help, ""⟩
  | .refused why => ⟨2, "", "error: " ++ why.text ++ "\n\n" ++ help⟩

/-- What the command prints for the given arguments and standard input, and how it exits. -/
def report (arguments : List String) (stdin : ByteArray)
    (read : String → Except ReadFailure ByteArray) : Report :=
  match Request.ofArguments arguments with
  | .run o =>
    match o.contents with
    | some contents =>
      if o.file then fileScript o contents (read contents) else script o scriptOrigin contents
    | none => (Repl.new o.limit).feedAll Repl.banner "" (Text.byteLines stdin)
  | .tell n => notice n

end CommandLine

end Scriptlet
