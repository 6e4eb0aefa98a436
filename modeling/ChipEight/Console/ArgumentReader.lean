import ChipEight.Console.CommandLine

/-!
# Reading arguments

Arguments are read from left to right.  What was read last is not looked at until the next argument
shows where it ends, so an argument that cannot stand where it stands is reported before a fault in
the one before it; a known option, a request for help and the end of the line first settle what came
before.  The number of an option is the next argument or follows an equals sign.  After `--` no
argument is an option.
-/

namespace ChipEight

namespace CommandLine

/-- The number that `text` gives to an option.  The number of cycles in a frame may also be written
as minus zero. -/
def Setting.number? (s : Setting) (text : List Char) : Option (BitVec s.bits) :=
  match text with
  | '-' :: rest =>
    match s, Decimal.value? rest with
    | cyclesPerFrame, some 0 => some 0
    | _, _ => none
  | _ => unsigned? s.bits text

/-- What an argument looks like on its own. -/
inductive Token where
  /-- The end of the options. -/
  | separator
  /-- A known option, with the text after its equals sign. -/
  | setting (s : Setting) (attached : Option (List Char))
  /-- A request for help. -/
  | help
  /-- A request for help with a value. -/
  | helpWithValue
  /-- An option that is not known. -/
  | unknown
  /-- No option. -/
  | plain
deriving Repr, DecidableEq

/-- The text after the first equals sign, if there is one. -/
def attached? (text : List Char) : Option (List Char) :=
  match text.dropWhile (· != '=') with
  | [] => none
  | _ :: value => some value

/-- The option that starts with two dashes, given by what follows the dashes. -/
def Token.ofLong (text : List Char) : Token :=
  let name := text.takeWhile (· != '=')
  if name = "help".toList then
    if (attached? text).isNone then .help else .helpWithValue
  else
    match Setting.ofName? name with
    | some s => .setting s (attached? text)
    | none => .unknown

/-- What an argument looks like. -/
def Token.ofArgument (text : List Char) : Token :=
  match text with
  | ['-', '-'] => .separator
  | '-' :: '-' :: rest => .ofLong rest
  | '-' :: 'h' :: _ => .help
  | '-' :: _ :: _ => .unknown
  | _ => .plain

/-- What was read last and is not settled. -/
inductive Pending where
  /-- Nothing. -/
  | nothing
  /-- An option that waits for its number. -/
  | option (s : Setting)
  /-- An option and the argument that should be its number. -/
  | value (s : Setting) (text : List Char)
  /-- A path. -/
  | path (path : String)
deriving Repr, DecidableEq

/-- The command line as far as it was read. -/
structure Reading where
  /-- The path, once it is settled. -/
  path : Option String := none
  /-- The number of cycles in a frame, once it is settled. -/
  cyclesPerFrame : Option (BitVec 32) := none
  /-- The time from frame to frame, once it is settled. -/
  frameMs : Option (BitVec 64) := none
  /-- The number of cycles to run, once it is settled. -/
  maxCycles : Option (BitVec 64) := none
  /-- What is not settled. -/
  pending : Pending := .nothing
  /-- Whether the options have ended. -/
  separated : Bool := false
deriving Repr, DecidableEq

namespace Reading

/-- The settled number of an option. -/
def number? (r : Reading) : (s : Setting) → Option (BitVec s.bits)
  | .cyclesPerFrame => r.cyclesPerFrame
  | .frameMs => r.frameMs
  | .maxCycles => r.maxCycles

/-- Settles the number of an option. -/
def withNumber (s : Setting) (n : BitVec s.bits) (r : Reading) : Reading :=
  match s, n with
  | .cyclesPerFrame, n => { r with cyclesPerFrame := some n }
  | .frameMs, n => { r with frameMs := some n }
  | .maxCycles, n => { r with maxCycles := some n }

/-- Settles an option and its number. -/
def settleNumber (s : Setting) (text : List Char) (r : Reading) : Except UsageError Reading :=
  match r.number? s with
  | some _ => .error .repeatedOption
  | none =>
    match s.number? text with
    | some n => .ok (r.withNumber s n)
    | none => .error .badNumber

/-- Settles what was read last. -/
def settle (r : Reading) : Except UsageError Reading :=
  let rest := { r with pending := .nothing }
  match r.pending with
  | .nothing => .ok rest
  | .option _ => .error .missingNumber
  | .value s text => rest.settleNumber s text
  | .path path => if path.isEmpty then .error .emptyPath else .ok { rest with path := some path }

/-- Whether a path was read, settled or not. -/
def hasPath (r : Reading) : Bool :=
  r.path.isSome ||
    match r.pending with
    | .path _ => true
    | _ => false

/-- Reads a path. -/
def takePath (path : String) (r : Reading) : Except UsageError Reading :=
  if r.hasPath then .error .unknownArgument
  else
    match r.settle with
    | .ok settled => .ok { settled with pending := .path path }
    | .error e => .error e

/-- Reads an argument that is no option: the number that an option waits for, or else a path. -/
def takePlain (argument : String) (r : Reading) : Except UsageError Reading :=
  match r.pending with
  | .option s => .ok { r with pending := .value s argument.toList }
  | _ => r.takePath argument

/-- Reads an option.  A number after an equals sign is settled at once. -/
def takeSetting (s : Setting) (attached : Option (List Char)) (r : Reading) :
    Except UsageError Reading :=
  match r.settle with
  | .error e => .error e
  | .ok settled =>
    match attached with
    | none => .ok { settled with pending := .option s }
    | some text => settled.settleNumber s text

/-- Reads an argument. -/
def take (r : Reading) (argument : String) : Except UsageError Reading :=
  if r.separated then r.takePath argument
  else
    match Token.ofArgument argument.toList with
    | .separator => .ok { r with separated := true }
    | .setting s attached => r.takeSetting s attached
    | .help =>
      match r.settle with
      | .ok _ => .error .helpRequested
      | .error e => .error e
    | .helpWithValue => .error .valueForHelp
    | .unknown => .error .unknownArgument
    | .plain => r.takePlain argument

/-- Reads arguments from left to right. -/
def takeAll : List String → Reading → Except UsageError Reading
  | [], r => .ok r
  | argument :: rest, r =>
    match r.take argument with
    | .ok next => takeAll rest next
    | .error e => .error e

/-- What the whole command line asks for.  Options that were not given have their usual numbers. -/
def finish (r : Reading) : Except UsageError Settings :=
  match r.settle with
  | .error e => .error e
  | .ok settled =>
    match settled.path with
    | none => .error .missingPath
    | some path =>
      let usual : Settings := { path }
      .ok {
        path
        cyclesPerFrame := settled.cyclesPerFrame.getD usual.cyclesPerFrame
        frameMs := settled.frameMs.getD usual.frameMs
        maxCycles := settled.maxCycles }

end Reading

/-- Reads the arguments of the program. -/
def parse (arguments : List String) : Except UsageError Settings :=
  match Reading.takeAll arguments {} with
  | .ok r => r.finish
  | .error e => .error e

/-- What is wrong with a command line. -/
def UsageError.message : UsageError → String
  | helpRequested => "A machine for programs of four kilobytes, sixteen keys and 64 by 32 pixels"
  | unknownArgument => "error: unexpected argument"
  | missingNumber => "error: an option needs a number"
  | emptyPath => "error: the path of the program is empty"
  | badNumber => "error: not a number, or a number that is too large"
  | repeatedOption => "error: an option is given twice"
  | valueForHelp => "error: help takes no value"
  | missingPath => "error: the path of a program is missing"

/-- What is told about a command line that was not understood. -/
def help (e : UsageError) : String :=
  e.message ++ "\n\nUsage: chip-eight [OPTIONS] PATH\n\n"
    ++ "  --cycles-per-frame N   cycles in a frame (10)\n"
    ++ "  --frame-ms N           milliseconds from frame to frame (15)\n"
    ++ "  --max-cycles N         stop after this many cycles\n"
    ++ "  --help                 show this text"

end CommandLine

end ChipEight
