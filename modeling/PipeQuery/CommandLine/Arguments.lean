/-!
# Arguments of the program

`Command.ofArguments` reads the arguments: options before the command, the
command, and its options with the query among them.  Options have a long name
after two dashes, and some a letter after one; letters may be put together, and a
value may follow at once or as the next argument.  No option may come twice.
-/

namespace PipeQuery.CommandLine

/-- What to run. -/
structure RunOptions where
  /-- The query. -/
  query : String
  /-- The text that the query works on. -/
  input : Option String := none
  /-- Whether that text is JSON. -/
  jsonInput : Bool := false
  /-- Whether the value is laid out in lines. -/
  pretty : Bool := false
  /-- Whether the query is only checked. -/
  syntaxOnly : Bool := false

/-- What the program is asked to do. -/
inductive Command where
  /-- Run a query. -/
  | run (options : RunOptions)
  /-- List the operators. -/
  | functions
  /-- Tell how to call the program. -/
  | help
  /-- Tell the version. -/
  | version

/-- Why reading the arguments stops early. -/
inductive Stop where
  /-- Help is asked for. -/
  | help
  /-- The version is asked for. -/
  | version
  /-- The arguments make no sense. -/
  | invalid

/-- What has been read of a command. -/
structure Given where
  /-- Whether notes are wanted. -/
  verbose : Bool := false
  /-- The query. -/
  query : Option String := none
  /-- The text it works on. -/
  input : Option String := none
  /-- Whether that text is JSON. -/
  jsonInput : Bool := false
  /-- Whether the value is laid out in lines. -/
  pretty : Bool := false
  /-- Whether the query is only checked. -/
  syntaxOnly : Bool := false

/-- Whether an argument is an option. -/
def isOption (arg : String) : Bool := arg.startsWith "-" && arg ≠ "-"

namespace Given

/-- The query, if there was none. -/
def setQuery (g : Given) (query : String) : Except Stop Given :=
  if g.query.isSome then .error .invalid else .ok { g with query := some query }

/-- The input, if there was none. -/
def setInput (g : Given) (input : String) : Except Stop Given :=
  if g.input.isSome then .error .invalid else .ok { g with input := some input }

/-- An option without a value, by its long name. -/
def setFlag (g : Given) (name : String) : Except Stop Given :=
  match name with
  | "verbose" => if g.verbose then .error .invalid else .ok { g with verbose := true }
  | "json" => if g.jsonInput then .error .invalid else .ok { g with jsonInput := true }
  | "pretty" => if g.pretty then .error .invalid else .ok { g with pretty := true }
  | "syntax-only" => if g.syntaxOnly then .error .invalid else .ok { g with syntaxOnly := true }
  | "help" => .error .help
  | _ => .error .invalid

/-- Letters after a dash, and whether the value of the last one is still to come. -/
def setLetters (g : Given) : List Char → Except Stop (Given × Bool)
  | [] => .ok (g, false)
  | 'i' :: [] => .ok (g, true)
  | 'i' :: '=' :: value => (g.setInput (String.ofList value)).map fun g => (g, false)
  | 'i' :: value => (g.setInput (String.ofList value)).map fun g => (g, false)
  | c :: rest =>
    match c with
    | 'v' => do (← g.setFlag "verbose").setLetters rest
    | 'j' => do (← g.setFlag "json").setLetters rest
    | 'p' => do (← g.setFlag "pretty").setLetters rest
    | 'h' => .error .help
    | _ => .error .invalid

/-- An option by its long name, perhaps with a value, and whether its value is still to come. -/
def setLong (g : Given) (name : List Char) : Except Stop (Given × Bool) :=
  match String.ofList (name.takeWhile (· ≠ '=')), name.dropWhile (· ≠ '=') with
  | "input", [] => .ok (g, true)
  | "input", _ :: value => (g.setInput (String.ofList value)).map fun g => (g, false)
  | flag, [] => (g.setFlag flag).map fun g => (g, false)
  | _, _ => .error .invalid

/-- The arguments of a run.  `valueAhead` says that the next is the value of an option,
`onlyPlain` that there are no more options. -/
def readRun (g : Given) (valueAhead onlyPlain : Bool) : List String → Except Stop Given
  | [] => if valueAhead then .error .invalid else .ok g
  | arg :: rest =>
    if valueAhead then
      if isOption arg then .error .invalid
      else do (← g.setInput arg).readRun false onlyPlain rest
    else if onlyPlain || !isOption arg then do (← g.setQuery arg).readRun false onlyPlain rest
    else if arg = "--" then g.readRun false true rest
    else do
      let (g, valueAhead) ← match arg.toList with
        | '-' :: '-' :: name => g.setLong name
        | letters => g.setLetters (letters.drop 1)
      g.readRun valueAhead false rest

end Given

/-- The arguments of a command that takes none but the option for notes. -/
def readPlain (verbose : Bool) : List String → Except Stop Unit
  | [] => .ok ()
  | arg :: rest =>
    match arg with
    | "-v" | "--verbose" => if verbose then .error .invalid else readPlain true rest
    | "-h" | "--help" | "-vh" => .error .help
    | _ => .error .invalid

/-- The command and its arguments. -/
def readCommand (name : String) (rest : List String) : Except Stop Command :=
  match name with
  | "run" => do
    let g ← Given.readRun {} false false rest
    match g.query with
    | none => .error .invalid
    | some query =>
      return .run
        { query, input := g.input, jsonInput := g.jsonInput, pretty := g.pretty,
          syntaxOnly := g.syntaxOnly }
  | "functions" => do
    readPlain false rest
    return .functions
  | "help" =>
    match rest with
    | [] | ["run"] | ["functions"] | ["help"] => .ok .help
    | _ => .error .invalid
  | _ => .error .invalid

/-- Letters after a dash before the command, and whether notes are wanted. -/
def readLetters (verbose : Bool) : List Char → Except Stop Bool
  | [] => .ok verbose
  | 'v' :: rest => if verbose then .error .invalid else readLetters true rest
  | 'h' :: _ => .error .help
  | 'V' :: _ => .error .version
  | _ => .error .invalid

/-- The command that the arguments ask for. -/
def readArguments (verbose : Bool) : List String → Except Stop Command
  | [] => .error .invalid
  | arg :: rest =>
    if !isOption arg then readCommand arg rest
    else match arg.toList with
      | '-' :: '-' :: _ =>
        match arg with
        | "--verbose" => if verbose then .error .invalid else readArguments true rest
        | "--help" => .error .help
        | "--version" => .error .version
        | _ => .error .invalid
      | letters => do readArguments (← readLetters verbose (letters.drop 1)) rest

/-- The command that the arguments ask for, if they make sense. -/
def Command.ofArguments (args : List String) : Option Command :=
  match readArguments false args with
  | .ok command => some command
  | .error .help => some .help
  | .error .version => some .version
  | .error .invalid => none

end PipeQuery.CommandLine
