import MiniPascal.Text.Digit
import MiniPascal.Text.Quoted

/-!
# Command line arguments

Options may stand anywhere before a lone `--`. A long option may be shortened as long as it stays
unique, and may have its value after an equals sign. Short options may share one dash. What looks
like a negative number, or has a blank in it, is no option unless it is known as one.

The first argument that is no option names the program. All further ones, and unknown options, are
left over. They are refused at the end, after every other fault was found.
-/

namespace MiniPascal.CommandLine

/-- The options. -/
inductive Flag where
  | help
  | verbose
  | strict
  | emitTree
  | tree
deriving Repr, DecidableEq

namespace Flag

/-- The ways to write an option in full. -/
def spellings : Flag → List String
  | .help => ["-h", "--help"]
  | .verbose => ["-v"]
  | .strict => ["--strict"]
  | .emitTree => ["--emit-ast"]
  | .tree => ["--ast"]

/-- The option as messages name it. -/
def name (f : Flag) : String := "/".intercalate f.spellings

/-- Whether the option takes the name of a file. -/
def takesFile : Flag → Bool
  | .emitTree | .tree => true
  | _ => false

/-- All options. -/
def all : List Flag := [.help, .verbose, .strict, .emitTree, .tree]

/-- The option written in full. -/
def ofSpelling? (s : String) : Option Flag := all.find? (·.spellings.contains s)

/-- The long spellings that start with a text, with their options. -/
def longMatches (start : String) : List (Flag × String) :=
  all.flatMap fun f =>
    f.spellings.filterMap fun s =>
      if "--".isPrefixOf s && start.isPrefixOf s then some (f, s) else none

end Flag

/-- Why arguments are refused. -/
inductive UsageFault where
  | expectedOne (flag : Flag)
  | ignoredValue (flag : Flag) (value : String)
  | notAllowedWith (flag other : Flag)
  | ambiguous (argument : String) (spellings : List String)
  | unrecognized (arguments : List String)
  | missingProgram
deriving Repr, DecidableEq

/-- The wording of a fault. -/
def UsageFault.message : UsageFault → String
  | .expectedOne flag => "argument " ++ flag.name ++ ": expected one argument"
  | .ignoredValue flag value =>
    "argument " ++ flag.name ++ ": ignored explicit argument " ++ Text.quoted value
  | .notAllowedWith flag other =>
    "argument " ++ flag.name ++ ": not allowed with argument " ++ other.name
  | .ambiguous argument spellings =>
    "ambiguous option: " ++ argument ++ " could match " ++ ", ".intercalate spellings
  | .unrecognized arguments => "unrecognized arguments: " ++ " ".intercalate arguments
  | .missingProgram => "missing program file; or use --emit-ast/--ast"

/-! ## Telling options from other arguments -/

/-- An argument by its looks. -/
inductive Argument where
  /-- No option. -/
  | plain (text : String)
  /-- The mark after which there are no options. -/
  | mark
  /-- An option written with two dashes, and the value after an equals sign. -/
  | long (flag : Flag) (value : Option String)
  /-- An option written with one dash, and what follows its letter. -/
  | short (flag : Flag) (value : Option String)
  /-- An option that is not known. -/
  | unknown (text : String)
deriving Repr, DecidableEq

/-- Whether a text is a minus, digits of any script, and perhaps a point with digits after it. A
line feed at the end is passed over. -/
def isNegativeNumber (s : String) : Bool :=
  match s.toList with
  | '-' :: cs =>
    let cs := if cs.getLast? = some '\n' then cs.dropLast else cs
    let digit (c : Char) : Bool := (Text.plainDigit c).isDigit
    match cs.dropWhile digit with
    | [] => !cs.isEmpty
    | '.' :: places => !places.isEmpty && places.all digit
    | _ => false
  | _ => false

/-- The text before the first equals sign, and the one after it if there is one. -/
def splitAssignment (s : String) : String × Option String :=
  let before := s.toList.takeWhile (· != '=')
  match s.toList.dropWhile (· != '=') with
  | [] => (s, none)
  | _ :: after => (String.ofList before, some (String.ofList after))

/-- An option that is known by its full spelling. -/
def Argument.known (spelling : String) (flag : Flag) (value : Option String) : Argument :=
  if "--".isPrefixOf spelling then .long flag value else .short flag value

/-- An argument that is not known: it may still be meant as no option. -/
def Argument.unfamiliar (s : String) : Argument :=
  if isNegativeNumber s || s.toList.contains ' ' then .plain s else .unknown s

/-- The looks of an argument in front of the mark. -/
def Argument.ofText (s : String) : Except UsageFault Argument :=
  match s.toList with
  | '-' :: second :: rest =>
    let (start, value) := splitAssignment s
    match Flag.ofSpelling? s, Flag.ofSpelling? start with
    | some flag, _ => .ok (.known s flag none)
    | none, some flag => .ok (.known start flag value)
    | none, none =>
      if second = '-' then
        match Flag.longMatches start with
        | [] => .ok (.unfamiliar s)
        | [(flag, _)] => .ok (.long flag value)
        | several => .error (.ambiguous s (several.map (·.2)))
      else
        match Flag.ofSpelling? (String.ofList ['-', second]) with
        | some flag => .ok (.short flag (some (String.ofList rest)))
        | none => .ok (.unfamiliar s)
  | _ => .ok (.plain s)

/-- The looks of all arguments. After the mark there are no options. -/
def Argument.ofTexts : List String → Except UsageFault (List Argument)
  | [] => .ok []
  | s :: rest =>
    if s = "--" then .ok (.mark :: rest.map .plain)
    else do
      let a ← Argument.ofText s
      let as ← ofTexts rest
      return a :: as

/-! ## The settings -/

/-- What the arguments ask for. -/
structure Settings where
  verbosity : Nat := 0
  strict : Bool := false
  emitTree : Option String := none
  tree : Option String := none
  program : Option String := none
  leftOver : List String := []
deriving Repr, DecidableEq, Inhabited

/-- Why the arguments ask for nothing to be run. -/
inductive Exit where
  | help
  | usage (fault : UsageFault)
deriving Repr, DecidableEq

namespace Settings

/-- The settings with an option that takes no file. -/
def withFlag (s : Settings) : Flag → Except Exit Settings
  | .help => .error .help
  | .verbose => .ok { s with verbosity := s.verbosity + 1 }
  | .strict => .ok { s with strict := true }
  | _ => .ok s

/-- The settings with an option and its file. The two such options exclude each other. The mark is
no name of a file, and counts as an empty one. -/
def withFile (s : Settings) (flag : Flag) (file : String) : Except Exit Settings :=
  let file := if file = "--" then "" else file
  match flag with
  | .emitTree =>
    if s.tree.isSome then .error (.usage (.notAllowedWith .emitTree .tree))
    else .ok { s with emitTree := some file }
  | .tree =>
    if s.emitTree.isSome then .error (.usage (.notAllowedWith .tree .emitTree))
    else .ok { s with tree := some file }
  | _ => .ok s

/-- The settings with an argument left over. -/
def leave (s : Settings) (text : String) : Settings :=
  { s with leftOver := s.leftOver ++ [text] }

end Settings

/-- The options that share a dash with the given one, by the letters after it. -/
def sharedDash (flag : Flag) : List Char → Except UsageFault (List Flag)
  | [] => .ok [flag]
  | c :: rest =>
    match Flag.ofSpelling? (String.ofList ['-', c]) with
    | none => .error (.ignoredValue flag (String.ofList (c :: rest)))
    | some next => (sharedDash next rest).map (flag :: ·)

/-- The options of an argument with one dash. An equals sign with nothing after it is a value that
none of them takes. -/
def shortFlags (flag : Flag) : Option String → Except UsageFault (List Flag)
  | none => .ok [flag]
  | some "" => .error (.ignoredValue flag "")
  | some value => sharedDash flag value.toList

/-- The settings that arguments ask for, added to earlier ones. -/
def collect (s : Settings) : List Argument → Except Exit Settings
  | [] => .ok s
  | .plain text :: .mark :: rest =>
    if s.program.isSome then collect ((s.leave text).leave "--") rest
    else collect { s with program := some text } rest
  | .plain text :: rest =>
    if s.program.isSome then collect (s.leave text) rest
    else collect { s with program := some text } rest
  | .mark :: rest => if s.program.isSome then collect (s.leave "--") rest else collect s rest
  | .unknown text :: rest => collect (s.leave text) rest
  | .short flag value :: rest => do
    let flags ← (shortFlags flag value).mapError .usage
    let s ← flags.foldlM Settings.withFlag s
    collect s rest
  | .long flag (some value) :: rest =>
    if flag.takesFile then do
      let s ← s.withFile flag value
      collect s rest
    else .error (.usage (.ignoredValue flag value))
  | .long flag none :: .plain text :: rest =>
    if flag.takesFile then do
      let s ← s.withFile flag text
      collect s rest
    else do
      let s ← s.withFlag flag
      collect s (.plain text :: rest)
  | .long flag none :: rest =>
    if flag.takesFile then .error (.usage (.expectedOne flag))
    else do
      let s ← s.withFlag flag
      collect s rest

/-- The settings that the texts of a command line ask for. -/
def Settings.ofTexts (texts : List String) : Except Exit Settings := do
  let arguments ← (Argument.ofTexts texts).mapError .usage
  let s ← collect {} arguments
  if s.leftOver.isEmpty then return s else .error (.usage (.unrecognized s.leftOver))

end MiniPascal.CommandLine
