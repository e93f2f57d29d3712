import IdlFront.Text.Quoted

/-! # Command line interfaces

What the program and each of its commands take, and how that is shown:

* `Interface` — the options and the operand of a command, its usage line and its help.
* `Subcommand` — the commands, each with its interface.
* `UsageError` — what can be wrong with arguments, with `UsageError.message` for the wording.
-/

namespace IdlFront

/-! ## Parts -/

/-- What an option does: show the help, or keep the argument behind it. -/
inductive OptionRole where
  | help
  | value
  deriving DecidableEq, Repr

/-- An option and the names it goes by. -/
structure CommandOption where
  names : List String
  role : OptionRole
  deriving DecidableEq, Repr

/-- The number of arguments of an operand. The name of a command takes everything behind it too. -/
inductive Arity where
  | one
  | atMostOne
  | any
  | command
  deriving DecidableEq, Repr

/-- What a command takes. Its help is given line by line, without the usage in front. -/
structure Interface where
  program : String
  synopsis : String
  options : List CommandOption
  operand : String
  arity : Arity
  helpLines : List String
  deriving DecidableEq, Repr

namespace Interface

def usage (i : Interface) : String := "usage: " ++ i.program ++ " " ++ i.synopsis

/-- The help, line by line. -/
def help (i : Interface) : List String := i.usage :: "" :: i.helpLines

def option? (i : Interface) (name : String) : Option CommandOption :=
  i.options.find? fun o => o.names.contains name

/-- All options, each under all its names. -/
def namedOptions (i : Interface) : List (String × CommandOption) :=
  i.options.flatMap fun o => o.names.map fun name => (name, o)

end Interface

/-! ## Commands -/

def helpOption : CommandOption := ⟨["-h", "--help"], .help⟩

/-- The option that says where the output goes. -/
def outputOption : CommandOption := ⟨["-o", "--output"], .value⟩

/-- The commands. -/
inductive Subcommand where
  | check
  | dump
  | build
  deriving DecidableEq, Repr

namespace Subcommand

def all : List Subcommand := [.check, .dump, .build]

def name : Subcommand → String
  | .check => "check"
  | .dump => "dump"
  | .build => "build"

def ofName? (s : String) : Option Subcommand := all.find? fun c => c.name == s

def interface : Subcommand → Interface
  | .check =>
    { program := "xidl check"
      synopsis := "[-h] [paths ...]"
      options := [helpOption]
      operand := "paths"
      arity := .any
      helpLines :=
        ["Parse IDL files and print every lexical and syntax error.",
         "",
         "positional arguments:",
         "  paths       Files or project directories to check (default: sources listed",
         "              in ./.xidl.yaml)",
         "",
         "options:",
         "  -h, --help  show this help message and exit"] }
  | .dump =>
    { program := "xidl dump"
      synopsis := "[-h] [-o OUTPUT] file"
      options := [helpOption, outputOption]
      operand := "file"
      arity := .one
      helpLines :=
        ["Parse one IDL file and emit its parse tree as a JSON artifact.",
         "",
         "positional arguments:",
         "  file                  IDL file to parse",
         "",
         "options:",
         "  -h, --help            show this help message and exit",
         "  -o OUTPUT, --output OUTPUT",
         "                        Write the artifact to this path instead of standard",
         "                        output"] }
  | .build =>
    { program := "xidl build"
      synopsis := "[-h] [directory]"
      options := [helpOption]
      operand := "directory"
      arity := .atMostOne
      helpLines :=
        ["Parse all project sources and write artifacts to the configured build",
         "directory.",
         "",
         "positional arguments:",
         "  directory   Project directory (default: current directory)",
         "",
         "options:",
         "  -h, --help  show this help message and exit"] }

end Subcommand

/-- What the program takes: the name of a command and the arguments of that one. -/
def Interface.xidl : Interface :=
  { program := "xidl"
    synopsis := "[-h] COMMAND ..."
    options := [helpOption]
    operand := "COMMAND"
    arity := .command
    helpLines :=
      ["xidl - IDL lexer and parser",
       "",
       "positional arguments:",
       "  COMMAND",
       "    check     Report syntax errors in IDL files",
       "    dump      Print the parse tree of an IDL file as JSON",
       "    build     Write parse tree artifacts for a project",
       "",
       "options:",
       "  -h, --help  show this help message and exit"] }

/-! ## Errors -/

/-- What can be wrong with arguments. -/
inductive UsageProblem where
  | ambiguousOption (argument : String) (candidates : List String)
  | missingValue (option : CommandOption)
  | unusedValue (option : CommandOption) (value : String)
  | missingOperand (operand : String)
  | unknownCommand (name : String)
  | unrecognized (arguments : List String)
  deriving DecidableEq, Repr

def CommandOption.label (o : CommandOption) : String := "/".intercalate o.names

def UsageProblem.message : UsageProblem → String
  | .ambiguousOption argument candidates =>
    "ambiguous option: " ++ argument ++ " could match " ++ ", ".intercalate candidates
  | .missingValue o => "argument " ++ o.label ++ ": expected one argument"
  | .unusedValue o value =>
    "argument " ++ o.label ++ ": ignored explicit argument " ++ Text.quoted value
  | .missingOperand operand => "the following arguments are required: " ++ operand
  | .unknownCommand name =>
    "argument COMMAND: invalid choice: " ++ Text.quoted name ++ " (choose from "
      ++ ", ".intercalate (Subcommand.all.map fun c => Text.quoted c.name) ++ ")"
  | .unrecognized arguments => "unrecognized arguments: " ++ " ".intercalate arguments

/-- A problem and the interface whose usage is shown with it. -/
structure UsageError where
  interface : Interface
  problem : UsageProblem
  deriving DecidableEq, Repr

def UsageError.lines (e : UsageError) : List String :=
  [e.interface.usage, e.interface.program ++ ": error: " ++ e.problem.message]

end IdlFront
