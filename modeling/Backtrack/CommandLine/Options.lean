import Backtrack.File.Path

/-!
# Options

What can be asked for on the command line, and the texts that explain it.
-/

namespace Backtrack.CommandLine

/-- The file that an option names. -/
inductive FileName where
  /-- The file of a path. -/
  | path (p : Path)
  /-- No file: two dashes stand where its name should be. -/
  | dashes
  deriving DecidableEq, Repr

/-- The file that a text names. -/
def FileName.ofString (s : String) : FileName :=
  if s == "--" then dashes else path (.ofString s)

/-- What is asked for. -/
structure Options where
  /-- The expression to read. -/
  source? : Option String
  /-- The file to read the expression from. -/
  file? : Option FileName
  /-- Whether to print the tokens. -/
  tokens : Bool
  /-- Whether to print every parse result. -/
  all : Bool
  /-- Whether to print the value. -/
  evaluate : Bool
  /-- How much more to say. -/
  verbosity : Nat
  deriving DecidableEq, Repr

/-- Nothing is asked for. -/
def Options.none : Options := ⟨.none, .none, false, false, false, 0⟩

/-- The options. -/
inductive Flag where
  /-- Explain the arguments. -/
  | help
  /-- Read from a file. -/
  | file
  /-- Print the tokens. -/
  | tokens
  /-- Print every parse result. -/
  | all
  /-- Print the value. -/
  | evaluate
  /-- Say more. -/
  | verbose
  deriving DecidableEq, Repr

namespace Flag

/-- All the options, in the order in which they are explained. -/
def flags : List Flag := [help, file, tokens, all, evaluate, verbose]

/-- The letter of an option. -/
def letter : Flag → Char
  | help => 'h'
  | file => 'f'
  | tokens => 't'
  | all => 'a'
  | evaluate => 'e'
  | verbose => 'v'

/-- The word of an option. -/
def word : Flag → String
  | help => "help"
  | file => "file"
  | tokens => "tokens"
  | all => "all"
  | evaluate => "evaluate"
  | verbose => "verbose"

/-- Both ways to write an option. -/
def title (f : Flag) : String := "-" ++ String.singleton f.letter ++ "/--" ++ f.word

/-- The option of a letter. -/
def ofLetter? (c : Char) : Option Flag := flags.find? (·.letter == c)

end Flag

/-- The shortest explanation. -/
def usage : String := "usage: parsnip [-h] [-f FILE] [-t] [-a] [-e] [-v] [source]\n"

/-- The explanation of the arguments. -/
def help : String :=
  usage ++ "\n" ++
  "Parse (and perhaps evaluate) an expression.\n" ++
  "\n" ++
  "positional arguments:\n" ++
  "  source                try \"let x = 1 in x + 2\" for example.\n" ++
  "\n" ++
  "options:\n" ++
  "  -h, --help            show this help message and exit\n" ++
  "  -f FILE, --file FILE  Read the expression from this file instead.\n" ++
  "  -t, --tokens          Print the tokens before parsing.\n" ++
  "  -a, --all             Print every entry of the parse result set, partial\n" ++
  "                        parses included.\n" ++
  "  -e, --evaluate        Evaluate the expression after parsing it.\n" ++
  "  -v, --verbose         Say more about what's going on.\n"

/-- What is printed where there are no arguments. -/
def introduction : String :=
  "This is a front end for a tiny expression language: integers, names, \"+\", and \"let\".\n" ++
  "\n" ++
  usage ++
  "\n\n" ++
  "For example:\n" ++
  "\n" ++
  "    parsnip \"let x = 1 in x + 2\"\n" ++
  "\n" ++
  "will print the tree for that expression, or else try to explain why not.\n" ++
  "\n" ++
  "    parsnip -e \"let x = 1 in x + 2\"\n" ++
  "\n" ++
  "will also work out its value.\n" ++
  "\n" ++
  "    parsnip -h\n" ++
  "\n" ++
  "will explain all the arguments."

end Backtrack.CommandLine
