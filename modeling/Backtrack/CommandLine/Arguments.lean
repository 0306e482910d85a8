import Backtrack.CommandLine.Options
import Backtrack.Text.Digit
import Backtrack.Text.Quoted

/-!
# Arguments

From the arguments to what is asked for. Options and the one operand come in any order. Letters
of options can be written together, a word can be cut short where what is left names one option
only, and two dashes end the options. An argument that begins with a dash and is no option is
an operand if it is a negative number or contains a space.
-/

namespace Backtrack.CommandLine

/-- What an argument is. -/
inductive Argument where
  /-- No option. -/
  | operand (text : String)
  /-- The two dashes that end the options. -/
  | dashes
  /-- An option, by its word or by its letter, and the text written together with it. -/
  | option (flag : Flag) (byWord : Bool) (attached? : Option String)
  /-- Something like an option that is none. -/
  | unknown (text : String)
  deriving DecidableEq, Repr

/-- What can be wrong with the arguments. -/
inductive ArgumentError where
  /-- Several options begin like this. -/
  | ambiguous (text : String) (words : List String)
  /-- An option that takes no text has one. -/
  | ignored (flag : Flag) (text : String)
  /-- An option lacks its text. -/
  | lacking (flag : Flag)
  /-- These arguments are left over. -/
  | unrecognized (texts : List String)
  /-- There is nothing to read. -/
  | nothingToRead
  deriving DecidableEq, Repr

namespace ArgumentError

/-- The words for an error. -/
def message : ArgumentError → String
  | ambiguous text words =>
    "ambiguous option: " ++ text ++ " could match " ++
      ", ".intercalate (words.map ("--" ++ ·))
  | ignored flag text =>
    "argument " ++ flag.title ++ ": ignored explicit argument " ++ Text.quoted text
  | lacking flag => "argument " ++ flag.title ++ ": expected one argument"
  | unrecognized texts => "unrecognized arguments: " ++ " ".intercalate texts
  | nothingToRead => "Give me either an expression or a --file."

end ArgumentError

/-- The text in front of the first equals sign, and the text behind it if there is one. -/
def cutAtEquals (cs : List Char) : List Char × Option String :=
  match cs.dropWhile (· != '=') with
  | [] => (cs, none)
  | _ :: after => (cs.takeWhile (· != '='), some (String.ofList after))

/-- Whether a text is a minus sign and a decimal numeral, with a point or without; one line feed
may follow. -/
def isNegativeNumber (cs : List Char) : Bool :=
  match cs with
  | '-' :: ds =>
    let ds := if ds.getLast? = some '\n' then ds.dropLast else ds
    match ds.dropWhile Text.isDecimal with
    | [] => !ds.isEmpty
    | '.' :: after => !after.isEmpty && after.all Text.isDecimal
    | _ => false
  | _ => false

/-- An argument that begins with a dash and is written in no complete way. -/
def looseArgument (text : String) (cs : List Char) : Argument :=
  if isNegativeNumber cs || cs.contains ' ' then .operand text else .unknown text

/-- What an argument is, as long as no two dashes have come. -/
def Argument.ofString (text : String) : Except ArgumentError Argument :=
  match text.toList with
  | ['-', '-'] => .ok .dashes
  | '-' :: '-' :: cs =>
    let (word, attached?) := cutAtEquals cs
    match Flag.flags.find? (·.word == String.ofList word) with
    | some flag => .ok (.option flag true attached?)
    | none =>
      match Flag.flags.filter fun flag ↦ word.isPrefixOf flag.word.toList with
      | [flag] => .ok (.option flag true attached?)
      | [] => .ok (looseArgument text text.toList)
      | flags => .error (.ambiguous text (flags.map Flag.word))
  | '-' :: c :: cs =>
    match Flag.ofLetter? c, cs with
    | some flag, [] => .ok (.option flag false none)
    | some flag, '=' :: after => .ok (.option flag false (some (String.ofList after)))
    | some flag, cs => .ok (.option flag false (some (String.ofList cs)))
    | none, _ => .ok (looseArgument text text.toList)
  | _ => .ok (.operand text)

/-- What each argument is. -/
def Argument.ofStrings : List String → Except ArgumentError (List Argument)
  | [] => .ok []
  | text :: texts =>
    match Argument.ofString text with
    | .error e => .error e
    | .ok .dashes => .ok (.dashes :: texts.map .operand)
    | .ok a =>
      match Argument.ofStrings texts with
      | .error e => .error e
      | .ok as => .ok (a :: as)

/-- The text that an argument was. -/
def Argument.text : Argument → String
  | operand text => text
  | dashes => "--"
  | option _ _ _ => ""
  | unknown text => text

/-- Something asked for by an option. -/
inductive Request where
  /-- The explanation of the arguments, in place of everything else. -/
  | help
  /-- What a file holds. -/
  | file (name : FileName)
  /-- The tokens. -/
  | tokens
  /-- Every parse result. -/
  | all
  /-- The value. -/
  | evaluate
  /-- More words. -/
  | verbose
  deriving DecidableEq, Repr

/-- What an option asks for that takes no text. -/
def Request.ofFlag? : Flag → Option Request
  | .help => some .help
  | .file => none
  | .tokens => some .tokens
  | .all => some .all
  | .evaluate => some .evaluate
  | .verbose => some .verbose

/-- What one argument with an option asks for: requests, and whether a file is asked for whose
name is in the next argument. An option by its letter that takes no text can be followed by the
letter of another one. -/
def requests (byWord : Bool) : Flag → Option (List Char) →
    Except ArgumentError (List Request × Bool)
  | .file, some cs => .ok ([.file (.ofString (String.ofList cs))], false)
  | flag, none =>
    match Request.ofFlag? flag with
    | some r => .ok ([r], false)
    | none => .ok ([], true)
  | flag, some [] => .error (.ignored flag "")
  | flag, some (c :: cs) =>
    match byWord, Flag.ofLetter? c, Request.ofFlag? flag with
    | false, some next, some r =>
      match requests false next (if cs.isEmpty then none else some cs) with
      | .ok (rs, wants) => .ok (r :: rs, wants)
      | .error e => .error e
    | _, _, _ => .error (.ignored flag (String.ofList (c :: cs)))
termination_by _ attached? => (attached?.map List.length).getD 0
decreasing_by
  split
  · simp
  · simp

/-- The options with one more request, which is no request for the explanation. -/
def Options.with (o : Options) : Request → Options
  | .help => o
  | .file name => { o with file? := some name }
  | .tokens => { o with tokens := true }
  | .all => { o with all := true }
  | .evaluate => { o with evaluate := true }
  | .verbose => { o with verbosity := o.verbosity + 1 }

/-- What the arguments come to. -/
inductive Asked where
  /-- The explanation of the arguments. -/
  | help
  /-- These options. -/
  | options (o : Options)
  deriving DecidableEq, Repr

/-- Take over requests in turn, up to one for the explanation. -/
def takeOver (o : Options) (rs : List Request) : Asked :=
  if rs.contains .help then .help else .options (rs.foldl Options.with o)

/-- Whether any argument is an option or something like one. -/
def anyOption (as : List Argument) : Bool :=
  as.any fun
    | .option _ _ _ => true
    | .unknown _ => true
    | _ => false

/-- The operand among arguments without options, and what is left over: the dashes go with the
operand before or after them. -/
def lastOperand : List Argument → Option String × List Argument
  | .operand text :: .dashes :: as => (some text, as)
  | .operand text :: as => (some text, as)
  | .dashes :: .operand text :: as => (some text, as)
  | .dashes :: as => (none, as)
  | as => (none, as)

/-- Take over the arguments in turn, where `free` says that the operand has not come yet, and
`extras` are arguments left over so far, latest first. -/
def collect (o : Options) (free : Bool) (extras : List String) :
    List Argument → Except ArgumentError Asked
  | [] => finish o extras []
  | .option flag byWord attached? :: as =>
    match requests byWord flag (attached?.map String.toList) with
    | .error e => .error e
    | .ok (rs, false) =>
      match takeOver o rs with
      | .help => .ok .help
      | .options o => collect o free extras as
    | .ok (rs, true) =>
      match as with
      | .operand text :: as =>
        match takeOver o (rs ++ [.file (.ofString text)]) with
        | .help => .ok .help
        | .options o => collect o free extras as
      | _ => .error (.lacking .file)
  | .unknown text :: as => collect o free (text :: extras) as
  | a :: as =>
    if anyOption as then
      if free then collect { o with source? := some a.text } false extras as
      else collect o free (a.text :: extras) as
    else if free then
      let (operand?, left) := lastOperand (a :: as)
      finish { o with source? := operand? } extras left
    else finish o extras (a :: as)
where
  /-- The options, if nothing is left over. -/
  finish (o : Options) (extras : List String) (left : List Argument) :
      Except ArgumentError Asked :=
    match extras.reverse ++ left.map Argument.text with
    | [] => .ok (.options o)
    | texts => .error (.unrecognized texts)

/-- What the arguments ask for. -/
def asked (texts : List String) : Except ArgumentError Asked :=
  match Argument.ofStrings texts with
  | .error e => .error e
  | .ok as => collect .none true [] as

end Backtrack.CommandLine
