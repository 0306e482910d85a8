import Backtrack.File.Surroundings
import Backtrack.Proofs.CommandLine.Outcome
import Backtrack.Proofs.File.Utf8
import Backtrack.Proofs.Report.Alike
import Backtrack.Proofs.Token.LineEnd

/-!
# Reading the source from a file

A text can stand among the arguments, or in a file that they name. What is read from the file has
line feeds for its line ends, so it need not be the text, but it has the same tokens. All that the
program prints depends on the tokens alone, and so does how it ends; only the issues may quote the
text. So both ways come to the same: `file_source_agree`.
-/

namespace Backtrack.CommandLine

open Console

variable {α β : Type}

/-- Options that request the same output, with any verbosities. -/
structure Options.PrintSame (o o' : Options) : Prop where
  /-- Both request the tokens, or neither does. -/
  tokens : o'.tokens = o.tokens
  /-- Both request the parse results, or neither does. -/
  all : o'.all = o.all
  /-- Both request the value, or neither does. -/
  evaluate : o'.evaluate = o.evaluate

/-! ### Two texts with the same tokens -/

/-- Giving up with one issue works alike on consoles that are alike. -/
theorem worksAlike_giveUp (i i' : Issue) : WorksAlike (giveUp i) (giveUp i') :=
  (worksAlike_record i i').bind fun _ ↦ worksAlike_printIssues.bind fun _ ↦ worksAlike_pure 1

/-- Showing a number works alike on consoles that are alike. -/
theorem worksAlike_showNumber (lang : Language α β) (a : α) :
    WorksAlike (showNumber lang a) (showNumber lang a) := by
  rw [showNumber]
  split
  · exact worksAlike_throw _
  · exact worksAlike_giveUp _ _
  · exact (worksAlike_printWritten _).bind fun _ ↦ worksAlike_pure 0

/-- Showing a value works alike under options that request the same output. -/
theorem worksAlike_showValue (lang : Language α β) (o : Options) (a : α) :
    WorksAlike (showValue lang o a) (showValue lang o a) := by
  refine worksAlike_printIssues.bind fun _ ↦
    (worksAlike_printWritten (lang.inspect? a)).bind fun _ ↦ ?_
  split
  · exact worksAlike_showNumber lang a
  · exact worksAlike_pure 0

section Texts

variable {text text' : String} (h : Token.scan text' = Token.scan text)
include h

/-- Texts with the same tokens are read and shown alike. -/
theorem worksAlike_readAndShow (lang : Language α β) (o : Options) :
    WorksAlike (readAndShow lang o text) (readAndShow lang o text') := by
  refine (worksAlike_read h lang.entry).bind fun value? ↦ ?_
  split
  · exact worksAlike_showValue lang o _
  · exact worksAlike_printIssues.bind fun _ ↦ worksAlike_pure 1

/-- Texts with the same tokens are processed alike. -/
theorem worksAlike_process (lang : Language α β) (o : Options) :
    WorksAlike (process lang o text) (process lang o text') := by
  refine (worksAlike_scan h).bind fun ts ↦ .behind_lines ?_ o.tokens Token.inspect? ts
  split
  · split
    · next rs _ => exact (worksAlike_readAndShow h lang o).behind_lines true (resultLine? lang) rs
    · exact worksAlike_giveUp _ _
    · exact worksAlike_throw _
  · exact worksAlike_readAndShow h lang o

end Texts

/-! ### A text and a file -/

/-- Processing a text depends on the options only through the requested output. -/
theorem Options.PrintSame.process_eq {o o' : Options} (h : o.PrintSame o') (lang : Language α β)
    (text : String) : process lang o' text = process lang o text := by
  have hvalue (a : α) : showValue lang o' a = showValue lang o a := by
    rw [showValue, showValue, h.evaluate]
  have hread : readAndShow lang o' text = readAndShow lang o text := by
    simp only [readAndShow, hvalue]
  simp only [process, hread, h.tokens, h.all]

/-- Given a file that holds a text as UTF-8, the program processes the text with its line ends
unified. -/
theorem program_eq_of_file {arguments : List String} {o : Options} {path : Path} {text : String}
    (hasked : asked arguments = .ok (.options o)) (hfile : o.file? = some (.path path))
    {files : Path → ReadResult} (hfiles : files path = .content text.toUTF8.data.toList)
    (lang : Language α β) (dice : Dice) :
    program lang files dice arguments =
      let done := perform (process lang o (String.ofList (Text.unifyNewlines text.toList)))
        (Console.fresh (.empty (o.verbosity != 0) Report.defaultLimit) dice)
      ⟨done.1.map some, done.2.out, done.2.err⟩ := by
  have hne : o ≠ .none := by
    rintro rfl
    cases hfile
  have hrun : run lang files o =
      process lang o (String.ofList (Text.unifyNewlines text.toList)) := by
    rw [run, hfile]
    simp only [hfiles, Utf8.decode_toUTF8]
  rw [program_of_asked hasked hne, hrun]

/-- A text that stands among the arguments, and the same text in a file that they name, written as
UTF-8 with whatever line ends. If the same is to be printed, the program ends both ways with the
same status, or with the same interruption, and it prints the same. How much more it is to say does
not matter, and neither do the dice. -/
theorem file_source_agree {arguments arguments' : List String} {o o' : Options} {text : String}
    {path : Path} {files : Path → ReadResult}
    (hasked : asked arguments = .ok (.options o)) (hnofile : o.file? = none)
    (hsource : o.source? = some text)
    (hasked' : asked arguments' = .ok (.options o')) (hfile : o'.file? = some (.path path))
    (hfiles : files path = .content text.toUTF8.data.toList) (hsame : o.PrintSame o')
    (lang : Language α β) (dice dice' : Dice) :
    (program lang files dice' arguments').status = (program lang files dice arguments).status ∧
      (program lang files dice' arguments').out = (program lang files dice arguments).out := by
  have hscan := Token.scan_unifyNewlines text
  have hfresh (verbose verbose' : Bool) :
      Alike (Console.fresh (.empty verbose Report.defaultLimit) dice)
        (Console.fresh (.empty verbose' Report.defaultLimit) dice') := ⟨rfl, rfl, rfl⟩
  obtain ⟨hresult, hconsole⟩ :=
    worksAlike_process hscan lang o _ _ (hfresh (o.verbosity != 0) (o'.verbosity != 0))
  rw [program_eq hasked hnofile hsource, program_eq_of_file hasked' hfile hfiles,
    hsame.process_eq]
  exact ⟨congrArg (Except.map some) hresult, hconsole.out⟩

/-- A text with a carriage return in front of a line feed and one alone, and with a letter of two
bytes, which is a symbol that no expression has. -/
theorem file_source_agree_carriageReturns :
    let text := "let x = 1\r\nin x\r+ é"
    let path := Path.ofString "a.expr"
    let files := (FileTree.surroundings.addFile path text.toUTF8.data.toList).read
    let arguments := written [.tokens, .all, .evaluate] text
    let arguments' := writtenFile [.verbose, .evaluate, .all, .tokens] "a.expr"
    asked arguments = .ok (.options (.ofFlags [.tokens, .all, .evaluate] text)) ∧
      asked arguments' =
        .ok (.options { Options.ofFlags [.verbose, .evaluate, .all, .tokens] "a.expr" with
          source? := .none
          file? := some (.path path) }) ∧
      files path = .content text.toUTF8.data.toList ∧
      Text.unifyNewlines text.toList = "let x = 1\nin x\n+ é".toList ∧
      (program expressions files ⟨[1], 0⟩ arguments').status =
        (program expressions files ⟨[], 0⟩ arguments).status ∧
      (program expressions files ⟨[1], 0⟩ arguments').out =
        (program expressions files ⟨[], 0⟩ arguments).out := by
  intro text path files arguments arguments'
  have hchoice : ∀ flag ∈ [Flag.tokens, .all, .evaluate], flag.isChoice = true := by decide
  have hchoice' : ∀ flag ∈ [Flag.verbose, .evaluate, .all, .tokens], flag.isChoice = true := by
    decide
  have hasked := asked_written hchoice text
  have hasked' := asked_writtenFile hchoice' "a.expr"
  have hread (bytes : List UInt8) :
      (FileTree.surroundings.addFile (.ofString "a.expr") bytes).read (.ofString "a.expr") =
        .content bytes := rfl
  have hfiles : files path = .content text.toUTF8.data.toList := hread _
  have hnewlines : Text.unifyNewlines text.toList = "let x = 1\nin x\n+ é".toList := by decide
  exact ⟨hasked, hasked', hfiles, hnewlines, file_source_agree hasked rfl rfl hasked' rfl hfiles
    ⟨rfl, rfl, rfl⟩ expressions ⟨[], 0⟩ ⟨[1], 0⟩⟩

end Backtrack.CommandLine
