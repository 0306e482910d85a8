import Backtrack.CommandLine.Arguments

/-!
# Asking for a text or a file

Options that take no text can be written by their letters in any order and any number of times, and
behind two dashes any text can follow, also one that looks like an option. `asked_written` says that
exactly this is what such arguments ask for, so that every choice of these options is open for every
text. `asked_writtenFile` says the same of a file whose name is written together with its option.
-/

namespace Backtrack.CommandLine

/-- Arguments for a text: the letters of options, two dashes and the text. -/
def written (flags : List Flag) (text : String) : List String :=
  flags.map (fun flag ↦ String.ofList ['-', flag.letter]) ++ ["--", text]

/-- Arguments for a file: the letters of options and the option that names the file. -/
def writtenFile (flags : List Flag) (name : String) : List String :=
  flags.map (fun flag ↦ String.ofList ['-', flag.letter]) ++ ["--file=" ++ name]

/-- An option that selects what is printed of a text, or how much is said besides. -/
def Flag.isChoice : Flag → Bool
  | .help => false
  | .file => false
  | _ => true

/-- The options that a list of choices sets for a text. -/
def Options.ofFlags (flags : List Flag) (text : String) : Options where
  source? := some text
  file? := .none
  tokens := flags.contains .tokens
  all := flags.contains .all
  evaluate := flags.contains .evaluate
  verbosity := flags.count .verbose

/-- An argument of a dash and the letter of an option is recognized as that option. -/
theorem ofString_letter (flag : Flag) :
    Argument.ofString (String.ofList ['-', flag.letter]) = .ok (.option flag false none) := by
  cases flag <;> rfl

/-- The file option keeps everything behind its equals sign as the name of the file. -/
theorem ofString_file (name : String) :
    Argument.ofString ("--file=" ++ name) = .ok (.option .file true (some name)) := by
  have htext : ("--file=" ++ name).toList =
      '-' :: '-' :: 'f' :: 'i' :: 'l' :: 'e' :: '=' :: name.toList := String.toList_append
  have hcut : cutAtEquals ('f' :: 'i' :: 'l' :: 'e' :: '=' :: name.toList) =
      (['f', 'i', 'l', 'e'], some name) := by
    simp [cutAtEquals]
  rw [Argument.ofString, htext]
  simp only [hcut]
  rfl

/-- Letters of options in front of other arguments are recognized one by one. -/
theorem ofStrings_letters (flags : List Flag) {texts : List String} {as : List Argument}
    (h : Argument.ofStrings texts = .ok as) :
    Argument.ofStrings (flags.map (fun flag ↦ String.ofList ['-', flag.letter]) ++ texts) =
      .ok (flags.map (fun flag ↦ .option flag false none) ++ as) := by
  induction flags with
  | nil => exact h
  | cons flag flags ih =>
    rw [List.map_cons, List.cons_append, Argument.ofStrings, ofString_letter]
    simp only [ih]
    rfl

/-- A choice contributes exactly one request. -/
theorem requests_of_isChoice {flag : Flag} (h : flag.isChoice = true) :
    ∃ r, Request.ofFlag? flag = some r ∧ r ≠ .help ∧
      requests false flag none = .ok ([r], false) := by
  have hsome : ∃ r, Request.ofFlag? flag = some r ∧ r ≠ .help := by
    cases flag with
    | help => cases h
    | file => cases h
    | tokens => exact ⟨.tokens, rfl, nofun⟩
    | all => exact ⟨.all, rfl, nofun⟩
    | evaluate => exact ⟨.evaluate, rfl, nofun⟩
    | verbose => exact ⟨.verbose, rfl, nofun⟩
  obtain ⟨r, hr, hne⟩ := hsome
  refine ⟨r, hr, hne, ?_⟩
  rw [requests, hr]

/-- Options extended by one choice. -/
def Options.choose (o : Options) (flag : Flag) : Options :=
  (Request.ofFlag? flag).elim o o.with

/-- Collecting the arguments takes leading choices over in turn. -/
theorem collect_choices {flags : List Flag} (h : ∀ flag ∈ flags, flag.isChoice = true)
    (o : Options) (as : List Argument) :
    collect o true [] (flags.map (fun flag ↦ .option flag false none) ++ as) =
      collect (flags.foldl Options.choose o) true [] as := by
  induction flags generalizing o with
  | nil => rfl
  | cons flag flags ih =>
    obtain ⟨r, hr, hne, hrequests⟩ := requests_of_isChoice (h flag List.mem_cons_self)
    have htake : takeOver o [r] = .options (o.choose flag) := by
      rw [takeOver, Options.choose, hr]
      simp [hne.symm]
    rw [List.map_cons, List.cons_append, collect]
    simp only [Option.map_none, hrequests, htake]
    exact ih (fun flag hflag ↦ h flag (List.mem_cons_of_mem _ hflag)) _

/-- Choices taken over in turn set every flag that occurs among them, and add one to the verbosity
for each occurrence of that flag. -/
theorem foldl_choose (flags : List Flag) (o : Options) :
    flags.foldl Options.choose o =
      { o with
        tokens := o.tokens || flags.contains .tokens
        all := o.all || flags.contains .all
        evaluate := o.evaluate || flags.contains .evaluate
        verbosity := o.verbosity + flags.count .verbose } := by
  induction flags generalizing o with
  | nil => simp
  | cons flag flags ih =>
    rw [List.foldl_cons, ih]
    cases flag with
    | verbose =>
      simp [Options.choose, Request.ofFlag?, Options.with]
      omega
    | _ => simp [Options.choose, Request.ofFlag?, Options.with]

/-- For every text and every list of choices there are arguments that ask for exactly these. -/
theorem asked_written {flags : List Flag} (h : ∀ flag ∈ flags, flag.isChoice = true)
    (text : String) : asked (written flags text) = .ok (.options (.ofFlags flags text)) := by
  have hbehind : Argument.ofStrings ["--", text] = .ok [.dashes, .operand text] := rfl
  have hcollect (o : Options) : collect o true [] [.dashes, .operand text] =
      .ok (.options { o with source? := some text }) := rfl
  rw [asked, written, ofStrings_letters flags hbehind]
  simp only [collect_choices h, hcollect, foldl_choose]
  simp [Options.none, Options.ofFlags]

/-- For every file name and every list of choices there are arguments that ask for exactly these. -/
theorem asked_writtenFile {flags : List Flag} (h : ∀ flag ∈ flags, flag.isChoice = true)
    (name : String) :
    asked (writtenFile flags name) =
      .ok (.options { Options.ofFlags flags name with
        source? := .none
        file? := some (.ofString name) }) := by
  have hbehind : Argument.ofStrings ["--file=" ++ name] = .ok [.option .file true (some name)] := by
    rw [Argument.ofStrings, ofString_file]
    rfl
  have hcollect (o : Options) : collect o true [] [.option .file true (some name)] =
      .ok (.options { o with file? := some (.ofString name) }) := by
    simp [collect, requests, takeOver, Options.with, collect.finish]
  rw [asked, writtenFile, ofStrings_letters flags hbehind]
  simp only [collect_choices h, hcollect, foldl_choose]
  simp [Options.none, Options.ofFlags]

end Backtrack.CommandLine
