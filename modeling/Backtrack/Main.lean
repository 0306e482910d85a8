import Backtrack.CommandLine.Run

/-!
# Running the program

The outer layer: arguments, files, chance and streams.
-/

namespace Backtrack.Main

/-- What is known about a failed attempt to read a file, from the code of the failure, which the
system gives with either sign. -/
def troubleOf (path : Path) (code : UInt32) (details : String) : Trouble :=
  match if code.toNat < 0x80000000 then code.toNat else 0x100000000 - code.toNat with
  | 20 => .notDirectory path
  | 21 => .isDirectory path
  | 36 => .nameTooLong path
  | number => .located (toString number) details.capitalize (Text.quoted path.toString)

/-- The bytes of a file, or why they cannot be read. -/
def readFile (path : Path) : IO ReadResult := do
  try
    let bytes ← IO.FS.readBinFile path.toString
    return .content bytes.toList
  catch
    | .noFileOrDirectory _ _ _ => return .missing
    | .inappropriateType _ code details | .permissionDenied _ code details
    | .invalidArgument _ code details | .resourceExhausted _ code details
    | .noSuchThing _ code details => return .broken (troubleOf path code details)
    | e => return .broken (.remark (toString e))

/-- The file that the arguments name, if they name one. -/
def namedFile? (arguments : List String) : Option Path :=
  match CommandLine.asked arguments with
  | .ok (.options o) =>
    match o.file? with
    | some (.path path) => some path
    | _ => none
  | _ => none

end Backtrack.Main

open Backtrack in
/-- Run the program on the arguments of the process. -/
def main (arguments : List String) : IO UInt32 := do
  let content ← match Main.namedFile? arguments with
    | some path => Main.readFile path
    | none => pure .missing
  IO.setRandSeed (← IO.monoNanosNow)
  let throws ← (List.range 6).mapM fun _ ↦ IO.rand 0 1000000
  let dice : Dice := ⟨throws.map Int.ofNat, 0⟩
  let outcome := CommandLine.program CommandLine.expressions (fun _ ↦ content) dice arguments
  IO.print outcome.out
  IO.eprint outcome.err
  match outcome.status with
  | .ok status => return (status.getD 0).toUInt32
  | .error e =>
    IO.eprintln e.message
    return 1
