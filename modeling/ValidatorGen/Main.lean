import ValidatorGen.Command.Run

/-! The command line program. -/

namespace ValidatorGen

/-- The number of a system error, which arrives negated from some calls. -/
def errorNumber (code : UInt32) : Nat := (if code < 0x80000000 then code else 0 - code).toNat

def fileError : IO.Error → FileError
  | .noFileOrDirectory .. => .notFound
  | .inappropriateType _ code _ => if errorNumber code = 21 then .isDirectory else .notDirectory
  | .permissionDenied .. => .system 13 "PermissionDenied" "Permission denied"
  | .invalidArgument _ code details =>
    if errorNumber code = 36 then .nameTooLong
    else .system (errorNumber code) "InvalidInput" details
  | e => .system 0 "Other" (toString e)

def attempt {α : Type} (action : IO α) : IO (Except FileError α) := do
  try return .ok (← action)
  catch e => return .error (fileError e)

def machine : Host IO where
  read path := attempt (IO.FS.readBinFile path)
  write path content := attempt (IO.FS.writeFile path content)
  print := IO.print

def usageText : String :=
  "Usage: bzod gen --input FILE [--output FILE] [--module none|esm|cjs] [--name NAME]\n"
    ++ "       bzod check --input FILE\n"

end ValidatorGen

open ValidatorGen

def main (args : List String) : IO UInt32 := do
  match Command.ofArguments args with
  | .error u =>
    match u with
    | .help => IO.print usageText
    | .misuse => IO.eprint usageText
    return .ofNat u.exitCode
  | .ok command =>
    match ← command.run machine with
    | .ok () => return 0
    | .error e =>
      IO.eprint e.report
      return 1
