import NavCheck.Command.Run

/-!
# The program

Fetches the environment and the input file, runs the command line, prints what the run gives, and ends with its number.
-/

open NavCheck

/-- The environment that the program was started in. -/
def currentEnvironment : IO Environment := do
  return {
    logFormat := ← IO.getEnv "CHIC_LOG_FORMAT",
    logLevel := ← IO.getEnv "CHIC_LOG_LEVEL",
    tracePipeline := ← IO.getEnv "CHIC_TRACE_PIPELINE",
    reportFormat := ← IO.getEnv "CHIC_ERROR_FORMAT",
    terminal := ← (← IO.getStderr).isTty }

/-- The fault of reading that an error of the system stands for. -/
def faultOf : IO.Error → ReadFault
  | .noFileOrDirectory .. => .missing
  | .inappropriateType _ code _ => if code = 20 then .underFile else .isFolder
  | e => .other (toString e)

/-- The text under a path. -/
def fetch (path : String) : IO (Except ReadFault String) := do
  match ← (IO.FS.readBinFile path).toBaseIO with
  | .ok bytes => return readText bytes
  | .error e => return .error (faultOf e)

def main (words : List String) : IO UInt32 := do
  let env ← currentEnvironment
  let input? := (Invocation.ofWords env words).toOption.bind (·.command.input?)
  let text ← match input? with
    | some path => fetch path
    | none => pure (.error .missing)
  let outcome := runWords env words fun _ => text
  IO.print outcome.stdout
  IO.eprint outcome.stderr
  return outcome.exitCode.toUInt32
