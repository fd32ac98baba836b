import LinkQuality.Agent
import LinkQuality.CommandLine.Arguments
import LinkQuality.CommandLine.LogFilter
import LinkQuality.Feed.Run
import LinkQuality.Settings.Reading

/-!
# The program

What the program does with its command line: it tells its version, checks the settings, or runs
the service on samples from the standard input until they end. Whatever it is asked for, the
settings are read and the log filter is looked at before anything is begun.
-/

namespace LinkQuality

/-- What the program says of itself. -/
structure Release where
  version : String := "0.1.0"
  commit : String := "unknown"
  /-- Operating system and processor. -/
  platform : String

/-- The line that tells the version. -/
def Release.line (r : Release) : String :=
  "netquality " ++ r.version ++ " (commit: " ++ r.commit ++ ", " ++ r.platform ++ ")\n"

/-- **What a run of the program leaves behind.** -/
structure Outcome where
  code : Nat
  stdout : String := ""
  stderr : String := ""
  /-- The bodies that have reached an HTTP service. -/
  posted : List Body := []
  deriving DecidableEq, Repr

namespace Outcome

/-- A run that has failed. -/
def failed (why : Failure) : Outcome := { code := 1, stderr := "Error: " ++ why.report ++ "\n" }

/-- A run that has done what it was asked for. -/
def done (stdout : String) : Outcome := { code := 0, stdout }

end Outcome

namespace Invocation

/-- The failure of not being told where the settings are. -/
def missingConfig : Failure := ⟨"--config is required (use --help for usage)", []⟩

/-- Reads the settings, given the text of a file if it can be read. -/
def settings (path : String) (text : Option String) : Except Failure Settings :=
  match text with
  | none => .error ⟨"reading config file " ++ path, ["No such file or directory (os error 2)"]⟩
  | some text =>
    match Settings.ofText text with
    | .error why => .error ⟨"loading config file " ++ path, [why.message]⟩
    | .ok s => .ok s

/-- The log filter of a run: that of the command line, or else that of the settings. -/
def filter (i : Invocation) (s : Settings) : String := i.logLevel.getD s.logLevel

/-- Checks the log filter. -/
def checkFilter (i : Invocation) (s : Settings) : Except Failure Unit :=
  let level := i.filter s
  if LogFilter.isValid level then .ok ()
  else .error ⟨"invalid log level: " ++ level, ["invalid filter directive"]⟩

/-- **What the run goes by**: the file with the settings, and the settings in it. -/
def prepare (i : Invocation) (files : String → Option String) :
    Except Failure (String × Settings) := do
  match i.config with
  | none => .error missingConfig
  | some path =>
    let s ← settings path (files path)
    i.checkFilter s
    .ok (path, s)

end Invocation

variable {τ : Type}

/-- **Runs the service** on samples from the standard input. A feed that cannot be read to its end
is reported, and what came before is written all the same. Gives the agent after its stop. -/
def Agent.serve (network : Network τ) (state : τ) (now : Timestamp) (input : FeedInput)
    (a : Agent (Export τ)) : Except Failure Unit × Agent (Export τ) :=
  match a.launch network state with
  | (.error why, a) => (.error why, a)
  | (.ok _, a) =>
    let run := a.run.map fun r => { r with pipeline := (r.pipeline.feed now input).2 }
    (.ok (), { a with run }.stop now)

/-- **A run of the program.** -/
def CommandLine.run (release : Release) (network : Network τ) (state : τ) (now : Timestamp)
    (files : String → Option String) (input : FeedInput) : CommandLine → Outcome
  | .misuse => { code := 2, stderr := "error: unexpected argument\n\n" ++ usage }
  | .help => .done usage
  | .invocation i =>
    match i.command with
    | some .version => .done release.line
    | command =>
      match i.prepare files, command with
      | .error why, _ => .failed why
      | .ok (path, _), some _ => .done (path ++ ": ok\n")
      | .ok (_, settings), none =>
        let agent : Agent (Export τ) := { settings }
        let (result, agent) := agent.serve network state now input
        let posted := agent.stores.flatMap Export.posted
        match result with
        | .error why => { Outcome.failed why with posted }
        | .ok _ => { Outcome.done "" with posted }

end LinkQuality
