/-!
# The command line

Options come first, then perhaps a command, to which nothing can be added. An option with a value
takes it from the same word or from the next one, and none can be given twice.
-/

namespace LinkQuality

/-- A command other than running the service. -/
inductive Command where
  | version
  | checkConfig
  deriving DecidableEq, Repr

/-- **What is asked for on the command line.** -/
structure Invocation where
  /-- The file with the settings. -/
  config : Option String := none
  /-- The log filter that is to hold instead of that in the settings. -/
  logLevel : Option String := none
  /-- Are samples to be read from the standard input? -/
  stdin : Bool := false
  command : Option Command := none
  deriving DecidableEq, Repr

/-- What a command line comes to. -/
inductive CommandLine where
  | invocation (i : Invocation)
  /-- The user is to be told how the program is used. -/
  | help
  /-- The command line makes no sense. -/
  | misuse
  deriving DecidableEq, Repr

namespace CommandLine

/-- How the program is used. -/
def usage : String :=
  "Network-quality sample ingestion service\n\n" ++
  "Usage: netquality [OPTIONS] [COMMAND]\n\n" ++
  "Commands:\n" ++
  "  version       Print version information and exit\n" ++
  "  check-config  Validate the configuration file and exit\n" ++
  "  help          Print this message or the help of the given subcommand(s)\n\n" ++
  "Options:\n" ++
  "  -c, --config <CONFIG>        Path to the YAML configuration file\n" ++
  "      --log-level <LOG_LEVEL>  Logging verbosity level (trace, debug, info, warn, error). " ++
  "Overrides the config file's `log_level`\n" ++
  "      --stdin                  Read NDJSON samples from stdin until EOF, then shut down\n" ++
  "  -h, --help                   Print help\n"

/-- What a word means by itself. -/
inductive Word where
  /-- The file with the settings; without a value the next word is meant. -/
  | config (value : Option String)
  /-- The log filter; without a value the next word is meant. -/
  | logLevel (value : Option String)
  | stdin
  | help
  | command (c : Command)
  | helpCommand
  /-- Nothing that looks like an option is one from here on. -/
  | endOfOptions
  | other
  deriving DecidableEq, Repr

/-- What follows at the end of a word, if it begins in the given way. -/
def after? (start word : List Char) : Option String :=
  if start.isPrefixOf word then some (String.ofList (word.drop start.length)) else none

/-- The value in the word of a short option; an equals sign may stand before it. -/
def shortValue : List Char → String
  | '=' :: cs => String.ofList cs
  | cs => String.ofList cs

/-- Reads a word of several letters after one dash. The first letter decides. -/
def Word.ofShort : List Char → Word
  | ['c'] => .config none
  | 'c' :: cs => .config (some (shortValue cs))
  | 'h' :: _ => .help
  | _ => .other

/-- Reads a word after two dashes. -/
def Word.ofLong (cs : List Char) : Word :=
  match String.ofList cs with
  | "" => .endOfOptions
  | "config" => .config none
  | "log-level" => .logLevel none
  | "stdin" => .stdin
  | "help" => .help
  | _ =>
    match after? "config=".toList cs, after? "log-level=".toList cs with
    | some value, _ => .config (some value)
    | none, some value => .logLevel (some value)
    | none, none => .other

/-- Reads a word. -/
def Word.ofText (text : String) : Word :=
  match text.toList with
  | '-' :: '-' :: cs => .ofLong cs
  | '-' :: cs => .ofShort cs
  | _ =>
    match text with
    | "version" => .command .version
    | "check-config" => .command .checkConfig
    | "help" => .helpCommand
    | _ => .other

/-- Can the word be the value of the option before it? One that looks like an option cannot. -/
def isValue (text : String) : Bool :=
  match text.toList with
  | '-' :: _ :: _ => false
  | _ => true

/-- Sets the file with the settings, once; its name is not empty. -/
def setConfig (value : String) (i : Invocation) : Option Invocation :=
  if i.config.isSome || value = "" then none else some { i with config := some value }

/-- Sets the log filter, once. -/
def setLogLevel (value : String) (i : Invocation) : Option Invocation :=
  if i.logLevel.isSome then none else some { i with logLevel := some value }

/-- Asks for the standard input, once. -/
def setStdin (i : Invocation) : Option Invocation :=
  if i.stdin then none else some { i with stdin := true }

/-- What comes after a command: a request for help, or nothing. -/
def afterCommand (i : Invocation) (words : List String) : CommandLine :=
  match words.map Word.ofText with
  | [] | [.endOfOptions] => .invocation i
  | .help :: _ => .help
  | _ => .misuse

/-- What comes after a request for help about a command. -/
def afterHelp (words : List String) : CommandLine :=
  match words.map Word.ofText with
  | [] | [.command _] | [.helpCommand] => .help
  | _ => .misuse

/-- What reading a word comes to. -/
inductive Step where
  /-- The next word is read, unless the word made no sense. -/
  | goOn (i : Option Invocation)
  /-- The next word is a value. -/
  | await (set : String → Invocation → Option Invocation)
  | finish (result : CommandLine)

/-- What reading a word comes to, given what those before it have asked for and those after it. -/
def Word.step (i : Invocation) (words : List String) : Word → Step
  | .config (some value) => .goOn (setConfig value i)
  | .config none => .await setConfig
  | .logLevel (some value) => .goOn (setLogLevel value i)
  | .logLevel none => .await setLogLevel
  | .stdin => .goOn (setStdin i)
  | .help => .finish .help
  | .command c => .finish (afterCommand { i with command := some c } words)
  | .helpCommand => .finish (afterHelp words)
  | .endOfOptions => .finish (if words.isEmpty then .invocation i else .misuse)
  | .other => .finish .misuse

/-- Reads words, given the option that waits for its value, if there is one, and what the words
before have asked for. -/
def readFrom : Option (String → Invocation → Option Invocation) → Invocation → List String →
    CommandLine
  | none, i, [] => .invocation i
  | some _, _, [] => .misuse
  | some set, i, word :: words =>
    match if isValue word then set word i else none with
    | some i => readFrom none i words
    | none => .misuse
  | none, i, word :: words =>
    match (Word.ofText word).step i words with
    | .goOn (some i) => readFrom none i words
    | .goOn none => .misuse
    | .await set => readFrom (some set) i words
    | .finish result => result

/-- **Reads a command line.** -/
def read (words : List String) : CommandLine := readFrom none {} words

end CommandLine

end LinkQuality
