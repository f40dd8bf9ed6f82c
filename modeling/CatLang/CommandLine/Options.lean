/-! What the arguments of the command line ask for. -/
namespace CatLang.CommandLine

inductive Flag where
  | tokens
  | printTree
  | fullTree
  | verbose
  | repl
deriving DecidableEq

structure Options where
  path : Option String
  flags : List Flag

inductive Request where
  | run (options : Options)
  | help
  | version
  | misuse

namespace Options

def has (o : Options) (flag : Flag) : Bool := o.flags.contains flag

def addFlag (o : Options) (flag : Flag) : Except Request Options :=
  if o.has flag then .error .misuse else .ok { o with flags := o.flags ++ [flag] }

def addPath (o : Options) (path : String) : Except Request Options :=
  if path.isEmpty ∨ o.path.isSome then .error .misuse else .ok { o with path := some path }

def addLong (o : Options) : String → Except Request Options
  | "tokens" => o.addFlag .tokens
  | "print-ast" => o.addFlag .printTree
  | "debug-ast" => o.addFlag .fullTree
  | "verbose" => o.addFlag .verbose
  | "repl" => o.addFlag .repl
  | "help" => .error .help
  | "version" => .error .version
  | _ => .error .misuse

def addShort (o : Options) : Char → Except Request Options
  | 'v' => o.addFlag .verbose
  | 'i' => o.addFlag .repl
  | 'h' => .error .help
  | 'V' => .error .version
  | _ => .error .misuse

/-- One argument. A single dash is a path. -/
def add (o : Options) (argument : String) : Except Request Options :=
  match argument.toList with
  | '-' :: '-' :: name => o.addLong (String.ofList name)
  | '-' :: c :: rest => (c :: rest).foldlM addShort o
  | _ => o.addPath argument

/-- From left to right; a double dash ends the flags. -/
def addAll (o : Options) : List String → Except Request Options
  | [] => .ok o
  | "--" :: rest => rest.foldlM addPath o
  | argument :: rest => do (← o.add argument).addAll rest

end Options

def Request.ofArguments (arguments : List String) : Request :=
  match Options.addAll ⟨none, []⟩ arguments with
  | .ok options => .run options
  | .error request => request

def helpText : String :=
  String.join (List.map (· ++ "\n") [
    "Program in Cats' Language!",
    "",
    "Usage: mewmew [OPTIONS] [PATH]",
    "",
    "Arguments:",
    "  [PATH]  Path of source file",
    "",
    "Options:",
    "      --tokens     Print the token stream instead of running",
    "      --print-ast  Print the parsed program instead of running",
    "      --debug-ast  Print the syntax tree in its debug form, implies --print-ast",
    "  -v, --verbose    Report each stage on stderr",
    "  -i, --repl       Start an interactive session, after running PATH if given",
    "  -h, --help       Print help",
    "  -V, --version    Print version"])

def misuseText : String :=
  "error: these arguments cannot be used\n\nUsage: mewmew [OPTIONS] [PATH]\n\n"
    ++ "For more information, try '--help'.\n"

def versionText : String := "mewmew 0.1.0\n"

end CatLang.CommandLine
