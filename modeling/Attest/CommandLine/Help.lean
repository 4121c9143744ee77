/-
  What the command line tells about itself.
-/
namespace Attest.CommandLine

def ofLines (lines : List String) : String := String.join (lines.map (· ++ "\n"))

def versionText : String := ofLines ["verdict 0.1.0"]

/-- An option's spelling, and what it does. -/
def optionLine (width : Nat) (spelling words : String) : String :=
  "  " ++ spelling ++ String.ofList (List.replicate (width - spelling.length) ' ') ++ words

def commonHelp (width : Nat) : List String :=
  [optionLine width "-c, --config <FILE>" "Configuration file path",
    optionLine width "-v, --verbose" "Verbose logging",
    optionLine width "-h, --help" "Print help"]

def mainHelp : String :=
  ofLines (["Name the expression behind a failed fluent assertion", "",
    "Usage: verdict [OPTIONS] [COMMAND]", "",
    "Commands:",
    optionLine 9 "explain" "Resolve the asserted expression for a validation call",
    optionLine 9 "config" "Print the effective configuration",
    optionLine 9 "help" "Print this message or the help of the given subcommand(s)", "",
    "Options:"] ++ commonHelp 21 ++ [optionLine 21 "-V, --version" "Print version"])

def explainHelp : String :=
  ofLines (["Resolve the asserted expression for a validation call", "",
    "Usage: verdict explain [OPTIONS] --file <FILE> --line <LINE> --method <METHOD>", "",
    "Options:",
    optionLine 24 "    --file <FILE>" "Source file containing the call",
    optionLine 24 "    --line <LINE>" "1-based line of the call",
    optionLine 24 "    --method <METHOD>" "Validation method name, e.g. `be`",
    optionLine 24 "    --expected <VALUE>"
      "Expected value(s) the check was given; repeat for sequences",
    optionLine 24 "    --sequence" "Treat a single expected value as a one-element sequence",
    optionLine 24 "    --test <TEST>" "Test method name, for log output only",
    optionLine 24 "    --json" "Print the result as JSON"] ++ commonHelp 24)

def configHelp : String :=
  ofLines (["Print the effective configuration", "",
    "Usage: verdict config [OPTIONS]", "",
    "Options:"] ++ commonHelp 21)

def usageHint : String :=
  ofLines ["error: unexpected arguments", "", "For more information, try '--help'."]

/-- Printed when no command is given. -/
def commandHint : String :=
  ofLines ["Run 'verdict explain --help' to resolve a call site, or --help for more options"]

end Attest.CommandLine
