import TreePattern.Cli.Usage

namespace TreePattern.Cli

def unlines (lines : List String) : String :=
  lines.foldl (fun out line ↦ out ++ line ++ "\n") ""

def programHelpText : String := unlines [
  "Command-line interface for the `asty` structural pattern matcher",
  "",
  "Usage: asty [OPTIONS] <COMMAND>",
  "",
  "Commands:",
  "  match  Matches a JSON pattern against a JSON syntax tree",
  "",
  "Options:",
  "      --config-path <FILE>   Reads configuration from a TOML file before applying the environment and flags",
  "      --log-filter <FILTER>  Tracing filter expression, for example `asty=debug`",
  "      --log-format <FORMAT>  Log line format: `json` or `compact`",
  "  -h, --help                 Print help",
  "  -V, --version              Print version"]

def matchSummaryText : String := unlines [
  "Matches a JSON pattern against a JSON syntax tree",
  "",
  "Usage: asty match [OPTIONS] --pattern <FILE>",
  "",
  "Options:",
  "      --config-path <FILE>    Reads configuration from a TOML file before applying the environment and flags",
  "      --pattern <FILE>        Pattern file in the `NodeType`/`Rules` JSON format",
  "      --input <FILE>          Syntax tree file; `-` or no value reads standard input",
  "      --log-filter <FILTER>   Tracing filter expression, for example `asty=debug`",
  "      --log-format <FORMAT>   Log line format: `json` or `compact`",
  "      --output <OUTPUT>       Controls how results are rendered [possible values: human, json]",
  "      --max-search-nodes <N>  Aborts the match after visiting this many nodes",
  "  -h, --help                  Print help (see more with '--help')"]

def matchHelpText : String := unlines [
  "Matches a JSON pattern against a JSON syntax tree",
  "",
  "Usage: asty match [OPTIONS] --pattern <FILE>",
  "",
  "Options:",
  "      --config-path <FILE>",
  "          Reads configuration from a TOML file before applying the environment and flags",
  "",
  "      --pattern <FILE>",
  "          Pattern file in the `NodeType`/`Rules` JSON format",
  "",
  "      --input <FILE>",
  "          Syntax tree file; `-` or no value reads standard input",
  "",
  "      --log-filter <FILTER>",
  "          Tracing filter expression, for example `asty=debug`",
  "",
  "      --log-format <FORMAT>",
  "          Log line format: `json` or `compact`",
  "",
  "      --output <OUTPUT>",
  "          Controls how results are rendered",
  "",
  "          Possible values:",
  "          - human: One indented line per result",
  "          - json:  A JSON array of result objects",
  "",
  "      --max-search-nodes <N>",
  "          Aborts the match after visiting this many nodes",
  "",
  "  -h, --help",
  "          Print help (see a summary with '-h')"]

def Notice.text : Notice → String
  | .programHelp => programHelpText
  | .matchSummary => matchSummaryText
  | .matchHelp => matchHelpText
  | .configUsage => "Usage: asty [OPTIONS]\n"
  | .version => "asty 0.1.0\n"

structure Reply where
  text : String
  /-- Whether the text was asked for. If not, it is an error. -/
  informs : Bool
deriving DecidableEq

/-- The reply to words that no run follows from; of an error, its first line only. -/
def Stop.reply : Stop → Reply
  | .notice shown => ⟨shown.text, true⟩
  | .usage error => ⟨error.headline, false⟩

end TreePattern.Cli
