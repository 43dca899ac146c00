import SdkLoom.CommandLine.Options
import SdkLoom.Text.Lines

/-!
# Usage of the command line

The overview of the options, and the wording of what is wrong with a command line.
-/

namespace SdkLoom.CommandLine

/-- An option in the overview: how it is written, and what it does. -/
structure OptionHelp where
  spelling : String
  purpose : String

/-- The options in order. -/
def optionHelps : List OptionHelp := [
  ⟨"-t, --target <DIR>", "Output directory; `.sdkgen.yml` is looked up here"⟩,
  ⟨"-c, --config <FILE>", "Explicit config file (.yml, .yaml or .json)"⟩,
  ⟨"-s, --env <NAME>", "Environment to introspect"⟩,
  ⟨"-l, --language <LANGUAGE>", "Target language"⟩,
  ⟨"    --template <TEMPLATE>", "Generator family"⟩,
  ⟨"    --schema <FILE>", "Read the schema from a file instead of introspecting"⟩,
  ⟨"    --endpoint <URL>", "Introspect this endpoint instead of the configured one"⟩,
  ⟨"    --header <HEADER>", "Extra request header, `name: value`"⟩,
  ⟨"    --templates <DIR>", "Template root directory, replacing the built-in go and rust templates"⟩,
  ⟨"    --package-name <PACKAGE_NAME>", "Package name handed to the templates"⟩,
  ⟨"    --var <KEY=VALUE>", "Extra template variable, `key=value`"⟩,
  ⟨"    --dump-model <FILE>", "Also write the service definition as json (`-` for stdout)"⟩,
  ⟨"    --list-targets", "List the registered generators and exit"⟩,
  ⟨"-v, --verbose...", "Increase log verbosity (-v info, -vv debug)"⟩,
  ⟨"-h, --help", "Print help"⟩,
  ⟨"-V, --version", "Print version"⟩]

/-- A text filled up with spaces to a width. -/
def padTo (width : Nat) (s : String) : String := s ++ String.ofList (List.replicate (width - s.length) ' ')

/-- The overview of the options. -/
def helpText : String :=
  let width := optionHelps.foldl (fun w o => max w o.spelling.length) 0
  Text.unlines (
    ["Generate an SDK package from a GraphQL schema", "", "Usage: gql-sdkgen [OPTIONS]", "", "Options:"]
    ++ optionHelps.map fun o => "  " ++ padTo width o.spelling ++ "  " ++ o.purpose)

/-- The long name of a flag. -/
def Flag.longName : Flag → String
  | .target => "--target"
  | .config => "--config"
  | .source => "--env"
  | .language => "--language"
  | .template => "--template"
  | .schema => "--schema"
  | .endpoint => "--endpoint"
  | .header => "--header"
  | .templates => "--templates"
  | .packageName => "--package-name"
  | .var => "--var"
  | .dumpModel => "--dump-model"
  | .listTargets => "--list-targets"
  | .verbose => "--verbose"
  | .help => "--help"
  | .version => "--version"

/-- The wording of a fault. -/
def UsageFault.message : UsageFault → String
  | .unexpected argument => "error: unexpected argument '" ++ argument ++ "' found"
  | .missingValue flag => "error: a value is required for '" ++ flag.longName ++ "' but none was supplied"
  | .unexpectedValue flag => "error: unexpected value for '" ++ flag.longName ++ "' found; no more were expected"
  | .invalidValue flag value => "error: invalid value '" ++ value ++ "' for '" ++ flag.longName ++ "'"
  | .repeated flag => "error: the argument '" ++ flag.longName ++ "' cannot be used multiple times"
  | .conflict first second =>
    "error: the argument '" ++ first.longName ++ "' cannot be used with '" ++ second.longName ++ "'"

end SdkLoom.CommandLine
