import SdkLoom.Http.Header
import SdkLoom.Url.Basic

/-!
# Options of the command line

Options are read from left to right, and the first fault ends the reading. A value stands after its option, or follows an
equals sign; short options without values can share one dash. Asking for the version ends the reading where it stands.
-/

namespace SdkLoom.CommandLine

/-- What can be asked for. -/
inductive Flag where
  | target
  | config
  | source
  | language
  | template
  | schema
  | endpoint
  | header
  | templates
  | packageName
  | var
  | dumpModel
  | listTargets
  | verbose
  | help
  | version
  deriving DecidableEq

namespace Flag

/-- The flag of a long name. -/
def ofLong? : String → Option Flag
  | "target" => some .target
  | "config" => some .config
  | "env" => some .source
  | "source" => some .source
  | "language" => some .language
  | "template" => some .template
  | "schema" => some .schema
  | "endpoint" => some .endpoint
  | "header" => some .header
  | "templates" => some .templates
  | "package-name" => some .packageName
  | "var" => some .var
  | "dump-model" => some .dumpModel
  | "list-targets" => some .listTargets
  | "verbose" => some .verbose
  | "help" => some .help
  | "version" => some .version
  | _ => none

/-- The flag of a short name. -/
def ofShort? : Char → Option Flag
  | 't' => some .target
  | 'c' => some .config
  | 's' => some .source
  | 'l' => some .language
  | 'v' => some .verbose
  | 'h' => some .help
  | 'V' => some .version
  | _ => none

/-- Whether a flag has a value. -/
def takesValue : Flag → Bool
  | .listTargets => false
  | .verbose => false
  | .help => false
  | .version => false
  | _ => true

end Flag

/-- What is wrong with a command line. -/
inductive UsageFault where
  | unexpected (argument : String)
  | missingValue (flag : Flag)
  | unexpectedValue (flag : Flag)
  | invalidValue (flag : Flag) (value : String)
  | repeated (flag : Flag)
  | conflict (first second : Flag)
  deriving DecidableEq

/-- Why reading ended early. -/
inductive Stop where
  | fault (f : UsageFault)
  | help
  | version
  deriving DecidableEq

/-- The options of a run. -/
structure Options where
  target : Option String
  config : Option String
  source : Option String
  language : Option String
  template : Option String
  schema : Option String
  endpoint : Option Url
  headers : List Http.Header
  templates : Option String
  packageName : Option String
  vars : List (String × String)
  dumpModel : Option String
  listTargets : Bool
  verbosity : Nat

namespace Options

/-- No option. -/
def empty : Options where
  target := none
  config := none
  source := none
  language := none
  template := none
  schema := none
  endpoint := none
  headers := []
  templates := none
  packageName := none
  vars := []
  dumpModel := none
  listTargets := false
  verbosity := 0

/-- A value for a setting that may be made once. -/
def once {α : Type} (flag : Flag) (old : Option α) (new : α) : Except Stop (Option α) :=
  if old.isSome then .error (.fault (.repeated flag)) else .ok (some new)

/-- A path, which must not be empty. -/
def path (flag : Flag) (value : String) : Except Stop String :=
  if value == "" then .error (.fault (.missingValue flag)) else .ok value

/-- A variable written with an equals sign between its name and its value; blanks around the name are dropped. -/
def binding? (s : String) : Option (String × String) := do
  let (key, value) ← Text.splitOnce s '='
  let key := Text.trim key
  if key == "" then none else some (key, value)

/-- Notes a flag with its value. -/
def set (o : Options) (flag : Flag) (value : String) : Except Stop Options := do
  let invalid {α : Type} : Except Stop α := .error (.fault (.invalidValue flag value))
  match flag with
  | .target => return { o with target := ← once flag o.target (← path flag value) }
  | .config => return { o with config := ← once flag o.config (← path flag value) }
  | .source => return { o with source := ← once flag o.source value }
  | .language => return { o with language := ← once flag o.language value }
  | .template => return { o with template := ← once flag o.template value }
  | .schema => return { o with schema := ← once flag o.schema (← path flag value) }
  | .endpoint =>
    match Url.parse value with
    | .ok url => return { o with endpoint := ← once flag o.endpoint url }
    | .error _ => invalid
  | .header =>
    match Http.Header.read? value with
    | some h => return { o with headers := o.headers ++ [h] }
    | none => invalid
  | .templates => return { o with templates := ← once flag o.templates (← path flag value) }
  | .packageName => return { o with packageName := ← once flag o.packageName value }
  | .var =>
    match binding? value with
    | some v => return { o with vars := o.vars ++ [v] }
    | none => invalid
  | .dumpModel => return { o with dumpModel := ← once flag o.dumpModel (← path flag value) }
  | _ => .error (.fault (.unexpectedValue flag))

/-- Notes a flag without a value. -/
def raise (o : Options) : Flag → Except Stop Options
  | .listTargets =>
    if o.listTargets then .error (.fault (.repeated .listTargets)) else .ok { o with listTargets := true }
  | .verbose => .ok { o with verbosity := o.verbosity + 1 }
  | .help => .error .help
  | .version => .error .version
  | flag => .error (.fault (.missingValue flag))

/-- Whether an argument is an option rather than a value: a dash alone is a value. -/
def looksLikeFlag (arg : String) : Bool := Text.startsWith arg "-" && arg != "-"

/-- A value without the equals sign before it. -/
def dropEquals : List Char → List Char
  | '=' :: rest => rest
  | cs => cs

/-- Reads short options that share a dash: the options so far, and the flag whose value is the next argument. -/
def cluster (arg : String) (o : Options) : List Char → Except Stop (Options × Option Flag)
  | [] => .ok (o, none)
  | c :: rest =>
    match Flag.ofShort? c with
    | none => .error (.fault (.unexpected arg))
    | some flag =>
      if flag.takesValue then
        if rest.isEmpty then .ok (o, some flag)
        else (o.set flag (String.ofList (dropEquals rest))).map (·, none)
      else do cluster arg (← o.raise flag) rest

/-- Reads a long option: the options so far, and the flag whose value is the next argument. -/
def long (arg : String) (o : Options) (body : String) : Except Stop (Options × Option Flag) :=
  let (name, value) := match Text.splitOnce body '=' with
    | some (name, value) => (name, some value)
    | none => (body, none)
  match Flag.ofLong? name with
  | none => .error (.fault (.unexpected arg))
  | some flag =>
    match flag.takesValue, value with
    | true, some v => (o.set flag v).map (·, none)
    | true, none => .ok (o, some flag)
    | false, some _ => .error (.fault (.unexpectedValue flag))
    | false, none => (o.raise flag).map (·, none)

/-- Reads one argument that is an option: the options so far, and the flag whose value is the next argument. -/
def argument (o : Options) (arg : String) : Except Stop (Options × Option Flag) :=
  if !looksLikeFlag arg then .error (.fault (.unexpected arg))
  else match Text.stripHead arg "--" with
    | some body => long arg o body
    | none => cluster arg o (arg.toList.drop 1)

/-- Reads arguments; `pending` is a flag whose value comes next. After two dashes nothing may follow. -/
def readFrom (o : Options) (pending : Option Flag) : List String → Except Stop Options
  | [] =>
    match pending with
    | some flag => .error (.fault (.missingValue flag))
    | none => .ok o
  | arg :: rest =>
    match pending with
    | some flag =>
      if looksLikeFlag arg then .error (.fault (.missingValue flag))
      else do readFrom (← o.set flag arg) none rest
    | none =>
      if arg == "--" then
        match rest with
        | [] => .ok o
        | extra :: _ => .error (.fault (.unexpected extra))
      else do
        let (o, pending) ← o.argument arg
        readFrom o pending rest

/-- Reads a command line. A schema file and an endpoint exclude each other. -/
def read (args : List String) : Except Stop Options := do
  let o ← readFrom .empty none args
  if o.schema.isSome && o.endpoint.isSome then .error (.fault (.conflict .schema .endpoint)) else .ok o

end Options

end SdkLoom.CommandLine
