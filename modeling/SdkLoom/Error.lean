import SdkLoom.Json.Basic

/-!
# Errors

What can go wrong, by cause, and the one place that puts each cause into words (`Error.message`).
-/

namespace SdkLoom

/-- Why a file could not be read or written. -/
inductive FileFault where
  | missing
  | isDirectory
  | notDirectory
  | exists
  | notText
  | noTemplate
  deriving DecidableEq, Repr

/-- The wording of a file fault. -/
def FileFault.message : FileFault → String
  | .missing => "No such file or directory (os error 2)"
  | .isDirectory => "Is a directory (os error 21)"
  | .notDirectory => "Not a directory (os error 20)"
  | .exists => "File exists (os error 17)"
  | .notText => "stream did not contain valid UTF-8"
  | .noTemplate => "no built-in template"

/-- Why a text is no URL. -/
inductive UrlFault where
  | emptyHost
  | hostName
  | port
  | ipv4
  | ipv6
  | domainCharacter
  | relative
  | relativeOpaque
  | overflow
  deriving DecidableEq, Repr

/-- The wording of a URL fault. -/
def UrlFault.message : UrlFault → String
  | .emptyHost => "empty host"
  | .hostName => "invalid international domain name"
  | .port => "invalid port number"
  | .ipv4 => "invalid IPv4 address"
  | .ipv6 => "invalid IPv6 address"
  | .domainCharacter => "invalid domain character"
  | .relative => "relative URL without a base"
  | .relativeOpaque => "relative URL with a cannot-be-a-base base"
  | .overflow => "URLs more than 4 GB are not supported"

/-- Where in a query an error was found. -/
structure Location where
  line : Int
  column : Int
  deriving DecidableEq, Repr

/-- An entry of the error list of a GraphQL response. -/
structure ResponseError where
  message : String
  locations : List Location
  path : List Json

/-- A response that reports a failure. -/
structure ResponseFailure where
  status : Option Nat
  errors : List ResponseError
  body : String
  message : String

/-- What went wrong. -/
inductive Error where
  | noData
  | unknownConfigFormat (extension : String)
  | unknownSchemaFormat (extension : String)
  | scheme (scheme : String)
  | connection (url : String)
  | refused (url : String)
  | client
  | url (fault : UrlFault)
  | json
  | yaml
  | file (path : String) (fault : FileFault)
  | sdlSyntax
  | unknownType (name : String)
  | response (failure : ResponseFailure)
  | missingRoot (root : String)
  | unknownGenerator (template language : String)
  | render (path : String)

namespace Error

/-- The wording of an error; of malformed documents only the kind is told. -/
def message : Error → String
  | .noData => "config error: introspection response has no data"
  | .unknownConfigFormat ext => "config error: unknown config file format '" ++ ext ++ "'"
  | .unknownSchemaFormat ext => "config error: unknown schema file format '" ++ ext ++ "'"
  | .scheme s => "config error: invalid url scheme: " ++ s ++ ". must be http or https"
  | .connection address => "http error: error sending request for url (" ++ address ++ ")"
  | .refused address => "http error: builder error for url (" ++ address ++ ")"
  | .client => "http error: builder error"
  | .url f => "url error: " ++ f.message
  | .json => "json error:"
  | .yaml => "yaml error:"
  | .file path f => "io error on " ++ path ++ ": " ++ f.message
  | .sdlSyntax => "sdl error: schema parse error"
  | .unknownType name => "sdl error: unknown type '" ++ name ++ "'"
  | .response f => "graphql error: " ++ f.message
  | .missingRoot root => "schema has no " ++ root ++ " root type"
  | .unknownGenerator template language =>
    "unknown code generator '" ++ template ++ "' for language '" ++ language ++ "'"
  | .render path => "failed to render " ++ path

/-- Whether the server refused the caller. -/
def isAuth : Error → Bool
  | .response f => f.status == some 401 || f.status == some 403
  | _ => false

end Error

end SdkLoom
