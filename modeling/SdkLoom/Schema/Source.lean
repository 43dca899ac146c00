import SdkLoom.Files.Tree
import SdkLoom.Introspection.Transport
import SdkLoom.Schema.OfSdl

/-!
# Sources of schemas

A schema comes from a file, whose extension tells an introspection document from a schema document, or from a service.
-/

namespace SdkLoom

/-- Where a schema comes from. -/
inductive SchemaSource where
  | file (path : String)
  | endpoint (url : Url)

namespace Schema

/-- The formats of schema documents. -/
def isSdlFormat (format : String) : Bool := ["graphql", "graphqls", "gql"].contains format

/-- The schema of a file. -/
def ofFile (tree : FileTree) (path : String) : Except Error Schema := do
  let text ← (tree.read path).mapError (.file path)
  let format := Path.format path
  if format == "json" then ofText text
  else if isSdlFormat format then ofSdl text
  else .error (.unknownSchemaFormat format)

/-- What is noted while the schema of a file is read. -/
def fileNotes (tree : FileTree) (path : String) : List Diagnostic :=
  match tree.read path with
  | .ok text => if isSdlFormat (Path.format path) then sdlNotes text else []
  | .error _ => []

end Schema

namespace SchemaSource

open Introspection

/-- The schema of a source, given how requests are sent. -/
def load (source : SchemaSource) (tree : FileTree) (headers : List Http.Header)
    (send : Request → Except Error Reply) : Except Error Schema :=
  match source with
  | .file path => Schema.ofFile tree path
  | .endpoint url => do
    let client ← Client.make url defaultUserAgent headers
    client.fetchWith send

/-- What is noted while the schema of a source is read. -/
def notes (source : SchemaSource) (tree : FileTree) : List Diagnostic :=
  match source with
  | .file path => Schema.fileNotes tree path
  | .endpoint _ => []

end SchemaSource

end SdkLoom
