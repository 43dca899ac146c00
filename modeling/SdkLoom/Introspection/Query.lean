import SdkLoom.Json.Basic
import SdkLoom.Text.Lines

/-!
# The introspection query

What a service is asked for its schema.
-/

namespace SdkLoom.Introspection

/-- The name of the query. -/
def operationName : String := "IntrospectionQuery"

/-- The text of the query. -/
def query : String := Text.unlines [
  "query IntrospectionQuery \x7b",
  "  __schema \x7b",
  "    queryType \x7b",
  "      name",
  "    \x7d",
  "    mutationType \x7b",
  "      name",
  "    \x7d",
  "    subscriptionType \x7b",
  "      name",
  "    \x7d",
  "    types \x7b",
  "      ...FullType",
  "    \x7d",
  "    directives \x7b",
  "      name",
  "      description",
  "      locations",
  "      args \x7b",
  "        ...InputValue",
  "      \x7d",
  "    \x7d",
  "  \x7d",
  "\x7d",
  "",
  "fragment FullType on __Type \x7b",
  "  kind",
  "  name",
  "  description",
  "  fields(includeDeprecated: true) \x7b",
  "    name",
  "    description",
  "    args \x7b",
  "      ...InputValue",
  "    \x7d",
  "    type \x7b",
  "      ...TypeRef",
  "    \x7d",
  "    isDeprecated",
  "    deprecationReason",
  "  \x7d",
  "  inputFields \x7b",
  "    ...InputValue",
  "  \x7d",
  "  interfaces \x7b",
  "    ...TypeRef",
  "  \x7d",
  "  enumValues(includeDeprecated: true) \x7b",
  "    name",
  "    description",
  "    isDeprecated",
  "    deprecationReason",
  "  \x7d",
  "  possibleTypes \x7b",
  "    ...TypeRef",
  "  \x7d",
  "\x7d",
  "",
  "fragment InputValue on __InputValue \x7b",
  "  name",
  "  description",
  "  type \x7b",
  "    ...TypeRef",
  "  \x7d",
  "  defaultValue",
  "\x7d",
  "",
  "fragment TypeRef on __Type \x7b",
  "  kind",
  "  name",
  "  ofType \x7b",
  "    kind",
  "    name",
  "    ofType \x7b",
  "      kind",
  "      name",
  "      ofType \x7b",
  "        kind",
  "        name",
  "        ofType \x7b",
  "          kind",
  "          name",
  "          ofType \x7b",
  "            kind",
  "            name",
  "            ofType \x7b",
  "              kind",
  "              name",
  "              ofType \x7b",
  "                kind",
  "                name",
  "              \x7d",
  "            \x7d",
  "          \x7d",
  "        \x7d",
  "      \x7d",
  "    \x7d",
  "  \x7d",
  "\x7d"]

/-- The body of the request. -/
def requestBody : Json :=
  .obj [("operationName", .str operationName), ("query", .str query), ("variables", .obj [])]

end SdkLoom.Introspection
