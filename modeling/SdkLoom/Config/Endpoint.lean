import SdkLoom.Config.Basic
import SdkLoom.Text.Search
import SdkLoom.Url.Basic

/-!
# Endpoints

The endpoint of a configuration is that of the environment named by its source. If there is no such environment it is that of
the environment `default`, and if that is missing too, or sets no endpoint, a local one.
-/

namespace SdkLoom.Config

/-- The endpoint where none is set. -/
def localEndpoint : String := "http://localhost:4000"

/-- The environment for sources without one of their own. -/
def defaultEnv : String := "default"

/-- What stands for the name of the source in an endpoint. -/
def sourcePlaceholder : String := "\x7b\x7bsource\x7d\x7d"

/-- The environment that gives the endpoint. -/
def env? (c : Config) : Option Env := (c.envs.get? c.sourceName).or (c.envs.get? defaultEnv)

/-- The endpoint as it is written, with the name of the source put in. -/
def endpointText (c : Config) : String :=
  Text.replaceAll ((c.env?.bind Env.graphql).getD localEndpoint) sourcePlaceholder c.sourceName

/-- The endpoint, which has to be one of HTTP. -/
def endpoint (c : Config) : Except Error Url := do
  let url ← (Url.parse c.endpointText).mapError .url
  if url.scheme == "http" || url.scheme == "https" then .ok url else .error (.scheme url.scheme)

end SdkLoom.Config
