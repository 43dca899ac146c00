import SdkLoom.Http.Header
import SdkLoom.Http.Status
import SdkLoom.Introspection.Query
import SdkLoom.Schema.Codec
import SdkLoom.Url.Basic

/-!
# Asking a service for its schema

A client posts the introspection query to an endpoint and reads the response. A response that is no success is an error with
whatever errors its body reports; of a success the body decides.
-/

namespace SdkLoom.Introspection

/-- How a service is asked. -/
structure Client where
  endpoint : Url
  userAgent : String
  headers : List Http.Header

/-- What is sent. -/
structure Request where
  url : Url
  body : Json

/-- The answer of a service. -/
structure Reply where
  status : Nat
  body : String

/-- The name and the version under which the client asks, unless others are given. -/
def defaultUserAgent : String := "gql-sdkgen/0.1.0"

/-- A client; the name it asks under has to be a legal header value. -/
def Client.make (endpoint : Url) (userAgent : String) (headers : List Http.Header) : Except Error Client :=
  if Http.isHeaderValue userAgent then .ok ⟨endpoint, userAgent, headers⟩ else .error .client

/-- What a client sends. -/
def Client.request (c : Client) : Request := ⟨c.endpoint, requestBody⟩

/-- Notes the status of the response on an error that the response reports. -/
def withStatus (status : Nat) : Error → Error
  | .response f => .response { f with status := some status }
  | e => e

/-- The errors that a body reports, none if it is no response. -/
def reportedErrors (body : String) : List ResponseError :=
  match (Json.read body).bind (Response.ofTree? Json.Tree.value?) with
  | some r => r.errors
  | none => []

/-- The failure of a reply that is no success. -/
def Reply.failure (r : Reply) : ResponseFailure where
  status := some r.status
  errors := reportedErrors r.body
  body := r.body
  message := "introspection http error: " ++ Http.showStatus r.status

/-- The schema of a reply. -/
def Reply.schema (r : Reply) : Except Error Schema :=
  if Http.isSuccess r.status then (Schema.ofText r.body).mapError (withStatus r.status)
  else .error (.response r.failure)

/-- Asks through a function that sends the request. -/
def Client.fetchWith (c : Client) (send : Request → Except Error Reply) : Except Error Schema := do
  let reply ← send c.request
  reply.schema

/-- Sending without a network: no service can be reached, and only HTTP is tried. -/
def offline (r : Request) : Except Error Reply :=
  let address := r.url.anonymous.text
  if r.url.scheme == "http" || r.url.scheme == "https" then .error (.connection address)
  else .error (.refused address)

end SdkLoom.Introspection
