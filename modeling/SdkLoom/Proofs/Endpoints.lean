import SdkLoom.Config.Endpoint
import SdkLoom.Proofs.Occurrences

/-!
# Where an endpoint comes from

By rule, the endpoint of a configuration is that of its source's environment, or else that of the environment `default`, or
else a local one (`Config.ruledEndpoint`). It is looked up in two steps, though: an environment is chosen first, and only then
is its endpoint asked for. An environment of the source that sets no endpoint therefore hides the endpoint of `default`, and
the local one takes its place. In all other cases the rule is followed (`endpoint_resolution`).
-/

namespace SdkLoom.Config

/-- The endpoint that an environment sets, if there is such an environment and it sets one. -/
def endpointOf? (c : Config) (env : String) : Option String := (c.envs.get? env).bind Env.graphql

/-- The endpoint by rule, as it is written: that of the source, or else that of the environment `default`, or else the
local one. -/
def ruledEndpoint (c : Config) : String :=
  ((c.endpointOf? c.sourceName).or (c.endpointOf? defaultEnv)).getD localEndpoint

/-- The source has an environment, which sets no endpoint, while the environment `default` sets one. -/
def HidesDefault (c : Config) : Prop :=
  (∃ env, c.envs.get? c.sourceName = some env ∧ env.graphql = none) ∧ ∃ written, c.endpointOf? defaultEnv = some written

/-- What a text gives as an endpoint: its URL, if that is one of HTTP, and otherwise an error that says what is wrong. -/
inductive Opens (text : String) : Except Error Url → Prop where
  | url {u : Url} : Url.parse text = .ok u → u.scheme = "http" ∨ u.scheme = "https" → Opens text (.ok u)
  | malformed {fault : UrlFault} : Url.parse text = .error fault → Opens text (.error (.url fault))
  | scheme {u : Url} :
    Url.parse text = .ok u → u.scheme ≠ "http" → u.scheme ≠ "https" → Opens text (.error (.scheme u.scheme))

theorem Opens.parse_eq {text : String} {u : Url} (h : Opens text (.ok u)) : Url.parse text = .ok u := by
  cases h with
  | url hparse _ => exact hparse

/-- The endpoint of a configuration is what a written one gives, once the name of the source stands for every
placeholder. -/
def ResolvesFrom (c : Config) (written : String) : Prop :=
  ∃ text, Text.Replaced written sourcePlaceholder c.sourceName text ∧ Opens text c.endpoint

/-- No two placeholders overlap, so there is one way to replace them. -/
theorem replaced_placeholder_iff (written name text : String) :
    Text.Replaced written sourcePlaceholder name text ↔ text = Text.replaceAll written sourcePlaceholder name :=
  Text.replaced_iff (by decide) (by decide) written name text

/-- The endpoint of the chosen environment, as it is written. -/
def chosenEndpoint (c : Config) : String := (c.env?.bind Env.graphql).getD localEndpoint

theorem opens_endpoint (c : Config) : Opens c.endpointText c.endpoint := by
  rw [endpoint]
  cases hparse : Url.parse c.endpointText with
  | error fault => exact .malformed hparse
  | ok u =>
    by_cases hscheme : u.scheme = "http" ∨ u.scheme = "https"
    · have hallowed : (u.scheme == "http" || u.scheme == "https") = true := by simpa using hscheme
      simpa [Except.mapError, bind, Except.bind, hallowed] using Opens.url hparse hscheme
    · have hrefused : (u.scheme == "http" || u.scheme == "https") = false := by simpa using hscheme
      simp only [not_or] at hscheme
      simpa [Except.mapError, bind, Except.bind, hrefused] using Opens.scheme hparse hscheme.1 hscheme.2

theorem resolvesFrom_iff (c : Config) (written : String) :
    c.ResolvesFrom written ↔ Opens (Text.replaceAll written sourcePlaceholder c.sourceName) c.endpoint := by
  simp only [ResolvesFrom, replaced_placeholder_iff, exists_eq_left]

/-- An endpoint always comes from the chosen environment. -/
theorem resolvesFrom_chosenEndpoint (c : Config) : c.ResolvesFrom c.chosenEndpoint :=
  (c.resolvesFrom_iff _).2 c.opens_endpoint

/-- Only an environment of the source that sets no endpoint can keep the rule from being followed. -/
theorem chosenEndpoint_eq_ruledEndpoint {c : Config} (h : ¬ c.HidesDefault) : c.chosenEndpoint = c.ruledEndpoint := by
  rw [chosenEndpoint, ruledEndpoint, env?, endpointOf?]
  cases hsource : c.envs.get? c.sourceName with
  | none => rfl
  | some env =>
    cases hgraphql : env.graphql with
    | some written => simp [hgraphql]
    | none =>
      have hdefault : c.endpointOf? defaultEnv = none := by
        cases hd : c.endpointOf? defaultEnv with
        | none => rfl
        | some written => exact absurd ⟨⟨env, hsource, hgraphql⟩, written, hd⟩ h
      simp [hgraphql, hdefault]

theorem chosenEndpoint_of_hidesDefault {c : Config} (h : c.HidesDefault) : c.chosenEndpoint = localEndpoint := by
  obtain ⟨⟨env, hsource, hgraphql⟩, -⟩ := h
  simp [chosenEndpoint, env?, hsource, hgraphql]

/-- An endpoint is resolved by the rule, unless the environment of the source hides the endpoint of `default`; then it is
resolved from the local one. -/
theorem endpoint_resolution (c : Config) :
    (¬ c.HidesDefault → c.ResolvesFrom c.ruledEndpoint) ∧ (c.HidesDefault → c.ResolvesFrom localEndpoint) := by
  constructor
  · intro h
    rw [← chosenEndpoint_eq_ruledEndpoint h]
    exact c.resolvesFrom_chosenEndpoint
  · intro h
    rw [← chosenEndpoint_of_hidesDefault h]
    exact c.resolvesFrom_chosenEndpoint

/-- A configuration whose source `staging` has an environment without an endpoint, beside a default with one. -/
def stagingConfig : Config :=
  { empty with
    source := some "staging"
    envs := (SortedMap.insert ∅ "staging" ⟨none, SortedMap.insert ∅ "rest" (.str "x")⟩).insert defaultEnv
      ⟨some "https://\x7b\x7bsource\x7d\x7d.acme.io/", ∅⟩ }

/-- The endpoint of the default is not seen: by rule it is `https://staging.acme.io/`. -/
theorem staging_endpoint_not_ruled :
    stagingConfig.HidesDefault ∧ stagingConfig.endpoint.toOption.map Url.text = some "http://localhost:4000/" ∧
      ¬ stagingConfig.ResolvesFrom stagingConfig.ruledEndpoint := by
  have hlocal : stagingConfig.endpoint.toOption.map Url.text = some "http://localhost:4000/" := by decide +kernel
  have hruled : (Url.parse (Text.replaceAll stagingConfig.ruledEndpoint sourcePlaceholder
      stagingConfig.sourceName)).toOption.map Url.text = some "https://staging.acme.io/" := by decide +kernel
  refine ⟨⟨⟨_, rfl, rfl⟩, _, rfl⟩, hlocal, ?_⟩
  rw [resolvesFrom_iff]
  intro h
  cases hendpoint : stagingConfig.endpoint with
  | error e => simp [hendpoint, Except.toOption] at hlocal
  | ok u =>
    rw [hendpoint] at h hlocal
    rw [h.parse_eq] at hruled
    exact absurd (hlocal.symm.trans hruled) (by decide)

end SdkLoom.Config
