import Pingsix.AuthPlugins
import Pingsix.CachePlugin
import Pingsix.PluginBuild

/-!
# The request pipeline

The plugins of a request in order, the global ones and then the route's: the
request phase, in which they may rewrite the request and move it to another
upstream, the choice of the upstream, and the phases after it, in which only the
ai-proxy instance that claimed the request acts.
-/

namespace Pingsix

open HttpMessage

variable {υ : Type}

/-! ## What is given -/

structure HttpPeer where
  readTimeout : Option Nat := none
  writeTimeout : Option Nat := none
  verifyCert : Bool := true
  verifyHostname : Bool := true
  deriving DecidableEq, Repr

/-- The libraries, the session's variables, the random numbers and the upstreams' backends. -/
structure RequestEnv (υ : Type) where
  sha : Sha256
  matchApisixVars : RequestHeader → List (List String) → Bool
  /-- The number a traffic-split instance draws below a total weight. -/
  draw : (instanceId total : Nat) → Nat
  parseForm : String → List (String × String)
  serializeForm : List (String × String) → String
  parseUri : String → Except String Uri
  /-- The body for the provider and whether it asks for a stream. -/
  transformRequest : AiProxy.AiProxyConfig → List UInt8 → Except String (List UInt8 × Bool)
  selectBackend : υ → Option HttpPeer

/-! ## Traffic splitting -/

structure PluginTrafficSplit (υ : Type) where
  instanceId : Nat
  rules : List (List (List String) × CompiledRule υ)

namespace PluginTrafficSplit

def weighted : Nat → List (Nat × WeightedTarget υ) → Option (WeightedTarget υ)
  | _, [] => none
  | n, (w, target) :: targets => if n < w then some target else weighted (n - w) targets

def pickUpstream (env : RequestEnv υ) (p : PluginTrafficSplit υ) (rule : CompiledRule υ) : Option (WeightedTarget υ) :=
  if rule.totalWeight = 0 then none else weighted (env.draw p.instanceId rule.totalWeight) rule.targets

def requestFilter (env : RequestEnv υ) (p : PluginTrafficSplit υ) (st : FilterState υ) : FilterResult υ :=
  match p.rules.find? fun rule => env.matchApisixVars st.request rule.1 with
  | none => .ok (.continue, st)
  | some rule =>
    match p.pickUpstream env rule.2 with
    | some (.upstream selected) => .ok (.continue, { st with ctx := { st.ctx with upstreamOverride := some selected } })
    | some .passThrough => .ok (.continue, { st with ctx := { st.ctx with upstreamOverride := none } })
    | none => .ok (.continue, st)

end PluginTrafficSplit

/-! ## The ai-proxy plugin -/

structure PluginAiProxy (υ : Type) where
  config : AiProxy.AiProxyConfig
  endpoint : AiProxy.ResolvedEndpoint
  upstream : υ
  scope : PluginScope
  /-- Which instance it is. -/
  token : Nat

namespace PluginAiProxy

def ownsRequest (p : PluginAiProxy υ) (ctx : ProxyContext υ) : Bool := ctx.aiProxyState.any (·.token = p.token)

def parseU64 (s : String) : Option Nat :=
  let digits := match s.toList with
    | '+' :: cs => cs
    | cs => cs
  if digits ≠ [] ∧ digits.all Char.isDigit then
    let n := digits.foldl (fun n c => n * 10 + (c.toNat - 48)) 0
    if n < 2 ^ 64 then some n else none
  else none

def requestDeclaresBody (headers : HeaderMap) : Bool :=
  let chunked := ((HeaderMap.get headers "transfer-encoding").bind (·.toStr)).any fun value =>
    Text.contains (Text.toAsciiLowercase value) "chunked"
  let contentLength := (((HeaderMap.get headers "content-length").bind (·.toStr)).bind parseU64).getD 0
  chunked || 0 < contentLength

def isJson (value : HeaderValue) : Bool :=
  value.toStr.any fun text =>
    Text.toAsciiLowercase (Text.trim (String.ofList (text.toList.takeWhile (· ≠ ';')))) = "application/json"

def contentTypeError (headers : HeaderMap) : Option String :=
  match HeaderMap.getAll headers "content-type" with
  | [] => none
  | [value] => if isJson value then none else some "unsupported content-type: only application/json is supported"
  | _ => some "ambiguous content-type: exactly one application/json value is required"

def badRequest (message : String) : FilterVerdict :=
  .reject { status := 400, body := some ("\x7b\"error\":" ++ message.quote ++ "\x7d"),
            contentType := some "application/json" }

/-- A global instance leaves the request to the route's own one. -/
def yields (p : PluginAiProxy υ) (ctx : ProxyContext υ) : Bool :=
  p.scope = .global && ctx.route.any fun route => route.pluginNames.contains "ai-proxy"

/-- The context of a request the instance has claimed. -/
def claim (p : PluginAiProxy υ) (ctx : ProxyContext υ) : ProxyContext υ :=
  { ctx with
    aiProxyState := some { token := p.token, insecureTls := !p.config.sslVerify }
    upstreamOverride := some p.upstream }

def requestFilter (p : PluginAiProxy υ) (st : FilterState υ) : FilterResult υ :=
  if st.ctx.aiProxyState.isSome then .ok (.continue, st)
  else if p.yields st.ctx then .ok (.continue, st)
  else
    match contentTypeError st.request.headers with
    | some message => .ok (badRequest message, st)
    | none =>
      if requestDeclaresBody st.request.headers then .ok (.continue, { st with ctx := p.claim st.ctx })
      else .ok (badRequest "request body required", st)

/-- The last value of each key, at the place the key first stood. -/
def dedup : List (String × String) → List (String × String) → List (String × String)
  | acc, [] => acc
  | acc, (key, value) :: pairs =>
    if acc.any (·.1 = key) then dedup (acc.map fun pair => if pair.1 = key then (key, value) else pair) pairs
    else dedup (acc ++ [(key, value)]) pairs

/-- The client's query, the endpoint's and the credentials, the later ones winning. -/
def mergedQuery (env : RequestEnv υ) (p : PluginAiProxy υ) (existing : Option String) : Option String :=
  let pairs := (existing.elim [] env.parseForm) ++ p.endpoint.query ++ p.config.auth.query
  if pairs = [] then none else some (env.serializeForm (dedup [] pairs))

def insertHeader (headers : HeaderMap) (name value : String) : ProxyResult HeaderMap :=
  match HeaderValue.ofString value with
  | some v => .ok (HeaderMap.insert headers name v)
  | none => .error (.pingora "InvalidHTTPHeader")

def upstreamRequestFilter (env : RequestEnv υ) (p : PluginAiProxy υ) (ctx : ProxyContext υ)
    (upstreamRequest : RequestHeader) : ProxyResult RequestHeader :=
  if p.ownsRequest ctx = false then .ok upstreamRequest
  else do
    let pathQuery := p.endpoint.path ++ ((p.mergedQuery env upstreamRequest.uri.query).map ("?" ++ ·)).getD ""
    let uri ← (env.parseUri pathQuery).mapError fun error =>
      .configuration s!"ai-proxy: invalid target URI '{pathQuery}': {error}"
    let framed := HeaderMap.remove (HeaderMap.remove upstreamRequest.headers "content-length") "transfer-encoding"
    let headers ← insertHeader framed "Transfer-Encoding" "chunked"
    let headers ← insertHeader headers "Content-Type" "application/json"
    let headers := HeaderMap.remove (HeaderMap.remove headers "Accept-Encoding") "Authorization"
    let version := p.config.provider = .anthropic &&
      !p.config.auth.header.any fun entry => Text.toAsciiLowercase entry.1 = "anthropic-version"
    let headers ← if version then insertHeader headers "anthropic-version" "2023-06-01" else .ok headers
    let headers ← p.config.auth.header.foldlM (fun headers entry => insertHeader headers entry.1 entry.2) headers
    return { upstreamRequest with uri, headers }

/-- One chunk of the body; the error carries a status and a text. -/
def requestBodyFilter (env : RequestEnv υ) (p : PluginAiProxy υ) (ctx : ProxyContext υ) (chunk : Option (List UInt8))
    (endOfStream : Bool) : Except (Nat × String) (Option (List UInt8) × ProxyContext υ) :=
  match ctx.aiProxyState with
  | none => .ok (chunk, ctx)
  | some state =>
    if state.token ≠ p.token then .ok (chunk, ctx)
    else
      let buffered := { state with body := state.body ++ chunk.getD [] }
      if chunk.isSome && p.config.maxReqBodySize < buffered.body.length then .error (413, "request body too large")
      else if endOfStream = false then .ok (some [], { ctx with aiProxyState := some buffered })
      else
        match env.transformRequest p.config buffered.body with
        | .error detail => .error (400, detail)
        | .ok (body, streaming) =>
          .ok (some body, { ctx with aiProxyState := some { buffered with body := [], streaming } })

def providerReadTimeoutFloorSecs : Nat := 600

def upstreamPeerFilter (p : PluginAiProxy υ) (ctx : ProxyContext υ) (peer : HttpPeer) : HttpPeer :=
  match ctx.aiProxyState with
  | none => peer
  | some state =>
    if state.token ≠ p.token then peer
    else
      let floored := if peer.readTimeout.all (· < providerReadTimeoutFloorSecs) then
        { peer with readTimeout := some providerReadTimeoutFloorSecs } else peer
      if state.insecureTls then { floored with verifyCert := false, verifyHostname := false } else floored

end PluginAiProxy

/-! ## The request phase -/

inductive OverrideAction (υ : Type) where
  | keep
  | clear
  | set (u : υ)
  deriving DecidableEq, Repr

def OverrideAction.apply : OverrideAction υ → Option υ → Option υ
  | .keep, override => override
  | .clear, _ => none
  | .set u, _ => some u

/-- A plugin that may refuse or rewrite the request and set or clear the upstream override. -/
structure OtherPlugin (υ : Type) where
  name : String
  filter : FilterState υ → ProxyResult (FilterVerdict × RequestHeader × OverrideAction υ)

inductive RequestPlugin (υ : Type) where
  | basicAuth (p : PluginBasicAuth)
  | keyAuth (p : PluginKeyAuth)
  | jwtAuth (p : PluginJWTAuth)
  | cache (p : PluginCache)
  | trafficSplit (p : PluginTrafficSplit υ)
  | aiProxy (p : PluginAiProxy υ)
  | other (p : OtherPlugin υ)

namespace RequestPlugin

def name : RequestPlugin υ → String
  | basicAuth _ => "basic-auth"
  | keyAuth _ => "key-auth"
  | jwtAuth _ => "jwt-auth"
  | cache _ => "proxy-cache"
  | trafficSplit _ => "traffic-split"
  | aiProxy _ => "ai-proxy"
  | other p => p.name

def requestFilter (env : RequestEnv υ) : RequestPlugin υ → FilterState υ → FilterResult υ
  | basicAuth p, st => p.requestFilter env.sha st
  | keyAuth p, st => p.requestFilter env.sha st
  | jwtAuth p, st => p.requestFilter env.sha st
  | cache p, st => p.requestFilter st
  | trafficSplit p, st => p.requestFilter env st
  | aiProxy p, st => p.requestFilter st
  | other p, st =>
    match p.filter st with
    | .error e => .error e
    | .ok (verdict, request, action) =>
      .ok (verdict, { request, ctx := { st.ctx with upstreamOverride := action.apply st.ctx.upstreamOverride } })

/-- One layer: the first verdict that is not to continue, or the state all plugins leave. -/
def runFilters (env : RequestEnv υ) : List (RequestPlugin υ) → FilterState υ → FilterResult υ
  | [], st => .ok (.continue, st)
  | p :: ps, st =>
    match p.requestFilter env st with
    | .ok (.continue, st) => runFilters env ps st
    | stop => stop

end RequestPlugin

structure CompiledPluginPipeline (υ : Type) where
  global : List (RequestPlugin υ) := []
  route : List (RequestPlugin υ) := []

namespace CompiledPluginPipeline

def plugins (pipeline : CompiledPluginPipeline υ) : List (RequestPlugin υ) := pipeline.global ++ pipeline.route

/-- A global plugin that stops the request keeps the route's ones from running. -/
def requestFilter (env : RequestEnv υ) (pipeline : CompiledPluginPipeline υ) (st : FilterState υ) : FilterResult υ :=
  match RequestPlugin.runFilters env pipeline.global st with
  | .ok (.continue, st) => RequestPlugin.runFilters env pipeline.route st
  | stop => stop

/-- The peer policies of the plugins, in order. -/
def upstreamPeerFilter (pipeline : CompiledPluginPipeline υ) (ctx : ProxyContext υ) (peer : HttpPeer) : HttpPeer :=
  pipeline.plugins.foldl (fun peer plugin =>
    match plugin with
    | .aiProxy p => p.upstreamPeerFilter ctx peer
    | _ => peer) peer

end CompiledPluginPipeline

/-! ## The service -/

namespace HttpService

/-- The request with the context in which its plugins start. -/
def earlyRequestFilter (env : RequestEnv υ) (req : RequestHeader) (route : Option (RouteContext υ)) : FilterState υ :=
  { request := req, ctx := { ProxyContext.captureCredentials env.sha req {} with route } }

/-- The override, or else the route's upstream. -/
def finalUpstream (ctx : ProxyContext υ) : Option υ :=
  match ctx.upstreamOverride with
  | some u => some u
  | none => ctx.route.bind (·.resolvedUpstream)

/-- The peer of the selected upstream under the plugins' policies; none when there is no upstream or backend. -/
def upstreamPeer (env : RequestEnv υ) (pipeline : CompiledPluginPipeline υ) (ctx : ProxyContext υ) :
    Option (HttpPeer × ProxyContext υ) := do
  let u ← finalUpstream ctx
  let peer ← env.selectBackend u
  let selected := { ctx with selected := some u }
  return (pipeline.upstreamPeerFilter selected peer, selected)

end HttpService

end Pingsix
