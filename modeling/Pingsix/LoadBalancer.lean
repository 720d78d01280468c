import Pingsix.AiProxy
import Pingsix.Lib.Except
import Pingsix.Tls

/-!
# Runtime upstreams

An upstream object is built from its configuration and from material prepared
for its occurrence. The build fails on client certificates that do not load and
on active health checks that cannot be turned into requests.
-/

namespace Pingsix

/-! ## Building -/

/-- Why a build fails: the error, and the occurrence when it was not prepared. -/
structure BuildError where
  error : ProxyError
  unprepared : Option UpstreamOccurrence := none
  deriving DecidableEq, Repr

abbrev BuildResult (α : Type) := Except BuildError α

/-- An error that is not about prepared material. -/
def raise {α : Type} (r : ProxyResult α) : BuildResult α := r.mapError fun error => { error }

/-- The backends discovery found. -/
structure PreparedUpstream where
  backends : List String
  deriving DecidableEq, Repr

abbrev PreparedUpstreams := HashMap UpstreamOccurrence PreparedUpstream

/-- What the builds of one candidate share. The generation tells the objects of different candidates apart, the
identifiers stand for freshly drawn ones. -/
structure BuildContext where
  ext : Externals
  prepared : PreparedUpstreams
  generation : Nat
  uuid : UpstreamOccurrence → String

def BuildContext.take (ctx : BuildContext) (occurrence : UpstreamOccurrence) (message : String) :
    BuildResult PreparedUpstream :=
  match ctx.prepared.lookup occurrence with
  | some prepared => .ok prepared
  | none => .error { error := .configuration message, unprepared := some occurrence }

/-! ## Active health checks -/

namespace ActiveCheck

def checkHeader (h : Http) (header : String) : ProxyResult Unit :=
  match Text.splitOnce header ':' with
  | none => .error (.configuration s!"Invalid health check header {header.quote}: expected 'Name: value'")
  | some (key, val) =>
    if Text.trim key = "" then
      .error (.configuration s!"Invalid health check header {header.quote}: empty header name")
    else
      match h.insertHeader (Text.trim key) (Text.trim val) with
      | .error e => .error (.configuration s!"Invalid health check header {header.quote}: {e}")
      | .ok () => .ok ()

def tryIntoHttp (h : Http) (value : ActiveCheck) : ProxyResult Unit :=
  match h.pathAndQuery value.httpPath with
  | .error e => .error (.configuration s!"Invalid health check path '{value.httpPath}': {e}")
  | .ok () => value.reqHeaders.forM (checkHeader h)

/-- A TCP check always converts, the path and headers of the others must be valid. -/
def tryInto (h : Http) (value : ActiveCheck) : ProxyResult Unit :=
  match value.type with
  | .tcp => .ok ()
  | .http | .https => tryIntoHttp h value

end ActiveCheck

/-! ## Upstream objects -/

/-- Which object this is: the candidate it was built for and its occurrence there. -/
structure Allocation where
  generation : Nat
  occurrence : UpstreamOccurrence
  deriving DecidableEq, Repr

structure ProxyUpstream where
  allocation : Allocation
  idGenerated : Bool
  inner : Upstream
  prepared : PreparedUpstream
  deriving DecidableEq, Repr

namespace HybridDiscovery

/-- The client certificate is loaded before the nodes are visited. -/
def build (x : X509) (upstream : Upstream) : ProxyResult Unit :=
  match upstream.tls with
  | some tls => (loadClientCertKey x tls).map fun _ => ()
  | none => .ok ()

end HybridDiscovery

def activeCheck (upstream : Upstream) : Option ActiveCheck := upstream.checks.bind (·.active)

def SelectionLB.fromPrepared (ext : Externals) (upstream : Upstream) : ProxyResult Unit := do
  HybridDiscovery.build ext.x509 upstream
  match activeCheck upstream with
  | none => pure ()
  | some active =>
    (active.tryInto ext.http).mapError fun e =>
      .configuration s!"Upstream '{upstream.id}' has an invalid health check configuration: {e.display}"

namespace ProxyUpstream

/-- The configuration with an id of its own when it has none. -/
def withId (ctx : BuildContext) (occurrence : UpstreamOccurrence) (upstream : Upstream) : Upstream :=
  if upstream.id = "" then { upstream with id := "inline_" ++ ctx.uuid occurrence } else upstream

def build (ctx : BuildContext) (occurrence : UpstreamOccurrence) (upstream : Upstream) (prepared : PreparedUpstream) :
    ProxyResult ProxyUpstream :=
  match SelectionLB.fromPrepared ctx.ext (withId ctx occurrence upstream) with
  | .error e => .error (.configuration s!"Failed to create load balancer: {e.display}")
  | .ok () =>
    .ok { allocation := ⟨ctx.generation, occurrence⟩, idGenerated := upstream.id = "",
          inner := withId ctx occurrence upstream, prepared }

/-- The configuration the object was built from. -/
def declared (u : ProxyUpstream) : Upstream := if u.idGenerated then { u.inner with id := "" } else u.inner

end ProxyUpstream

/-- Take the prepared material of an occurrence and build its upstream. -/
def buildUpstream (ctx : BuildContext) (occurrence : UpstreamOccurrence) (upstream : Upstream) (notPrepared : String)
    (wrap : ProxyError → ProxyError := fun e => e) : BuildResult ProxyUpstream := do
  let prepared ← ctx.take occurrence notPrepared
  (ProxyUpstream.build ctx occurrence upstream prepared).mapError fun e => { error := wrap e }

/-! ## When an upstream is built -/

/-- Whether the certificate loads and the active check converts. -/
def Loads (ext : Externals) (upstream : Upstream) : Prop :=
  HybridDiscovery.build ext.x509 upstream = .ok () ∧
    ∀ active, activeCheck upstream = some active → active.tryInto ext.http = .ok ()

theorem SelectionLB.fromPrepared_eq_ok {ext : Externals} {upstream : Upstream} :
    SelectionLB.fromPrepared ext upstream = .ok () ↔ Loads ext upstream := by
  unfold SelectionLB.fromPrepared Loads
  rw [Except.bind_unit_eq_ok]
  refine and_congr_right fun _ => ?_
  cases activeCheck upstream with
  | none => simp
  | some active => simp [Except.mapError_eq_ok]

theorem ProxyUpstream.loads_withId {ctx : BuildContext} {occurrence : UpstreamOccurrence} {upstream : Upstream} :
    Loads ctx.ext (withId ctx occurrence upstream) ↔ Loads ctx.ext upstream := by
  unfold withId
  split
  · exact Iff.rfl
  · exact Iff.rfl

theorem ProxyUpstream.build_eq_ok {ctx : BuildContext} {occurrence : UpstreamOccurrence} {upstream : Upstream}
    {prepared : PreparedUpstream} {u : ProxyUpstream} :
    ProxyUpstream.build ctx occurrence upstream prepared = .ok u ↔
      Loads ctx.ext upstream ∧ u = { allocation := ⟨ctx.generation, occurrence⟩, idGenerated := upstream.id = "",
                                     inner := withId ctx occurrence upstream, prepared } := by
  rw [← @loads_withId ctx occurrence upstream, ← SelectionLB.fromPrepared_eq_ok]
  unfold ProxyUpstream.build
  cases SelectionLB.fromPrepared ctx.ext (withId ctx occurrence upstream) with
  | error e => simp
  | ok _ =>
    rw [Except.ok.injEq]
    simp only [true_and]
    exact eq_comm

theorem BuildContext.take_eq_ok {ctx : BuildContext} {occurrence : UpstreamOccurrence} {message : String}
    {p : PreparedUpstream} : ctx.take occurrence message = .ok p ↔ ctx.prepared.lookup occurrence = some p := by
  unfold BuildContext.take
  cases ctx.prepared.lookup occurrence with
  | none => simp
  | some q => simp

theorem buildUpstream_eq_ok {ctx : BuildContext} {occurrence : UpstreamOccurrence} {upstream : Upstream}
    {notPrepared : String} {wrap : ProxyError → ProxyError} {u : ProxyUpstream} :
    buildUpstream ctx occurrence upstream notPrepared wrap = .ok u ↔
      ∃ prepared, ctx.prepared.lookup occurrence = some prepared ∧ Loads ctx.ext upstream ∧
        u = { allocation := ⟨ctx.generation, occurrence⟩, idGenerated := upstream.id = "",
              inner := ProxyUpstream.withId ctx occurrence upstream, prepared } := by
  unfold buildUpstream
  simp only [Except.bind_eq_ok, BuildContext.take_eq_ok, Except.mapError_eq_ok, ProxyUpstream.build_eq_ok]

theorem declared_of_buildUpstream {ctx : BuildContext} {occurrence : UpstreamOccurrence} {upstream : Upstream}
    {notPrepared : String} {wrap : ProxyError → ProxyError} {u : ProxyUpstream}
    (h : buildUpstream ctx occurrence upstream notPrepared wrap = .ok u) : u.declared = upstream := by
  obtain ⟨prepared, -, -, rfl⟩ := buildUpstream_eq_ok.mp h
  unfold ProxyUpstream.declared ProxyUpstream.withId
  by_cases hid : upstream.id = ""
  · simp only [hid, decide_true, if_true]
    rw [← hid]
  · simp [hid]

end Pingsix
