import Pingsix.Compile
import Pingsix.Tls

/-!
# Runtime snapshots

The objects of a candidate with the route matcher, the global plugins and the
matcher of TLS server names compiled from them.
-/

namespace Pingsix

/-! ## Server names -/

/-- Exact server names by their reversed text, wildcards by the suffix after `*.`, and the bare `*`. -/
structure SslMatcher where
  snis : Router ProxySSL := {}
  wildcards : List (String × ProxySSL) := []
  catchAll : Option ProxySSL := none

namespace SslMatcher

variable (M : Matchit)

def toAsciiLowercase (s : String) : String := String.ofList (s.toList.map Char.toLower)

def insertSni (proxySsl : ProxySSL) (m : SslMatcher) (sni : String) : ProxyResult SslMatcher :=
  let normalized := toAsciiLowercase sni
  if normalized = "*" then
    if m.catchAll.isSome then .error (.configuration "Duplicate TLS catch-all SNI '*'")
    else .ok { m with catchAll := some proxySsl }
  else
    match Text.stripPrefix normalized "*." with
    | some suffix =>
      if m.wildcards.any fun w => w.1 = suffix then
        .error (.configuration s!"Duplicate TLS wildcard SNI '*.{suffix}'")
      else .ok { m with wildcards := m.wildcards ++ [(suffix, proxySsl)] }
    | none =>
      match m.snis.insert M (String.ofList normalized.toList.reverse) proxySsl with
      | .error e =>
        .error (.configuration s!"Failed to insert TLS SNI '{sni}' for '{proxySsl.inner.id}': {e}")
      | .ok snis => .ok { m with snis }

def insertSsl (m : SslMatcher) (proxySsl : ProxySSL) : ProxyResult SslMatcher :=
  proxySsl.inner.snis.foldlM (insertSni M proxySsl) m

/-- The longest suffix first. -/
def build (ssls : HashMap String ProxySSL) : ProxyResult SslMatcher := do
  let m ← ssls.values.foldlM (insertSsl M) {}
  return { m with wildcards := m.wildcards.insertionSort fun a b => b.1.utf8ByteSize ≤ a.1.utf8ByteSize }

/-- One label without a dot, a dot, and the suffix. -/
def hostMatchesWildcard (host suffix : String) : Bool :=
  if suffix = "" then host ≠ "" && !host.toList.contains '.'
  else
    let label := host.toList.takeWhile (· ≠ '.')
    label ≠ [] && host.toList = label ++ '.' :: suffix.toList

def matchSni (m : SslMatcher) (sni : String) : Option ProxySSL :=
  let normalized := toAsciiLowercase sni
  match m.snis.atPath M (String.ofList normalized.toList.reverse) with
  | some found => some found.value
  | none =>
    match m.wildcards.find? fun w => hostMatchesWildcard normalized w.1 with
    | some w => some w.2
    | none => m.catchAll

end SslMatcher

/-! ## Candidates and snapshots -/

structure CandidateSnapshot where
  upstreams : HashMap String ProxyUpstream := ∅
  services : HashMap String (ProxyService ProxyUpstream) := ∅
  globalRules : HashMap String (ProxyGlobalRule ProxyUpstream) := ∅
  routes : HashMap String (ProxyRoute ProxyUpstream) := ∅
  ssls : HashMap String ProxySSL := ∅

structure RuntimeSnapshot where
  revision : Int
  objects : CandidateSnapshot
  routeMatcher : MatchEntry (ProxyRoute ProxyUpstream)
  globalPlugins : ProxyPluginExecutor ProxyUpstream
  sslMatcher : SslMatcher

namespace RuntimeSnapshot

def empty : RuntimeSnapshot where
  revision := 0
  objects := {}
  routeMatcher := {}
  globalPlugins := {}
  sslMatcher := {}

def compile (M : Matchit) (candidate : CandidateSnapshot) (revision : Int) :
    Except CompileFailure RuntimeSnapshot := do
  let globalPlugins := buildGlobalPluginExecutor candidate.globalRules
  let routeMatcher ← MatchEntry.build M candidate.routes (globalPlugins.hasPlugin "cors")
  let sslMatcher ← (SslMatcher.build M candidate.ssls).mapError .error
  return { revision, objects := candidate, routeMatcher, globalPlugins, sslMatcher }

end RuntimeSnapshot

end Pingsix
