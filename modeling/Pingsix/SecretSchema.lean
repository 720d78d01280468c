import Pingsix.Lib.Shape
import Pingsix.Admin

/-!
# Where secrets stand

The secret strings of every kind of resource as its types read them: a struct is
read by name or by position, an upstream may stand inside a traffic-split target.
The walks over documents reach the named places only.
-/

namespace Pingsix

/-- A string, or the strings of an array. -/
def secretField : Shape := .node true (fun _ => .none) fun _ => .node true (fun _ => .none) fun _ => .none

/-- Every value of a map. -/
def secretEntries : Shape := .node false (fun _ => .node true (fun _ => .none) fun _ => .none) fun _ => .none

section
-- all places where the types read a secret, or those a walk reaches
variable (everywhere : Bool)

/-- The fields of a struct that lead to secrets, with their names and positions. -/
def structSecrets (fields : List (String × Nat × Shape)) : Shape :=
  .node false (fun name => (fields.find? fun f => f.1 = name).elim .none (·.2.2)) fun i =>
    if everywhere then (fields.find? fun f => f.2.1 = i).elim .none (·.2.2) else .none

def UpstreamTls.secrets : Shape := structSecrets everywhere [("client_key", 1, secretField)]

def Upstream.secrets : Shape := structSecrets everywhere [("tls", 12, UpstreamTls.secrets everywhere)]

def TrafficSplit.secrets : Shape :=
  let target := structSecrets everywhere [("upstream", 1, Upstream.secrets everywhere)]
  let rule := structSecrets everywhere [("weighted_upstreams", 1, .node false (fun _ => .none) fun _ => target)]
  structSecrets everywhere [("rules", 0, .node false (fun _ => .none) fun _ => rule)]

def AiProxy.secrets : Shape :=
  structSecrets everywhere
    [("auth", 1, structSecrets everywhere [("header", 0, secretEntries), ("query", 1, secretEntries)])]

/-- The secrets of a plugin configuration. -/
def pluginSecrets : String → Shape
  | "csrf" => structSecrets everywhere [("key", 0, secretField)]
  | "basic-auth" => structSecrets everywhere [("password", 1, secretField)]
  | "jwt-auth" => structSecrets everywhere [("secret", 7, secretField)]
  | "key-auth" => structSecrets everywhere [("key", 2, secretField), ("keys", 3, secretField)]
  | "ai-proxy" => AiProxy.secrets everywhere
  | "traffic-split" => if everywhere then TrafficSplit.secrets everywhere else .none
  | _ => .none

def pluginsSecrets : Shape := .node false (pluginSecrets everywhere) fun _ => .none

/-- The secrets of a resource. -/
def resourceSecrets : ResourceKind → Shape
  | .ssl => structSecrets everywhere [("key", 2, secretField)]
  | .upstream => Upstream.secrets everywhere
  | .route =>
    structSecrets everywhere [("plugins", 8, pluginsSecrets everywhere), ("upstream", 9, Upstream.secrets everywhere)]
  | .service =>
    structSecrets everywhere [("plugins", 2, pluginsSecrets everywhere), ("upstream", 3, Upstream.secrets everywhere)]
  | .globalRule => structSecrets everywhere [("plugins", 1, pluginsSecrets everywhere)]

end

/-- The places the walks over documents reach. -/
abbrev reached (kind : ResourceKind) : Shape := resourceSecrets false kind

/-- The places where the types read a secret. -/
abbrev declared (kind : ResourceKind) : Shape := resourceSecrets true kind

end Pingsix
