import Pingsix.Lib.BodyStream
import Pingsix.Lib.MachineInt
import Pingsix.RequestPipeline

/-!
# Limits on request bodies

The client-control plugin: a declared length above the limit is refused in the
request phase, and the bytes that pass are counted on the context of the
request, which all instances share.
-/

namespace Pingsix.ClientControl

open HttpMessage
open BodyStream (Chunk Arrival Filter chain)

/-- A limit is a number of 64 bits; `0` disables the check. -/
structure PluginClientControl where
  maxBodySize : Nat
  bound : maxBodySize ≤ u64Max := by decide

/-- The part of the context that the instances count in. -/
structure BodyContext where
  requestBodyBytes : Nat := 0
  deriving DecidableEq, Repr

structure BodyError where
  etype : String
  message : String
  deriving DecidableEq, Repr

def errorPayloadTooLarge : String := "PayloadTooLarge"

namespace PluginClientControl

def requestFilter (headers : HeaderMap) (p : PluginClientControl) : FilterVerdict :=
  if p.maxBodySize = 0 then .continue
  else
    match ((HeaderMap.get headers "content-length").bind (·.toStr)).bind PluginAiProxy.parseU64 with
    | some len => if p.maxBodySize < len then .reject { status := 413 } else .continue
    | none => .continue

def requestBodyFilter (p : PluginClientControl) : Filter BodyContext BodyError UInt8 := fun ctx body _ =>
  if p.maxBodySize = 0 then .ok (body, ctx)
  else
    match body with
    | none => .ok (none, ctx)
    | some bytes =>
      let requestBodyBytes := saturatingAdd ctx.requestBodyBytes bytes.length
      if p.maxBodySize < requestBodyBytes then
        .error ⟨errorPayloadTooLarge, "request body exceeded max_body_size " ++ toString p.maxBodySize⟩
      else .ok (some bytes, { ctx with requestBodyBytes })

end PluginClientControl

/-! ## All instances of a request -/

/-- The instances of the global rules and then the route's; the first that rejects decides. -/
def requestFilter (headers : HeaderMap) (ps : List PluginClientControl) : FilterVerdict :=
  (ps.find? fun p => p.requestFilter headers ≠ .continue).elim .continue (·.requestFilter headers)

def requestBodyFilter (ps : List PluginClientControl) : Filter BodyContext BodyError UInt8 :=
  chain (ps.map (·.requestBodyFilter))

def filterBody (ps : List PluginClientControl) (a : Arrival UInt8) : BodyStream.Emission BodyContext BodyError UInt8 :=
  BodyStream.run (requestBodyFilter ps) {} a

/-- A request is refused in the request phase, or while its body streams. -/
def Refused (headers : HeaderMap) (ps : List PluginClientControl) (a : Arrival UInt8) : Prop :=
  requestFilter headers ps ≠ .continue ∨ ∃ e, (filterBody ps a).last = .error e

end Pingsix.ClientControl
