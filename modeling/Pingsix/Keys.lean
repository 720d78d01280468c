import Pingsix.Lib.Utf8
import Pingsix.Store

/-!
# Physical etcd keys

Prefix canonicalization, the generation guard and the map from physical keys
to resource keys. `physicalKey` writes a key; `physicalKeyToResourceKey` reads
one back, and reads nothing else.
-/

namespace Pingsix

def canonicalizePrefix (pfx : String) : String :=
  let trimmed := Text.trimEndMatches pfx '/'
  if trimmed = "" then "/" else trimmed ++ "/"

def graphRevisionKey : String := ".pingsix_graph_revision"

def graphProtocolVersion : ByteArray := "pingsix-graph-v1".toUTF8

/-- Accept the current graph guard value plus the legacy transition value `1`. -/
def validateGuardValue (value : ByteArray) : Except StoreError Unit :=
  if value ≠ graphProtocolVersion ∧ value ≠ "1".toUTF8 then .error .unsupportedProtocol else .ok ()

def isMetadataKey (key : ByteArray) : Bool :=
  match Utf8.fromUtf8 key with
  | .error _ => false
  | .ok key => Text.startsWith (Text.lastSegment key '/') "."

def physicalKeyToResourceKey (key : ByteArray) (canonicalPrefix : String) : Except String ResourceKey :=
  match Utf8.fromUtf8 key with
  | .error e => .error s!"Key is not valid UTF-8: {e.display}"
  | .ok key =>
    match Text.stripPrefix key canonicalPrefix with
    | none => .error s!"Key '{key}' is outside etcd namespace '{canonicalPrefix}'"
    | some rest =>
      match Text.splitOnce rest '/' with
      | none => .error s!"Invalid key format under namespace: {key}"
      | some (kind, id) =>
        if kind = "" ∨ id = "" ∨ Text.containsChar id '/' then
          .error s!"Invalid key format under namespace: {key}"
        else
          match ResourceKind.parse kind with
          | .error e => .error e.display
          | .ok kind =>
            match ResourceKey.new kind id with
            | .error e => .error e.display
            | .ok key => .ok key

/-- The key a resource is written under (`with_prefix` of its logical path). -/
def physicalKey (canonicalPrefix : String) (key : ResourceKey) : ByteArray :=
  (canonicalPrefix ++ key.logicalPath).toUTF8

/-- A resource whose id starts with a dot is written under a key that reads as metadata. -/
def ResourceKey.isMetadata (key : ResourceKey) : Bool := Text.startsWith key.id "."

theorem canonicalizePrefix_slash (pfx : String) : ∃ q, canonicalizePrefix pfx = q ++ "/" := by
  unfold canonicalizePrefix
  simp only
  split
  · exact ⟨"", rfl⟩
  · exact ⟨_, rfl⟩

theorem logicalPath_eq (key : ResourceKey) :
    key.logicalPath = key.kind.asStr ++ String.singleton '/' ++ key.id := rfl

theorem stripPrefix_append (p r : String) : Text.stripPrefix (p ++ r) p = some r :=
  Text.stripPrefix_eq_some.mpr rfl

theorem splitOnce_logicalPath (key : ResourceKey) :
    Text.splitOnce key.logicalPath '/' = some (key.kind.asStr, key.id) :=
  Text.splitOnce_eq_some.mpr ⟨logicalPath_eq key, key.kind.slash_notMem_asStr⟩

/-- Reading inverts writing, and every key that reads as a resource key was written for it. -/
theorem physicalKeyToResourceKey_eq_ok {bytes : ByteArray} {pfx : String} {key : ResourceKey} :
    physicalKeyToResourceKey bytes pfx = .ok key ↔ bytes = physicalKey pfx key := by
  constructor
  · intro h
    unfold physicalKeyToResourceKey at h
    split at h
    · cases h
    rename_i text htext
    split at h
    · cases h
    rename_i rest hrest
    split at h
    · cases h
    rename_i kind id hsplit
    split at h
    · cases h
    split at h
    · cases h
    rename_i kind' hkind
    split at h
    · cases h
    rename_i key' hnew
    cases h
    obtain ⟨hk, hi⟩ := ResourceKey.new_eq_ok.mp hnew
    have hrest' : rest = key.logicalPath := by
      rw [(Text.splitOnce_eq_some.mp hsplit).1, ResourceKind.parse_eq_ok.mp hkind, logicalPath_eq, hk, hi]
    rw [Utf8.fromUtf8_eq_ok.mp htext, Text.stripPrefix_eq_some.mp hrest, hrest', physicalKey]
  · rintro rfl
    have hid : ¬(key.kind.asStr = "" ∨ key.id = "" ∨ Text.containsChar key.id '/' = true) := by
      simp [key.kind.asStr_ne_empty, key.valid.1, key.valid.2]
    simp only [physicalKeyToResourceKey, physicalKey, Utf8.fromUtf8_toUTF8, stripPrefix_append,
      splitOnce_logicalPath, if_neg hid, ResourceKind.parse_eq_ok.mpr rfl,
      ResourceKey.new_eq_ok.mpr ⟨rfl, rfl⟩]

theorem physicalKey_inj {pfx : String} {key key' : ResourceKey} :
    physicalKey pfx key = physicalKey pfx key' ↔ key = key' := by
  constructor
  · intro h
    have h₁ := physicalKeyToResourceKey_eq_ok.mpr h
    rw [physicalKeyToResourceKey_eq_ok.mpr rfl] at h₁
    exact Except.ok.inj h₁
  · rintro rfl; rfl

theorem isMetadataKey_physicalKey (pfx : String) (key : ResourceKey) :
    isMetadataKey (physicalKey pfx key) = key.isMetadata := by
  have : pfx ++ key.logicalPath = pfx ++ key.kind.asStr ++ String.singleton '/' ++ key.id := by
    rw [logicalPath_eq]; simp [String.append_assoc]
  simp only [isMetadataKey, physicalKey, Utf8.fromUtf8_toUTF8, this,
    Text.lastSegment_append key.slash_notMem_id]
  rfl

theorem isMetadataKey_guard (pfx : String) :
    isMetadataKey (canonicalizePrefix pfx ++ graphRevisionKey).toUTF8 = true := by
  obtain ⟨q, hq⟩ := canonicalizePrefix_slash pfx
  have hslash : '/' ∉ graphRevisionKey.toList := by decide
  have : canonicalizePrefix pfx ++ graphRevisionKey = q ++ String.singleton '/' ++ graphRevisionKey := by
    rw [hq]; rfl
  simp only [isMetadataKey, Utf8.fromUtf8_toUTF8, this, Text.lastSegment_append hslash]
  decide

theorem startsWith_physicalKey (pfx : String) (key : ResourceKey) :
    Text.startsWith (pfx ++ key.logicalPath) pfx = true := Text.startsWith_iff.mpr ⟨_, rfl⟩

end Pingsix
