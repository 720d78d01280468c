import Pingsix.Lib.FormUrlencoded
import Pingsix.Lib.IndexMap
import Pingsix.RequestPipeline

/-!
# Soundness of the merged query

The ai-proxy query: the client's parameters, the endpoint's and the credentials,
the last value of each name. The loop keeps the place of each name in a second
map, which always says where the name stands.
-/

namespace Pingsix

namespace AiProxy

/-- The parameters so far and the place of each name among them. -/
structure Deduped where
  positions : HashMap String Nat := ∅
  deduped : List (String × String) := []

/-- One parameter; its value takes the place of an earlier one. -/
def Deduped.add (d : Deduped) (pair : String × String) : Deduped :=
  match d.positions.lookup pair.1 with
  | some position => { d with deduped := d.deduped.modify position fun entry => (entry.1, pair.2) }
  | none => { positions := d.positions.insert pair.1 d.deduped.length, deduped := d.deduped ++ [pair] }

def mergedQuery (parse : String → List (String × String)) (serialize : List (String × String) → String)
    (existing : Option String) (endpointQuery authQuery : List (String × String)) : Option String :=
  let pairs := existing.elim [] parse ++ endpointQuery ++ authQuery
  if pairs = [] then none else some (serialize (pairs.foldl Deduped.add {}).deduped)

/-! ## The places of the names -/

theorem insertEntry_of_not_mem {key value : String} : ∀ {es : List (String × String)}, key ∉ es.map Prod.fst →
    IndexMap.insertEntry key value es = es ++ [(key, value)]
  | [], _ => rfl
  | e :: es, h => by
    obtain ⟨hne, hrest⟩ := not_or.mp (mt List.mem_cons.mpr h)
    rw [IndexMap.insertEntry, if_neg (Ne.symm hne), insertEntry_of_not_mem hrest, List.cons_append]

theorem modify_eq_insertEntry {key value : String} : ∀ {es : List (String × String)} {i : Nat},
    (es.map Prod.fst).Nodup → (es.map Prod.fst)[i]? = some key →
    es.modify i (fun entry => (entry.1, value)) = IndexMap.insertEntry key value es
  | [], _, _, h => by cases h
  | e :: es, 0, _, h => by
    have hkey : e.1 = key := Option.some.inj h
    rw [List.modify_zero_cons, IndexMap.insertEntry, if_pos hkey, hkey]
  | e :: es, i + 1, hn, h => by
    obtain ⟨hnot, hrest⟩ := List.nodup_cons.mp hn
    have hi : (es.map Prod.fst)[i]? = some key := h
    have hne : e.1 ≠ key := fun he => hnot (he ▸ List.mem_of_getElem? hi)
    rw [List.modify_succ_cons, IndexMap.insertEntry, if_neg hne, modify_eq_insertEntry hrest hi]

theorem map_eq_insertEntry {key value : String} : ∀ {es : List (String × String)}, (es.map Prod.fst).Nodup →
    key ∈ es.map Prod.fst →
    es.map (fun pair => if pair.1 = key then (key, value) else pair) = IndexMap.insertEntry key value es
  | [], _, h => by cases h
  | e :: es, hn, h => by
    obtain ⟨hnot, hrest⟩ := List.nodup_cons.mp hn
    rw [List.map_cons, IndexMap.insertEntry]
    by_cases he : e.1 = key
    · have hothers : es.map (fun pair => if pair.1 = key then (key, value) else pair) = es := by
        refine (List.map_congr_left fun pair hp => ?_).trans (List.map_id _)
        exact if_neg fun hk : pair.1 = key => hnot (List.mem_map.mpr ⟨pair, hp, hk.trans he.symm⟩)
      rw [if_pos he, if_pos he, hothers]
    · have hmem : key ∈ es.map Prod.fst := (List.mem_cons.mp h).resolve_left (Ne.symm he)
      rw [if_neg he, if_neg he, map_eq_insertEntry hrest hmem]

namespace Deduped

/-- The parameters are those of a map, and each name stands where its position says. -/
structure Tracks (d : Deduped) (m : IndexMap String String) : Prop where
  entries : d.deduped = m.entries
  position : ∀ name i, d.positions.lookup name = some i ↔ (m.entries.map Prod.fst)[i]? = some name

theorem Tracks.add {d : Deduped} {m : IndexMap String String} (h : d.Tracks m) (pair : String × String) :
    (d.add pair).Tracks (m.insert pair.1 pair.2) := by
  have hkeys := IndexMap.keys_insertEntry pair.1 pair.2 m.entries
  unfold Deduped.add
  cases hp : d.positions.lookup pair.1 with
  | some i =>
    have hi := (h.position _ _).mp hp
    rw [if_pos (List.mem_of_getElem? hi)] at hkeys
    refine ⟨?_, fun name j => ?_⟩
    · show d.deduped.modify i _ = _
      rw [h.entries, modify_eq_insertEntry m.nodup hi]
      rfl
    · show _ ↔ ((IndexMap.insertEntry pair.1 pair.2 m.entries).map Prod.fst)[j]? = some name
      rw [hkeys]
      exact h.position name j
  | none =>
    have hnot : pair.1 ∉ m.entries.map Prod.fst := by
      intro hm
      obtain ⟨i, hi⟩ := List.mem_iff_getElem?.mp hm
      rw [(h.position _ _).mpr hi] at hp
      cases hp
    rw [if_neg hnot] at hkeys
    refine ⟨?_, fun name j => ?_⟩
    · show d.deduped ++ [pair] = IndexMap.insertEntry pair.1 pair.2 m.entries
      rw [insertEntry_of_not_mem hnot, h.entries]
    · show AList.lookup name (d.positions.insert pair.1 d.deduped.length) = some j ↔
        ((IndexMap.insertEntry pair.1 pair.2 m.entries).map Prod.fst)[j]? = some name
      have hlength : (m.entries.map Prod.fst).length = d.deduped.length := by rw [List.length_map, h.entries]
      rw [hkeys, HashMap.lookup_insert]
      by_cases hj : j < d.deduped.length
      · rw [List.getElem?_append_left (hlength.symm ▸ hj), ← h.position]
        by_cases hname : name = pair.1
        · rw [if_pos hname, hname, hp]
          exact iff_of_false (fun he => absurd (Option.some.inj he) (Nat.ne_of_gt hj)) nofun
        · rw [if_neg hname]
      · have hnone : d.positions.lookup name ≠ some j := fun he => by
          have hlt := (List.getElem?_eq_some_iff.mp ((h.position _ _).mp he)).1
          omega
        rw [List.getElem?_append_right (by omega), hlength]
        by_cases hname : name = pair.1
        · rw [if_pos hname, hname, List.getElem?_singleton]
          constructor
          · intro he
            rw [if_pos (by have := Option.some.inj he; omega)]
          · intro he
            split at he
            · exact congrArg some (by omega)
            · cases he
        · rw [if_neg hname, List.getElem?_singleton]
          refine iff_of_false hnone fun he => ?_
          split at he
          · exact hname (Option.some.inj he).symm
          · cases he

theorem Tracks.foldl {d : Deduped} {m : IndexMap String String} (h : d.Tracks m) (pairs : List (String × String)) :
    (pairs.foldl Deduped.add d).Tracks (pairs.foldl (fun m pair => m.insert pair.1 pair.2) m) := by
  induction pairs generalizing d m with
  | nil => exact h
  | cons pair pairs ih => exact ih (h.add pair)

theorem tracks_empty : ({} : Deduped).Tracks IndexMap.empty where
  entries := rfl
  position _ _ := iff_of_false nofun nofun

/-- The loop gives the last value of each name. -/
theorem foldl_add (pairs : List (String × String)) :
    (pairs.foldl Deduped.add {}).deduped = (IndexMap.ofEntries pairs).entries :=
  (tracks_empty.foldl pairs).entries

end Deduped

end AiProxy

namespace PluginAiProxy

theorem dedup_entries (pairs : List (String × String)) (m : IndexMap String String) :
    dedup m.entries pairs = (pairs.foldl (fun m pair => m.insert pair.1 pair.2) m).entries := by
  induction pairs generalizing m with
  | nil => rfl
  | cons pair pairs ih =>
    rw [List.foldl_cons, ← ih, dedup]
    have hany : m.entries.any (·.1 = pair.1) = true ↔ pair.1 ∈ m.entries.map Prod.fst := by simp
    by_cases h : pair.1 ∈ m.entries.map Prod.fst
    · rw [if_pos (hany.mpr h), AiProxy.map_eq_insertEntry m.nodup h]
      rfl
    · rw [if_neg (mt hany.mp h), ← AiProxy.insertEntry_of_not_mem h]
      rfl

/-- The pipeline's query is the one of the loop. -/
theorem mergedQuery_eq {υ : Type} (env : RequestEnv υ) (p : PluginAiProxy υ) (existing : Option String) :
    p.mergedQuery env existing =
      AiProxy.mergedQuery env.parseForm env.serializeForm existing p.endpoint.query p.config.auth.query := by
  have hdedup : ∀ pairs, dedup [] pairs = (pairs.foldl AiProxy.Deduped.add {}).deduped := fun pairs =>
    (dedup_entries pairs IndexMap.empty).trans (AiProxy.Deduped.foldl_add pairs).symm
  unfold mergedQuery AiProxy.mergedQuery
  simp only [hdedup]

end PluginAiProxy

namespace AiProxy

open IndexMap (lastValue)

/-- The credentials win over the endpoint's parameters and these over the client's, and each name stands once. -/
structure MergedParams (client endpoint auth params : List (String × String)) : Prop where
  names : (params.map Prod.fst).Nodup
  ofAuth : ∀ pair ∈ auth, params.filter (fun param => param.1 = pair.1) = [pair]
  ofEndpoint : ∀ name value, name ∉ auth.map Prod.fst → lastValue endpoint name = some value →
    params.filter (fun param => param.1 = name) = [(name, value)]
  ofClient : ∀ name value, name ∉ auth.map Prod.fst → name ∉ endpoint.map Prod.fst → lastValue client name = some value →
    params.filter (fun param => param.1 = name) = [(name, value)]
  nothingElse : ∀ param ∈ params, param.1 ∈ auth.map Prod.fst ∨ param.1 ∈ endpoint.map Prod.fst ∨ param.1 ∈ client.map Prod.fst

theorem mergedParams_ofEntries {client endpoint auth : List (String × String)} (hauth : (auth.map Prod.fst).Nodup) :
    MergedParams client endpoint auth (IndexMap.ofEntries (client ++ endpoint ++ auth)).entries := by
  have hvalue : ∀ name, (IndexMap.ofEntries (client ++ endpoint ++ auth)).lookup name =
      (lastValue auth name).or ((lastValue endpoint name).or (lastValue client name)) := fun name => by
    rw [IndexMap.lookup_ofEntries, IndexMap.lastValue_append, IndexMap.lastValue_append]
  constructor
  case names => exact IndexMap.nodup _
  case ofAuth =>
    intro pair hp
    refine IndexMap.filter_entries ?_
    rw [hvalue, IndexMap.lastValue_of_mem hauth hp, Option.some_or]
  case ofEndpoint =>
    intro name value hnot hv
    refine IndexMap.filter_entries ?_
    rw [hvalue, IndexMap.lastValue_eq_none.mpr hnot, hv, Option.none_or, Option.some_or]
  case ofClient =>
    intro name value hnot hnot' hv
    refine IndexMap.filter_entries ?_
    rw [hvalue, IndexMap.lastValue_eq_none.mpr hnot, IndexMap.lastValue_eq_none.mpr hnot', hv, Option.none_or,
      Option.none_or]
  case nothingElse =>
    intro param hp
    have hlookup := (IndexMap.mem_entries_iff _ param.1 param.2).mp hp
    by_contra hnone
    obtain ⟨ha, he, hc⟩ := not_or.mp hnone |>.imp id not_or.mp
    rw [hvalue, IndexMap.lastValue_eq_none.mpr ha, IndexMap.lastValue_eq_none.mpr he,
      IndexMap.lastValue_eq_none.mpr hc] at hlookup
    cases hlookup

/-- The parameters of a query; none for no query. -/
def paramsOf (parse : String → List (String × String)) (query : Option String) : List (String × String) :=
  query.elim [] parse

/-- Whatever the client's query is, the merged one decodes to the merged parameters. -/
theorem mergedQuery_params (parse : String → List (String × String)) (serialize : List (String × String) → String)
    (hserialize : ∀ pairs, parse (serialize pairs) = pairs) (existing : Option String)
    (endpointQuery authQuery : List (String × String)) (hauth : (authQuery.map Prod.fst).Nodup) :
    MergedParams (paramsOf parse existing) endpointQuery authQuery
      (paramsOf parse (mergedQuery parse serialize existing endpointQuery authQuery)) := by
  have hparams : paramsOf parse (mergedQuery parse serialize existing endpointQuery authQuery) =
      (IndexMap.ofEntries (paramsOf parse existing ++ endpointQuery ++ authQuery)).entries := by
    show paramsOf parse (if paramsOf parse existing ++ endpointQuery ++ authQuery = [] then none else _) = _
    by_cases hempty : paramsOf parse existing ++ endpointQuery ++ authQuery = []
    · rw [if_pos hempty, hempty]
      rfl
    · rw [if_neg hempty, Deduped.foldl_add]
      exact hserialize _
  rw [hparams]
  exact mergedParams_ofEntries hauth

theorem mergedQuery_params_respelled :
    MergedParams (paramsOf FormUrlencoded.parse (some "api%2Dkey=mine&model=a&Api-Key=b&model=c")) [("model", "d")]
      [("api-key", "secret")]
      (paramsOf FormUrlencoded.parse (mergedQuery FormUrlencoded.parse FormUrlencoded.serialize
        (some "api%2Dkey=mine&model=a&Api-Key=b&model=c") [("model", "d")] [("api-key", "secret")])) :=
  mergedQuery_params _ _ FormUrlencoded.parse_serialize _ _ _ (by decide)

end AiProxy

end Pingsix
