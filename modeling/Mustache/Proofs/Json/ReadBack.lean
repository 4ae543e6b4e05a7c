import Mustache.Proofs.Json.Offenders

namespace Mustache

namespace Value

/-- What a value can be: mappings are in the order of their names, each name once, and numbers are
finite. -/
inductive IsData : Value → Prop where
  | null : IsData .null
  | bool (b : Bool) : IsData (.bool b)
  | number {x : Binary64} (hfinite : x.isFinite = true) : IsData (.number x)
  | string (t : Text) : IsData (.string t)
  | object {entries : Mapping} (hsorted : entries.IsSorted) (hentries : ∀ e ∈ entries, IsData e.2) :
    IsData (.object entries)
  | list {items : List Mapping} (hitems : ∀ entries ∈ items, IsData (.object entries)) :
    IsData (.list items)

theorem keys_entriesToJson (entries : Mapping) :
    Entries.keys (entriesToJson entries) = entries.keys := by
  rw [entriesToJson_eq_map, Entries.keys, List.map_map]
  rfl

theorem IsData.isDocument_toJson {v : Value} (h : v.IsData) : v.toJson.IsDocument := by
  induction h with
  | null => exact .null
  | bool b => exact .bool b
  | number hfinite => exact .double hfinite
  | string t => exact .string t
  | @object entries hsorted hentries ih =>
    rw [toJson]
    refine .object ?_ ?_
    · rwa [Entries.IsSorted, keys_entriesToJson]
    · rw [entriesToJson_eq_map]
      intro m hm
      obtain ⟨e, he, rfl⟩ := List.mem_map.1 hm
      exact ih e he
  | @list items hitems ih =>
    rw [toJson, itemsToJson_eq_map]
    refine .array fun item hitem => ?_
    obtain ⟨entries, hentries, rfl⟩ := List.mem_map.1 hitem
    exact ih entries hentries

/-- The numbers of a value are doubles already. -/
theorem IsData.withDoubles_toJson {v : Value} (h : v.IsData) :
    v.toJson.withDoubles = v.toJson := by
  induction h with
  | null | bool _ | number _ | string _ => rfl
  | @object entries hsorted hentries ih =>
    rw [toJson, Json.withDoubles, Json.membersWithDoubles_eq_map, entriesToJson_eq_map,
      List.map_map]
    exact congrArg Json.object (List.map_congr_left fun e he => congrArg (e.1, ·) (ih e he))
  | @list items hitems ih =>
    rw [toJson, Json.withDoubles, Json.itemsWithDoubles_eq_map, itemsToJson_eq_map, List.map_map]
    exact congrArg Json.array (List.map_congr_left ih)

theorem keys_of_entriesToJson {entries : Mapping} {members : Entries Json}
    (h : entriesToJson entries = Json.membersWithDoubles members) :
    entries.keys = members.keys := by
  have hkeys := congrArg Entries.keys h
  rw [keys_entriesToJson, Json.membersWithDoubles_eq_map] at hkeys
  rw [hkeys, Entries.keys, List.map_map]
  rfl

theorem isData_of_isDocument {j : Json} (h : j.IsDocument) {v : Value}
    (hv : v.toJson = j.withDoubles) : v.IsData := by
  -- The shape of the value is that of the document; all other constructors contradict `hv`.
  induction h generalizing v with
  | null => cases v <;> cases hv; exact .null
  | bool b => cases v <;> cases hv; exact .bool b
  | string t => cases v <;> cases hv; exact .string t
  | @int n hlow hhigh =>
    have hbits : Nat.pow 2 63 < Nat.pow 2 64 := by decide
    cases v <;> cases hv
    exact .number (Binary64.isFinite_ofInt (by omega))
  | double hfinite => cases v <;> cases hv; exact .number hfinite
  | @array items hitems ih =>
    cases v with
    | list lists =>
      rw [toJson, Json.withDoubles, Json.itemsWithDoubles_eq_map, itemsToJson_eq_map,
        Json.array.injEq] at hv
      refine .list fun entries hentries => ?_
      obtain ⟨item, hitem, heq⟩ := List.mem_map.1 (hv ▸ List.mem_map_of_mem hentries)
      exact ih item hitem heq.symm
    | null | bool _ | number _ | string _ | object _ => cases hv
  | @object members hsorted hmembers ih =>
    cases v with
    | object entries =>
      rw [toJson, Json.withDoubles, Json.object.injEq] at hv
      refine .object ?_ fun e he => ?_
      · rwa [Entries.IsSorted, keys_of_entriesToJson hv]
      · rw [entriesToJson_eq_map, Json.membersWithDoubles_eq_map] at hv
        obtain ⟨m, hm, heq⟩ := List.mem_map.1 (hv ▸ List.mem_map_of_mem he)
        exact ih m hm (congrArg Prod.snd heq).symm
    | null | bool _ | number _ | string _ | list _ => cases hv

structure ConvertsExactly (j : Json) : Prop where
  accepts : (∃ v, ofJson j = .ok v) ↔ j.ListsObjects
  /-- Nothing is lost but what numbers lose when they become doubles. -/
  readsBack (v : Value) : ofJson j = .ok v ↔ v.IsData ∧ v.toJson = j.withDoubles
  injective (v : Value) (other : Json) :
    ofJson j = .ok v → (ofJson other = .ok v ↔ other.withDoubles = j.withDoubles)
  /-- The error shows the first entry that does not belong where it is. -/
  rejects (e : Error) : ofJson j = .error e → ShowsFirst j.IsOffender e

/-- The conversion either says what does not belong into a document, or loses nothing but what
numbers lose when they become doubles. -/
theorem ofJson_exact {j : Json} (h : j.IsDocument) :
    ConvertsExactly j ∧
      ∀ v : Value, v.IsData → v.toJson.IsDocument ∧ ofJson v.toJson = .ok v := by
  refine ⟨⟨?accepts, ?readsBack, ?injective, ?rejects⟩, ?data⟩
  case accepts =>
    rw [← failure?_eq_none_iff, failure?_eq_none_iff_no_offender,
      Json.listsObjects_iff_no_offender]
  case readsBack =>
    intro v
    rw [ofJson_eq_ok_iff, iff_and_self]
    exact isData_of_isDocument h
  case injective =>
    intro v other hv
    rw [ofJson_eq_ok_iff] at hv ⊢
    rw [hv, eq_comm]
  case rejects =>
    intro e he
    exact failure?_showsFirst h (failure?_eq_some_iff.2 he)
  case data =>
    intro v hv
    exact ⟨hv.isDocument_toJson, (ofJson_eq_ok_iff _ v).2 hv.withDoubles_toJson.symm⟩

/-- Three entries that are no objects. The text has the members in another order. -/
def mixed : Json :=
  .object [
    (['a'], .array [
      .object [(['b'], .array [.object [], .int 17])],
      .string ['x']]),
    (['c'], .array [.bool true])]

def mixedTree : Json.Tree :=
  .object [
    (some ['c'], .array [.bool true]),
    (some ['a'], .array [
      .object [(some ['b'], .array [.object [], .number ⟨false, 17, 0, true⟩])],
      .string (some ['x'])])]

theorem ofJson_mixed :
    mixed.IsDocument ∧
      ∃ path entry, Json.Path.IsFirst mixed.IsOffender path entry ∧ entry.toText = ['1', '7'] := by
  have hread : Json.ofTree? Json.maxDepth mixedTree = some mixed := rfl
  have hdocument : mixed.IsDocument := Json.isDocument_of_ofTree? mixedTree hread
  have herror : ofJson mixed = .error (.unsupportedEntry ['1', '7']) := rfl
  obtain ⟨path, entry, hfirst, he⟩ := (ofJson_exact hdocument).1.rejects _ herror
  exact ⟨hdocument, path, entry, hfirst, (Error.unsupportedEntry.inj he).symm⟩

end Value

end Mustache
