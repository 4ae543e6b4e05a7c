import Mustache.Error
import Mustache.Json

namespace Mustache

namespace Value

mutual

def ofJson : Json → Except Error Value
  | .null => .ok .null
  | .bool b => .ok (.bool b)
  | .int n => .ok (.number (.ofInt n))
  | .double x => .ok (.number x)
  | .string t => .ok (.string t)
  | .object members => (ofMembers members).map .object
  | .array items => (ofItems items).map .list

def ofMembers : List (Text × Json) → Except Error (List (Text × Value))
  | [] => .ok []
  | (name, j) :: members => do
    let v ← ofJson j
    return (name, v) :: (← ofMembers members)

def ofItems : List Json → Except Error (List (List (Text × Value)))
  | [] => .ok []
  | .object members :: items => do
    let es ← ofMembers members
    return es :: (← ofItems items)
  | item :: _ => .error (.unsupportedEntry item.toText)

end

def rootOfJson (j : Json) : Except Error Mapping := (ofJson j).map root

mutual

def toJson : Value → Json
  | null => .null
  | bool b => .bool b
  | number x => .double x
  | string t => .string t
  | object entries => .object (entriesToJson entries)
  | list items => .array (itemsToJson items)

def entriesToJson : List (Text × Value) → List (Text × Json)
  | [] => []
  | (key, v) :: entries => (key, toJson v) :: entriesToJson entries

def itemsToJson : List (List (Text × Value)) → List Json
  | [] => []
  | entries :: items => .object (entriesToJson entries) :: itemsToJson items

end

theorem entriesToJson_eq_map (entries : List (Text × Value)) :
    entriesToJson entries = entries.map fun e => (e.1, e.2.toJson) := by
  induction entries with
  | nil => rfl
  | cons e entries ih => rw [entriesToJson, ih, List.map_cons]

theorem itemsToJson_eq_map (items : List (List (Text × Value))) :
    itemsToJson items = items.map fun entries => (object entries).toJson := by
  induction items with
  | nil => rfl
  | cons entries items ih => rw [itemsToJson, ih, List.map_cons, toJson]

end Value

namespace Json

mutual

/-- A document with the nearest double in place of each integer. -/
def withDoubles : Json → Json
  | int n => double (.ofInt n)
  | array items => array (itemsWithDoubles items)
  | object members => object (membersWithDoubles members)
  | null => null
  | bool b => bool b
  | double x => double x
  | string t => string t

def itemsWithDoubles : List Json → List Json
  | [] => []
  | item :: items => withDoubles item :: itemsWithDoubles items

def membersWithDoubles : List (Text × Json) → List (Text × Json)
  | [] => []
  | (key, item) :: members => (key, withDoubles item) :: membersWithDoubles members

end

theorem itemsWithDoubles_eq_map (items : List Json) :
    itemsWithDoubles items = items.map withDoubles := by
  induction items with
  | nil => rfl
  | cons item items ih => rw [itemsWithDoubles, ih, List.map_cons]

theorem membersWithDoubles_eq_map (members : List (Text × Json)) :
    membersWithDoubles members = members.map fun m => (m.1, m.2.withDoubles) := by
  induction members with
  | nil => rfl
  | cons m members ih => rw [membersWithDoubles, ih, List.map_cons]

end Json

namespace Value

theorem map_eq_ok_iff {α β : Type} {f : α → β} {r : Except Error α} {b : β} :
    r.map f = .ok b ↔ ∃ a, r = .ok a ∧ f a = b := by
  cases r <;> simp [Except.map]

theorem bind_eq_ok_iff {α β γ : Type} {r : Except Error α} {s : Except Error β} {f : α → β → γ}
    {c : γ} :
    (do let a ← r; let b ← s; return f a b) = Except.ok c ↔
      ∃ a, r = .ok a ∧ ∃ b, s = .ok b ∧ f a b = c := by
  cases r <;> cases s <;> simp [bind, Except.bind, pure, Except.pure]

mutual

theorem ofJson_eq_ok_iff : (j : Json) → (v : Value) →
    (ofJson j = .ok v ↔ v.toJson = j.withDoubles)
  | .null, v | .bool _, v | .int _, v | .double _, v | .string _, v => by
    cases v <;> simp [ofJson, toJson, Json.withDoubles, eq_comm]
  | .array items, v => by
    rw [ofJson, map_eq_ok_iff, Json.withDoubles]
    simp only [ofItems_eq_ok_iff items]
    cases v <;> simp [toJson]
  | .object members, v => by
    rw [ofJson, map_eq_ok_iff, Json.withDoubles]
    simp only [ofMembers_eq_ok_iff members]
    cases v <;> simp [toJson]

theorem ofMembers_eq_ok_iff : (members : List (Text × Json)) → (entries : List (Text × Value)) →
    (ofMembers members = .ok entries ↔ entriesToJson entries = Json.membersWithDoubles members)
  | [], entries => by
    cases entries <;> simp [ofMembers, entriesToJson, Json.membersWithDoubles]
  | (key, item) :: members, entries => by
    rw [ofMembers, bind_eq_ok_iff, Json.membersWithDoubles]
    simp only [ofJson_eq_ok_iff item, ofMembers_eq_ok_iff members]
    cases entries with
    | nil => simp [entriesToJson]
    | cons e entries =>
      obtain ⟨k, w⟩ := e
      simp only [entriesToJson, List.cons.injEq, Prod.mk.injEq]
      constructor
      · rintro ⟨_, hw, _, hentries, ⟨rfl, rfl⟩, rfl⟩
        exact ⟨⟨rfl, hw⟩, hentries⟩
      · rintro ⟨⟨rfl, hw⟩, hentries⟩
        exact ⟨w, hw, entries, hentries, ⟨rfl, rfl⟩, rfl⟩

theorem ofItems_eq_ok_iff : (items : List Json) → (lists : List (List (Text × Value))) →
    (ofItems items = .ok lists ↔ itemsToJson lists = Json.itemsWithDoubles items)
  | [], lists => by
    cases lists <;> simp [ofItems, itemsToJson, Json.itemsWithDoubles]
  | .object members :: items, lists => by
    rw [ofItems, bind_eq_ok_iff, Json.itemsWithDoubles, Json.withDoubles]
    simp only [ofMembers_eq_ok_iff members, ofItems_eq_ok_iff items]
    cases lists with
    | nil => simp [itemsToJson]
    | cons entries lists =>
      simp only [itemsToJson, List.cons.injEq, Json.object.injEq]
      constructor
      · rintro ⟨_, hentries, _, hlists, rfl, rfl⟩
        exact ⟨hentries, hlists⟩
      · rintro ⟨hentries, hlists⟩
        exact ⟨entries, hentries, lists, hlists, rfl, rfl⟩
  | .null :: _, lists | .bool _ :: _, lists | .int _ :: _, lists | .double _ :: _, lists
  | .string _ :: _, lists | .array _ :: _, lists => by
    -- The items of a list are written as objects, and none of these is one.
    cases lists <;> simp [ofItems, itemsToJson, Json.itemsWithDoubles, Json.withDoubles]

end

end Value

end Mustache
