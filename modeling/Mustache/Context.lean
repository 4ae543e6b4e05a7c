import Mustache.Value

namespace Mustache

namespace Text

/-- The parts of a key before and after its first dot, unless the key begins with it. -/
def splitKey? (key : Text) : Option (Text × Text) :=
  match key.dropWhile (· ≠ '.') with
  | [] => none
  | _ :: rest =>
    let head := key.takeWhile (· ≠ '.')
    if head.isEmpty then none else some (head, rest)

theorem length_of_splitKey? {key head rest : Text} (h : splitKey? key = some (head, rest)) :
    rest.length < key.length := by
  have hl := (List.dropWhile_suffix (· ≠ '.') (l := key)).length_le
  unfold splitKey? at h
  split at h
  · simp at h
  next hk =>
    simp only [Option.ite_none_left_eq_some, Option.some.injEq, Prod.mk.injEq] at h
    rw [hk, h.2.2, List.length_cons] at hl
    exact hl

end Text

/-- Looks a key up in a mapping and the objects in it. Beside the value this gives the names of the
objects that were entered. Blanks around the key, and around what is left of it, do not count. -/
def Mapping.resolve (key : Text) (values : Mapping) : List Text × Option Value :=
  match _h : Text.splitKey? key.trim with
  | none => ([], values.get? key.trim)
  | some (head, rest) =>
    match values.get? head with
    | some (.object entries) =>
      let (entered, found) := Mapping.resolve rest entries
      (head :: entered, found)
    | _ => ([], values.get? key.trim)
termination_by key.length
decreasing_by exact Nat.lt_of_lt_of_le (Text.length_of_splitKey? ‹_›) (Text.length_trim_le key)

structure Scope where
  values : Mapping
  /-- The names of objects that have been entered from here. -/
  claimed : List Text

namespace Scope

def ofValues (values : Mapping) : Scope := ⟨values, []⟩

def claims (s : Scope) (key : Text) : Bool :=
  match Text.splitKey? key with
  | none => false
  | some (head, _) => s.claimed.contains head

def lookup (s : Scope) (key : Text) : Option Value × Scope :=
  let (entered, found) := s.values.resolve key
  (found, { s with claimed := entered.foldl (fun names name => names.insert name) s.claimed })

def toText (s : Scope) : Text :=
  "Context: [".toList ++ Text.join [',', ' '] s.values.keys ++ [']']

end Scope

abbrev Context := List Scope

namespace Context

/-- The value of a key in the innermost scope that has it, but no further out than the first scope
that claims the key. -/
def lookup (key : Text) : Context → Option Value × Context
  | [] => (none, [])
  | s :: outer =>
    let (found, s) := s.lookup key
    if found.isSome ∨ s.claims key then (found, s :: outer)
    else
      let (found, outer) := lookup key outer
      (found, s :: outer)

def toText (c : Context) : Text := Text.join " -> ".toList (c.map Scope.toText)

end Context

end Mustache
