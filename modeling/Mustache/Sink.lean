import Mustache.Error

namespace Mustache

structure Sink where
  written : Array UInt8
  /-- How many bytes the sink takes. -/
  limit : Option Nat
  /-- Why the sink refuses more. -/
  refusal : Fault
deriving DecidableEq

namespace Sink

def ofLimit (limit : Option Nat) (refusal : Fault) : Sink := ⟨#[], limit, refusal⟩

def unlimited : Sink := ofLimit none (.device [])

def contents (s : Sink) : Text.Bytes := s.written.toList

def room? (s : Sink) : Option Nat := s.limit.map (· - s.written.size)

/-- Writes as much as fits, and says why not all of it if not all of it does. -/
def write (s : Sink) (bytes : Text.Bytes) : Sink × Option Fault :=
  match s.room? with
  | none => ({ s with written := s.written ++ bytes }, none)
  | some room =>
    ({ s with written := s.written ++ bytes.take room },
      if bytes.length ≤ room then none else some s.refusal)

theorem contents_write (s : Sink) (bytes : Text.Bytes) :
    (s.write bytes).1.contents =
      s.contents ++ (match s.room? with | none => bytes | some room => bytes.take room) := by
  unfold write
  split <;> simp [contents]

def HasRoom (s : Sink) (bytes : Text.Bytes) : Prop :=
  ∀ room, s.room? = some room → bytes.length ≤ room

theorem hasRoom_of_limit {s : Sink} (h : s.limit = none) (bytes : Text.Bytes) :
    s.HasRoom bytes := by
  intro room hroom
  rw [room?, h] at hroom
  cases hroom

theorem hasRoom_nil (s : Sink) : s.HasRoom [] := by
  intro room _
  exact Nat.zero_le room

theorem HasRoom.of_length_le {s : Sink} {a b : Text.Bytes} (h : s.HasRoom b)
    (hle : a.length ≤ b.length) : s.HasRoom a := by
  intro room hroom
  exact Nat.le_trans hle (h room hroom)

/-- The sink after bytes for which it has room. -/
def took (s : Sink) (bytes : Text.Bytes) : Sink := { s with written := s.written ++ bytes }

theorem write_of_hasRoom {s : Sink} {bytes : Text.Bytes} (h : s.HasRoom bytes) :
    s.write bytes = (s.took bytes, none) := by
  unfold write
  split
  · rfl
  next room hroom =>
    rw [List.take_of_length_le (h room hroom), if_pos (h room hroom)]
    rfl

theorem took_nil (s : Sink) : s.took [] = s := by
  simp [took]

theorem took_took (s : Sink) (a b : Text.Bytes) : (s.took a).took b = s.took (a ++ b) := by
  have hwritten : s.written ++ a ++ b = s.written ++ (a ++ b) := by
    apply Array.toList_inj.1
    simp
  rw [took, took, took, hwritten]

theorem contents_took (s : Sink) (bytes : Text.Bytes) :
    (s.took bytes).contents = s.contents ++ bytes := by
  simp [took, contents]

theorem room?_took (s : Sink) (bytes : Text.Bytes) :
    (s.took bytes).room? = s.room?.map (· - bytes.length) := by
  have hsize : (s.took bytes).written.size = s.written.size + bytes.length := by
    rw [took, ← Array.length_toList, ← Array.length_toList]
    simp
  rw [room?, room?, Option.map_map, hsize]
  apply congrArg (Option.map · s.limit)
  funext limit
  exact (Nat.sub_sub limit s.written.size bytes.length).symm

theorem hasRoom_append_iff {s : Sink} {a b : Text.Bytes} :
    s.HasRoom (a ++ b) ↔ s.HasRoom a ∧ (s.took a).HasRoom b := by
  unfold HasRoom
  rw [room?_took, List.length_append]
  cases s.room? with
  | none => simp
  | some room =>
    simp only [Option.map_some, Option.some.injEq, forall_eq']
    omega

theorem hasRoom_left {s : Sink} {a b : Text.Bytes} (h : s.HasRoom (a ++ b)) : s.HasRoom a :=
  (hasRoom_append_iff.1 h).1

theorem hasRoom_right {s : Sink} {a b : Text.Bytes} (h : s.HasRoom (a ++ b)) :
    (s.took a).HasRoom b :=
  (hasRoom_append_iff.1 h).2

theorem write_took {s : Sink} {a : Text.Bytes} (h : s.HasRoom a) (b : Text.Bytes) :
    (s.took a).write b = s.write (a ++ b) := by
  unfold write
  rw [room?_took]
  cases hroom : s.room? with
  | none => exact congrArg (·, none) (took_took s a b)
  | some room =>
    have hfit : a.length ≤ room := h room hroom
    have hfits : b.length ≤ room - a.length ↔ (a ++ b).length ≤ room := by
      rw [List.length_append]
      omega
    have htake : (a ++ b).take room = a ++ b.take (room - a.length) := by
      rw [List.take_append, List.take_of_length_le hfit]
    simp only [Option.map_some, hfits, htake, Prod.mk.injEq]
    exact ⟨took_took s a _, rfl⟩

/-- Bytes that do not fit are cut, and what is written with them is cut at the same place. -/
theorem write_append_of_not_hasRoom {s : Sink} {a : Text.Bytes} (h : ¬ s.HasRoom a)
    (b : Text.Bytes) : s.write (a ++ b) = s.write a := by
  unfold HasRoom at h
  unfold write
  cases hroom : s.room? with
  | none => simp [hroom] at h
  | some room =>
    simp only [hroom, Option.some.injEq, forall_eq', Nat.not_le] at h
    have htake : (a ++ b).take room = a.take room := by
      rw [List.take_append, Nat.sub_eq_zero_of_le (Nat.le_of_lt h), List.take_zero, List.append_nil]
    have hover : ¬ (a ++ b).length ≤ room := by
      rw [List.length_append]
      omega
    simp only [htake, if_neg hover, if_neg (Nat.not_le.2 h)]

/-- A sink that has no room for some bytes takes the first of them and gives its reason. -/
theorem write_of_not_hasRoom {s : Sink} {bytes : Text.Bytes} (h : ¬ s.HasRoom bytes) :
    ∃ room, s.room? = some room ∧ room < bytes.length ∧
      s.write bytes = (s.took (bytes.take room), some s.refusal) := by
  unfold HasRoom at h
  unfold write
  cases hroom : s.room? with
  | none => simp [hroom] at h
  | some room =>
    simp only [hroom, Option.some.injEq, forall_eq', Nat.not_le] at h
    refine ⟨room, rfl, h, ?_⟩
    dsimp only
    rw [if_neg (Nat.not_le.2 h)]
    rfl

theorem write_eq_none_iff {s : Sink} {bytes : Text.Bytes} :
    (s.write bytes).2 = none ↔ s.HasRoom bytes := by
  unfold write HasRoom
  cases s.room? <;> simp

end Sink

end Mustache
