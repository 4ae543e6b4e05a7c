import Mustache.Proofs.Template
import Mustache.Renderer

namespace Mustache

namespace Session

def writeFor (escaped : Bool) : Option Value → Session → Outcome
  | none, s => ⟨s, none⟩
  | some v, s =>
    match v.written escaped with
    | .error kind => s.fail (.unwritableKind kind)
    | .ok t => s.write t

theorem writeValue_eq (s : Session) (key : Text) (escaped : Bool) :
    s.writeValue key escaped = writeFor escaped (s.lookup key).1 (s.lookup key).2 := by
  unfold writeValue
  rcases s.lookup key with ⟨_ | v, next⟩ <;> rfl

def inversely (tag : SectionTag) (v : Value) (body : Session → Outcome) (s : Session) : Outcome :=
  if tag.inverted then
    match v.isEmpty with
    | .error kind => s.fail (.untestableKind tag.key kind)
    | .ok true => body s
    | .ok false => ⟨s, none⟩
  else ⟨s, none⟩

def sectionFor (tag : SectionTag) (body : Session → Outcome) :
    Option Value → Session → Outcome
  | none, s => s.fail (.missingSectionVariable tag.key tag.place)
  | some v, s =>
    (Outcome.each (within body) (if tag.direct then v.passes else []) s).andThen
      (inversely tag v body)

theorem runSection_eq (s : Session) (tag : SectionTag) (body : Session → Outcome) :
    s.runSection tag body = sectionFor tag body (s.lookup tag.key).1 (s.lookup tag.key).2 := by
  unfold runSection
  rcases s.lookup tag.key with ⟨_ | v, next⟩ <;> rfl

end Session

/-- What has to be shown of a relation of runs so that it is kept when runs are put together, apart
from look-ups. -/
structure Session.Congruence (errors : Error → Prop) (inner : Mapping → Prop)
    (R : (Session → Outcome) → (Session → Outcome) → Prop) : Prop where
  skip : R (fun s => ⟨s, none⟩) fun s => ⟨s, none⟩
  fail (e : Error) : errors e → R (fun s => s.fail e) fun s => s.fail e
  write (t : Text) : R (fun s => s.write t) fun s => s.write t
  andThen {run run' next next' : Session → Outcome} : R run run' → R next next' →
    R (fun s => (run s).andThen next) fun s => (run' s).andThen next'
  within {run run' : Session → Outcome} {values : Mapping} : R run run' → inner values →
    R (Session.within run (some values)) (Session.within run' (some values))

namespace Session.Congruence

variable {errors : Error → Prop} {inner : Mapping → Prop}
  {R : (Session → Outcome) → (Session → Outcome) → Prop} {body body' : Session → Outcome}
  (h : Congruence errors inner R)

include h

theorem within_each (hbody : R body body') {values : List (Option Mapping)}
    (hinner : ∀ entries : Mapping, some entries ∈ values → inner entries) :
    R (Outcome.each (Session.within body) values) (Outcome.each (Session.within body') values) := by
  induction values with
  | nil => exact h.skip
  | cons first values ih =>
    have hrest := ih fun entries hentries => hinner entries (List.mem_cons_of_mem first hentries)
    cases first with
    | none => exact h.andThen hbody hrest
    | some entries => exact h.andThen (h.within hbody (hinner entries List.mem_cons_self)) hrest

theorem writeFor (herrors : ∀ kind, errors (.unwritableKind kind)) (escaped : Bool)
    (found : Option Value) :
    R (Session.writeFor escaped found) (Session.writeFor escaped found) := by
  cases found with
  | none => exact h.skip
  | some v =>
    unfold Session.writeFor
    dsimp only
    cases v.written escaped with
    | error kind => exact h.fail _ (herrors kind)
    | ok t => exact h.write t

theorem inversely {tag : SectionTag} (herrors : ∀ kind, errors (.untestableKind tag.key kind))
    (v : Value) (hbody : R body body') :
    R (Session.inversely tag v body) (Session.inversely tag v body') := by
  unfold Session.inversely
  cases tag.inverted with
  | false => exact h.skip
  | true =>
    cases v.isEmpty with
    | error kind => exact h.fail _ (herrors kind)
    | ok empty =>
      cases empty with
      | true => exact hbody
      | false => exact h.skip

theorem sectionFor {tag : SectionTag} (herrors : ∀ kind, errors (.untestableKind tag.key kind))
    {v : Value} (hinner : ∀ entries : Mapping, some entries ∈ v.passes → inner entries)
    (hbody : R body body') :
    R (Session.sectionFor tag body (some v)) (Session.sectionFor tag body' (some v)) := by
  apply h.andThen (h.within_each hbody ?_) (h.inversely herrors v hbody)
  intro entries hentries
  split at hentries
  · exact hinner entries hentries
  · cases hentries

end Session.Congruence

structure Session.Compositional (P : (Session → Outcome) → Prop) : Prop where
  skip : P fun s => ⟨s, none⟩
  fail (e : Error) : P fun s => s.fail e
  write (t : Text) : P fun s => s.write t
  lookup (key : Text) {next : Option Value → Session → Outcome} :
    (∀ found, P (next found)) → P fun s => next (s.lookup key).1 (s.lookup key).2
  andThen {run next : Session → Outcome} : P run → P next → P fun s => (run s).andThen next
  within {run : Session → Outcome} :
    P run → ∀ values : Mapping, P (Session.within run (some values))

/-- What has to be shown of a property so that the runs of templates have it which use only some
keys and errors. -/
structure Session.CompositionalOver (keys : Text → Prop) (errors : Error → Prop)
    (P : (Session → Outcome) → Prop) : Prop where
  skip : P fun s => ⟨s, none⟩
  fail (e : Error) : errors e → P fun s => s.fail e
  write (t : Text) : P fun s => s.write t
  lookup (key : Text) {next : Option Value → Session → Outcome} :
    keys key → (∀ found, P (next found)) → P fun s => next (s.lookup key).1 (s.lookup key).2
  andThen {run next : Session → Outcome} : P run → P next → P fun s => (run s).andThen next
  within {run : Session → Outcome} :
    P run → ∀ values : Mapping, P (Session.within run (some values))

namespace Session.CompositionalOver

variable {keys : Text → Prop} {errors : Error → Prop} {P : (Session → Outcome) → Prop}
  (h : CompositionalOver keys errors P)

include h

/-- A property of runs is a relation of equal runs. -/
theorem congruence : Congruence errors (fun _ => True) fun run run' => run = run' ∧ P run where
  skip := ⟨rfl, h.skip⟩
  fail e he := ⟨rfl, h.fail e he⟩
  write t := ⟨rfl, h.write t⟩
  andThen
    | ⟨rfl, hrun⟩, ⟨rfl, hnext⟩ => ⟨rfl, h.andThen hrun hnext⟩
  within
    | ⟨rfl, hrun⟩, _ => ⟨rfl, h.within hrun _⟩

theorem writeValue {key : Text} (hkey : keys key) (herrors : ∀ kind, errors (.unwritableKind kind))
    (escaped : Bool) : P fun s => s.writeValue key escaped := by
  simp only [Session.writeValue_eq]
  exact h.lookup key hkey fun found => (h.congruence.writeFor herrors escaped found).2

theorem runSection {tag : SectionTag} (hkey : keys tag.key)
    (hmissing : errors (.missingSectionVariable tag.key tag.place))
    (herrors : ∀ kind, errors (.untestableKind tag.key kind)) {body : Session → Outcome}
    (hbody : P body) : P fun s => s.runSection tag body := by
  have hfor (found : Option Value) : P (Session.sectionFor tag body found) := by
    cases found with
    | none => exact h.fail _ hmissing
    | some v => exact (h.congruence.sectionFor herrors (fun _ _ => trivial) ⟨rfl, hbody⟩).2
  simp only [Session.runSection_eq]
  exact h.lookup tag.key hkey hfor

theorem run {t : Template} (ht : t.UsesOnly keys errors) : P t.run := by
  induction t with
  | done => exact h.skip
  | text t rest ih => exact h.andThen (h.write t) (ih ht)
  | value key escaped rest ih =>
    obtain ⟨⟨hkey, herrors⟩, hrest⟩ := ht
    exact h.andThen (h.writeValue hkey herrors escaped) (ih hrest)
  | sect tag body rest ihbody ih =>
    obtain ⟨⟨hkey, hmissing, herrors⟩, hbody, hrest⟩ := ht
    exact h.andThen (h.runSection hkey hmissing herrors (ihbody hbody)) (ih hrest)
  | stop failure => exact h.fail failure ht

end Session.CompositionalOver

theorem Session.Compositional.over {P : (Session → Outcome) → Prop} (h : Compositional P)
    (keys : Text → Prop) (errors : Error → Prop) : CompositionalOver keys errors P where
  skip := h.skip
  fail e _ := h.fail e
  write := h.write
  lookup key _ _ hnext := h.lookup key hnext
  andThen := h.andThen
  within := h.within

theorem Session.Compositional.run {P : (Session → Outcome) → Prop} (h : Compositional P)
    (t : Template) : P t.run :=
  (h.over (fun _ => True) fun _ => True).run
    (t.usesOnly_of_forall (fun _ => trivial) fun _ => trivial)

/-- A run fails because of the sink or because of what its template stops with. -/
theorem Session.failure_compositionalOver (keys : Text → Prop) (errors : Error → Prop) :
    CompositionalOver keys errors fun run => ∀ (s : Session) (e : Error),
      (run s).failure = some e → (∃ cause, e = .fault cause) ∨ errors e where
  skip s e h := by cases h
  fail e he s e' h := by
    cases h
    exact Or.inr he
  write t s e h := by
    obtain ⟨cause, -, rfl⟩ := Option.map_eq_some_iff.1 h
    exact Or.inl ⟨cause, rfl⟩
  lookup key _ _ hnext s e h := hnext _ _ e h
  andThen {run next} hrun hnext s e h := by
    dsimp only [Outcome.andThen] at h
    cases hfailure : (run s).failure with
    | none =>
      rw [hfailure] at h
      exact hnext _ e h
    | some e' =>
      rw [hfailure] at h
      exact hrun s e h
  within hrun values s e h := hrun _ e h

theorem Template.failure_run_ofTokens {tokens : List Token} {s : Session} {e : Error}
    (h : ((ofTokens tokens).run s).failure = some e) :
    (∃ cause, e = .fault cause) ∨ ∃ t ∈ tokens, t.isLiteral = false ∧ t.Causes e :=
  (Session.failure_compositionalOver _ _).run (usesOnly_ofTokens tokens) s e h

end Mustache
