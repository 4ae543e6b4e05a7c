import Mustache.Proofs.Outline
import Mustache.Renderer

namespace Mustache

namespace Session

/-- Writes what a value is as text. Booleans, objects and lists are not. -/
def interpolate (s : Session) (escaped : Bool) : Value → Outcome
  | .null => ⟨s, none⟩
  | .number x => s.write x.toText
  | .string t => s.write (if escaped then t.escapeHtml else t)
  | .bool _ => s.fail (.unwritableKind .boolean)
  | .object _ => s.fail (.unwritableKind .object)
  | .list _ => s.fail (.unwritableKind .list)

def interpolateKey (s : Session) (escaped : Bool) (key : Text) : Outcome :=
  match s.lookup key with
  | (none, s) => ⟨s, none⟩
  | (some v, s) => s.interpolate escaped v

def inScope (body : Session → Outcome) (values : Mapping) (s : Session) : Outcome :=
  let o := body { s with context := .ofValues values :: s.context }
  { o with session := { o.session with context := o.session.context.tail } }

/-- The body of a section for a value: not at all, as it is, in a scope, or once for each object
of a list. -/
def forValue (body : Session → Outcome) (s : Session) : Value → Outcome
  | .null => ⟨s, none⟩
  | .bool false => ⟨s, none⟩
  | .bool true => body s
  | .object entries => inScope body entries s
  | .string t => inScope body [(['.'], .string t)] s
  | .number x => inScope body [(['.'], .number x)] s
  | .list items => Outcome.each (inScope body) items s

def unlessValue (body : Session → Outcome) (key : Text) (s : Session) : Value → Outcome
  | .null => body s
  | .bool false => body s
  | .list [] => body s
  | .bool true => ⟨s, none⟩
  | .list (_ :: _) => ⟨s, none⟩
  | .object _ => ⟨s, none⟩
  | .string _ => s.fail (.untestableKind key .string)
  | .number _ => s.fail (.untestableKind key .number)

def enter (s : Session) (opener : Token) (body : Session → Outcome) : Outcome :=
  if opener.key = ['i', 'f'] then s.fail (.unsupported .ifSections opener.place)
  else
    match s.lookup opener.key with
    | (none, s) => s.fail (.missingSectionVariable opener.key opener.place)
    | (some v, s) =>
      if opener.has .opener then s.forValue body v else s.unlessValue body opener.key v

end Session

def Placed.render (p : Placed) (s : Session) : Outcome :=
  if p.token.isComment then ⟨s, none⟩
  else
    match p.token.kind with
    | .literal => s.write p.trimmed
    | .tripleTag => s.interpolateKey false p.token.key
    | .tag =>
      if p.token.has .inclusion then s.fail (.unsupported .partials p.token.place)
      else s.interpolateKey (!p.token.has .raw) p.token.key

theorem Placed.render_of_isLiteral {p : Placed} (h : p.token.isLiteral = true) (s : Session) :
    p.render s = s.write p.trimmed := by
  have hkind : p.token.kind = .literal := of_decide_eq_true h
  rw [render, Token.isComment_of_isLiteral h, if_neg Bool.false_ne_true, hkind]

theorem Placed.render_of_isComment {p : Placed} (h : p.token.isComment = true) (s : Session) :
    p.render s = ⟨s, none⟩ := by
  rw [render, if_pos h]

namespace Outline

def isBreak (p : Placed) : Bool := p.token.text = ['\n']

def dropFirstBreak : Outline Placed → Outline Placed
  | leaf p rest => if isBreak p then rest else leaf p rest
  | o => o

def dropLastBreak : Outline Placed → Outline Placed
  | done => done
  | leaf p done => if isBreak p then done else leaf p done
  | leaf p rest => leaf p rest.dropLastBreak
  | sect opener body closer rest => sect opener body closer rest.dropLastBreak

def trimBreaks (body : Outline Placed) : Outline Placed :=
  let body := body.dropFirstBreak
  if 2 < body.flatten.length then body.dropLastBreak else body

theorem length_flatten_dropFirstBreak_le (o : Outline Placed) :
    o.dropFirstBreak.flatten.length ≤ o.flatten.length := by
  unfold dropFirstBreak
  repeat' split
  all_goals simp [flatten]

theorem length_flatten_dropLastBreak_le (o : Outline Placed) :
    o.dropLastBreak.flatten.length ≤ o.flatten.length := by
  fun_induction dropLastBreak o with
  | case1 => exact Nat.le_refl _
  | case2 p h => simp [flatten]
  | case3 p h => exact Nat.le_refl _
  | case4 p rest h ih => simpa [flatten] using ih
  | case5 opener body closer rest ih => simpa [flatten] using ih

theorem length_flatten_trimBreaks_le (o : Outline Placed) :
    o.trimBreaks.flatten.length ≤ o.flatten.length := by
  have h := length_flatten_dropFirstBreak_le o
  unfold trimBreaks
  dsimp only
  split
  · exact Nat.le_trans (length_flatten_dropLastBreak_le _) h
  · exact h

def eval : Outline Placed → Session → Outcome
  | done => fun s => ⟨s, none⟩
  | leaf p rest => fun s => (p.render s).andThen rest.eval
  | sect opener body _ rest => fun s =>
    (s.enter opener.token body.trimBreaks.eval).andThen rest.eval
termination_by o => o.flatten.length
decreasing_by
  · simp [flatten]
  · have h := length_flatten_trimBreaks_le body
    simp only [flatten, List.length_cons, List.length_append]
    omega
  · simp only [flatten, List.length_cons, List.length_append]
    omega

end Outline

/-! ## What a session does -/

@[simp] theorem Outcome.andThen_return (o : Outcome) : (o.andThen fun s => ⟨s, none⟩) = o := by
  obtain ⟨s, failure⟩ := o
  cases failure <;> rfl

@[simp] theorem Outcome.fail_andThen (s : Session) (e : Error) (next : Session → Outcome) :
    (s.fail e).andThen next = s.fail e := rfl

@[simp] theorem Outcome.return_andThen (s : Session) (next : Session → Outcome) :
    Outcome.andThen ⟨s, none⟩ next = next s := rfl

theorem Outcome.andThen_andThen (o : Outcome) (next last : Session → Outcome) :
    (o.andThen next).andThen last = o.andThen fun s => (next s).andThen last := by
  obtain ⟨s, failure⟩ := o
  cases failure <;> rfl

theorem Outcome.each_map {α β : Type} (f : α → β) (run : β → Session → Outcome) (as : List α)
    (s : Session) : Outcome.each run (as.map f) s = Outcome.each (run ∘ f) as s := by
  induction as generalizing s with
  | nil => rfl
  | cons a as ih =>
    have h : Outcome.each run (as.map f) = Outcome.each (run ∘ f) as := funext ih
    simp only [List.map_cons, Outcome.each, h, Function.comp_apply]

namespace Session

@[simp] theorem write_nil (s : Session) : s.write [] = ⟨s, none⟩ := by
  simp only [write, Text.encode_nil, Sink.write]
  cases s.sink.room? <;> simp

theorem write_append (s : Session) (t u : Text) :
    s.write (t ++ u) = (s.write t).andThen fun s => s.write u := by
  unfold write Outcome.andThen
  rw [Text.encode_append]
  by_cases hroom : s.sink.HasRoom t.encode
  · rw [← Sink.write_took hroom, Sink.write_of_hasRoom hroom]
    rfl
  · rw [Sink.write_append_of_not_hasRoom hroom]
    dsimp only
    cases hrefusal : (s.sink.write t.encode).2 with
    | none => exact absurd (Sink.write_eq_none_iff.1 hrefusal) hroom
    | some cause => rfl

theorem writeValue_eq_interpolateKey (s : Session) (key : Text) (escaped : Bool) :
    s.writeValue key escaped = s.interpolateKey escaped key := by
  unfold writeValue interpolateKey
  obtain ⟨found, s'⟩ := s.lookup key
  cases found with
  | none => rfl
  | some v => cases v <;> simp [Value.written, interpolate, Value.kind]

theorem each_passes_eq_forValue (body : Session → Outcome) (s : Session) (v : Value) :
    Outcome.each (within body) v.passes s = s.forValue body v := by
  cases v with
  | bool b => cases b <;> simp [Value.passes, Outcome.each, within, forValue]
  | list items => exact Outcome.each_map some (within body) items s
  | _ => simp [Value.passes, Outcome.each, within, forValue, inScope]

/-- With a single polarity a section is rendered for what its value holds, or for its absence. -/
theorem runSection_eq_enter (s : Session) (opener : Token) (body : Session → Outcome)
    (hif : opener.key ≠ ['i', 'f']) (hpol : opener.has .opener ≠ opener.has .inverter) :
    s.runSection ⟨opener.key, opener.has .opener, opener.has .inverter, opener.place⟩ body =
      s.enter opener body := by
  unfold runSection enter
  rw [if_neg hif]
  obtain ⟨found, s'⟩ := s.lookup opener.key
  cases found with
  | none => rfl
  | some v =>
    cases hdir : opener.has .opener with
    | true =>
      have hinv : opener.has .inverter = false := by simpa [hdir] using hpol.symm
      simp [hinv, each_passes_eq_forValue]
    | false =>
      have hinv : opener.has .inverter = true := by simpa [hdir] using hpol.symm
      simp only [hinv, Outcome.each, Bool.false_eq_true, if_false, if_true, Outcome.return_andThen]
      cases v with
      | bool b => cases b <;> rfl
      | list items => cases items <;> rfl
      | _ => rfl

end Session

namespace Outline

/-! ## Bodies of sections -/

theorem isLiteral_of_isBreak {p : Placed} (h : isBreak p = true) : p.token.isLiteral = true := by
  have htext : p.token.text = ['\n'] := of_decide_eq_true h
  rw [Token.isLiteral, Token.kind, htext]
  rfl

theorem isBreak_eq_false_of_tag {p : Placed} (h : p.token.isLiteral = false) :
    isBreak p = false := by
  rw [← Bool.not_eq_true]
  intro hbreak
  exact absurd ((isLiteral_of_isBreak hbreak).symm.trans h) (by decide)

theorem flatten_dropFirstBreak {o : Outline Placed}
    (h : (o.map Placed.token).isWellNested = true) :
    o.dropFirstBreak.flatten =
      if o.flatten.head?.any isBreak then o.flatten.tail else o.flatten := by
  cases o with
  | done => rfl
  | leaf p rest => cases hp : isBreak p <;> simp [dropFirstBreak, flatten, hp]
  | sect opener body closer rest =>
    simp only [map, isWellNested, Bool.and_eq_true] at h
    have ho := isBreak_eq_false_of_tag (isLiteral_of_kind_tag (isOpener_iff.1 h.1.1.1).1)
    simp [dropFirstBreak, flatten, ho]

theorem flatten_ne_nil {o : Outline Placed} (h : o ≠ done) : o.flatten ≠ [] := by
  cases o with
  | done => exact absurd rfl h
  | leaf p rest => simp [flatten]
  | sect opener body closer rest => simp [flatten]

/-- A bare line break at the end is dropped from the part that it stands in. -/
theorem append_dropBreak (as : List Placed) {ps : List Placed} (h : ps ≠ []) :
    (if (as ++ ps).getLast?.any isBreak then (as ++ ps).dropLast else as ++ ps) =
      as ++ if ps.getLast?.any isBreak then ps.dropLast else ps := by
  have hlast : (as ++ ps).getLast? = ps.getLast? := by
    rw [List.getLast?_append, List.getLast?_eq_some_getLast h]
    rfl
  rw [hlast, List.dropLast_append_of_ne_nil h]
  split <;> rfl

theorem flatten_dropLastBreak {o : Outline Placed}
    (h : (o.map Placed.token).isWellNested = true) :
    o.dropLastBreak.flatten =
      if o.flatten.getLast?.any isBreak then o.flatten.dropLast else o.flatten := by
  fun_induction dropLastBreak o with
  | case1 => rfl
  | case2 p hp => simp [flatten, hp]
  | case3 p hp => simp [flatten, hp]
  | case4 p rest hne ih =>
    simp only [map, isWellNested, Bool.and_eq_true] at h
    rw [flatten, flatten, ih h.2]
    exact (append_dropBreak [p] (flatten_ne_nil hne)).symm
  | case5 opener body closer rest ih =>
    simp only [map, isWellNested, Bool.and_eq_true] at h
    rw [flatten, flatten, ih h.2]
    by_cases hrest : rest.flatten = []
    · -- The closing tag is last, and no tag is a line break.
      have hc := isBreak_eq_false_of_tag (isLiteral_of_kind_tag (isCloserOf_iff.1 h.1.2).1)
      simp [hrest, List.getLast?_cons, hc]
    · simpa using (append_dropBreak (opener :: (body.flatten ++ [closer])) hrest).symm

theorem isWellNested_dropFirstBreak {o : Outline Placed}
    (h : (o.map Placed.token).isWellNested = true) :
    (o.dropFirstBreak.map Placed.token).isWellNested = true := by
  cases o with
  | done => exact h
  | leaf p rest =>
    simp only [map, isWellNested, Bool.and_eq_true] at h
    cases hp : isBreak p <;> simp [dropFirstBreak, map, isWellNested, hp, h]
  | sect opener body closer rest => exact h

theorem isWellNested_dropLastBreak {o : Outline Placed}
    (h : (o.map Placed.token).isWellNested = true) :
    (o.dropLastBreak.map Placed.token).isWellNested = true := by
  fun_induction dropLastBreak o with
  | case1 => exact h
  | case2 p hp => rfl
  | case3 p hp => exact h
  | case4 p rest hne ih =>
    simp only [map, isWellNested, Bool.and_eq_true] at h ⊢
    exact ⟨h.1, ih h.2⟩
  | case5 opener body closer rest ih =>
    simp only [map, isWellNested, Bool.and_eq_true] at h ⊢
    exact ⟨h.1, ih h.2⟩

theorem sectionBody_eq {ps front : List Placed}
    (h : front = if ps.head?.any isBreak then ps.tail else ps) :
    Template.sectionBody ps =
      if 2 < front.length ∧ front.getLast?.any isBreak then front.dropLast else front := by
  subst h
  rfl

/-- What is left of a body as an outline is what is left of it as a list of tokens. -/
theorem flatten_trimBreaks {o : Outline Placed} (h : (o.map Placed.token).isWellNested = true) :
    o.trimBreaks.flatten = Template.sectionBody o.flatten := by
  have hlast := flatten_dropLastBreak (isWellNested_dropFirstBreak h)
  rw [sectionBody_eq (flatten_dropFirstBreak h)]
  unfold trimBreaks
  dsimp only
  by_cases hl : 2 < o.dropFirstBreak.flatten.length
  · rw [if_pos hl, hlast]
    simp only [hl, true_and]
  · rw [if_neg hl, if_neg (fun hc => hl hc.1)]

theorem isWellNested_trimBreaks {o : Outline Placed}
    (h : (o.map Placed.token).isWellNested = true) :
    (o.trimBreaks.map Placed.token).isWellNested = true := by
  have hfirst := isWellNested_dropFirstBreak h
  unfold trimBreaks
  dsimp only
  split
  · exact isWellNested_dropLastBreak hfirst
  · exact hfirst

/-! ## Templates of flattened outlines -/

theorem run_ofPlaced_nil (s : Session) : (Template.ofPlaced []).run s = ⟨s, none⟩ := by
  rw [Template.ofPlaced]
  rfl

theorem run_ofPlaced_leaf {p : Placed} (h : p.token.isLeaf = true) (ps : List Placed)
    (s : Session) :
    (Template.ofPlaced (p :: ps)).run s = (p.render s).andThen (Template.ofPlaced ps).run := by
  rw [Template.ofPlaced, Placed.render]
  by_cases hcomment : p.token.isComment = true
  · simp only [hcomment, if_true]
    rfl
  rw [if_neg hcomment, if_neg hcomment]
  cases hk : p.token.kind with
  | literal => rfl
  | tripleTag =>
    dsimp only
    rw [← Session.writeValue_eq_interpolateKey]
    rfl
  | tag =>
    have hlit := isLiteral_of_kind_tag hk
    simp only [Token.isLeaf, hlit, hcomment, Bool.false_or, Bool.and_eq_true,
      Bool.not_eq_true'] at h
    obtain ⟨⟨ho, hi⟩, hc⟩ := h
    dsimp only
    by_cases hp : p.token.has .inclusion = true
    · rw [if_pos hp, if_pos hp]
      rfl
    · rw [if_neg hp, if_neg hp, ← Session.writeValue_eq_interpolateKey]
      simp only [Token.opensSection, ho, hi, hc, Bool.false_or, Bool.false_eq_true, if_false]
      rfl

theorem run_ofPlaced_literal {p : Placed} (h : p.token.isLiteral = true) (ps : List Placed)
    (s : Session) :
    (Template.ofPlaced (p :: ps)).run s =
      (s.write p.trimmed).andThen (Template.ofPlaced ps).run := by
  rw [run_ofPlaced_leaf (Token.isLeaf_of_isLiteral h), Placed.render_of_isLiteral h]

theorem run_ofPlaced_comment {p : Placed} (h : p.token.isComment = true) (ps : List Placed)
    (s : Session) : (Template.ofPlaced (p :: ps)).run s = (Template.ofPlaced ps).run s := by
  rw [run_ofPlaced_leaf (Token.isLeaf_of_isComment h), Placed.render_of_isComment h,
    Outcome.return_andThen]

/-- A section of a template renders its body, whatever stands behind its closing tag. -/
theorem run_ofPlaced_sect {opener closer : Placed} {body : Outline Placed}
    (ho : opener.token.isOpener = true) (hb : (body.map Placed.token).isWellNested = true)
    (hc : closer.token.isCloserOf opener.token.key = true) (ps : List Placed) (s : Session) :
    (Template.ofPlaced (opener :: (body.flatten ++ closer :: ps))).run s =
      (s.enter opener.token (Template.ofPlaced body.trimBreaks.flatten).run).andThen
        (Template.ofPlaced ps).run := by
  obtain ⟨hkind, hpol, -, hincl, hcomment⟩ := isOpener_iff.1 ho
  have hsplit : Template.splitAtCloser? opener.token.key 1 (body.flatten ++ closer :: ps) =
      some (body.flatten, ps) := splitAtCloser?_flatten hb hc
  rw [Template.ofPlaced]
  simp only [hcomment, hkind, hincl, opensSection_of_isOpener ho, Bool.false_eq_true, if_false,
    if_true]
  split
  next hnone => simp [hnone] at hsplit
  next body' rest hsome =>
    rw [hsplit] at hsome
    obtain ⟨rfl, rfl⟩ : body.flatten = body' ∧ ps = rest := by simpa using hsome
    by_cases hif : opener.token.key = ['i', 'f']
    · simp [hif, Session.enter, Template.run]
    · rw [if_neg hif, Template.run, flatten_trimBreaks hb,
        ← Session.runSection_eq_enter s opener.token _ hif hpol]

theorem run_ofPlaced_flatten {o : Outline Placed}
    (h : (o.map Placed.token).isWellNested = true) :
    (Template.ofPlaced o.flatten).run = o.eval := by
  -- The body that is rendered is no part of the outline; the induction is that of the evaluator.
  induction o using eval.induct with
  | case1 =>
    rw [eval, flatten, Template.ofPlaced]
    rfl
  | case2 p rest ih =>
    simp only [map, isWellNested, Bool.and_eq_true] at h
    funext s
    rw [eval, flatten, run_ofPlaced_leaf h.1, ih h.2]
  | case3 opener body closer rest ihb ihr =>
    simp only [map, isWellNested, Bool.and_eq_true] at h
    obtain ⟨⟨⟨ho, hb⟩, hc⟩, hr⟩ := h
    funext s
    rw [eval, flatten, run_ofPlaced_sect ho hb hc, ihb (isWellNested_trimBreaks hb), ihr hr]

/-- Where tags are nested, finding the ends of sections by counting comes to the same as recursion
on the nesting. -/
theorem run_ofTokens_flatten (o : Outline Token) (h : o.isWellNested = true) (s : Session) :
    (Template.ofTokens o.flatten).run s = (o.place none none).eval s := by
  rw [Template.ofTokens, ← flatten_place, run_ofPlaced_flatten]
  rwa [map_token_place]

def tokenAt (line column : Nat) (t : Text) : Token :=
  ⟨⟨t, ⟨line, column⟩, ⟨line, column + t.length - 1⟩⟩⟩

/-- A section around another with the same key, which stands between bare line breaks. -/
def nestedSections : Outline Token :=
  sect (tokenAt 1 1 ['{', '{', '#', 'a', '}', '}'])
    (leaf (tokenAt 1 6 ['\n'])
      (sect (tokenAt 2 1 ['{', '{', '#', 'a', '}', '}'])
        (leaf (tokenAt 2 7 ['x']) done)
        (tokenAt 2 8 ['{', '{', '/', 'a', '}', '}'])
        (leaf (tokenAt 2 13 ['\n']) done)))
    (tokenAt 3 1 ['{', '{', '/', 'a', '}', '}'])
    (leaf (tokenAt 3 7 ['{', '{', '!', ' ', 'c', '}', '}']) done)

theorem run_nestedSections :
    nestedSections.isWellNested = true ∧
      ((Template.ofTokens nestedSections.flatten).run
        ⟨[.ofValues [(['a'], .bool true)]], .unlimited⟩).session.sink.contents =
          Text.encode ['x'] := by
  refine ⟨by decide, ?_⟩
  rw [run_ofTokens_flatten nestedSections (by decide)]
  decide +kernel

end Outline

end Mustache
