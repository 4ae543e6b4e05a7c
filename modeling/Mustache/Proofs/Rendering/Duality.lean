import Mustache.Proofs.Lookup.Root
import Mustache.Proofs.Polarity
import Mustache.Proofs.Rendering.Roots

namespace Mustache

def SectionTag.exchange (key : Text) (tag : SectionTag) : SectionTag :=
  if tag.key = key then { tag with direct := tag.inverted, inverted := tag.direct } else tag

@[simp] theorem SectionTag.key_exchange (key : Text) (tag : SectionTag) :
    (tag.exchange key).key = tag.key := by
  unfold exchange
  split <;> rfl

@[simp] theorem SectionTag.place_exchange (key : Text) (tag : SectionTag) :
    (tag.exchange key).place = tag.place := by
  unfold exchange
  split <;> rfl

def Template.exchange (key : Text) : Template → Template
  | done => done
  | text t rest => text t (rest.exchange key)
  | value k escaped rest => value k escaped (rest.exchange key)
  | sect tag body rest => sect (tag.exchange key) (body.exchange key) (rest.exchange key)
  | stop failure => stop failure

namespace Placed

def exchange (key : Text) (p : Placed) : Placed :=
  ⟨p.before.map (Token.exchange key), p.token.exchange key, p.after.map (Token.exchange key)⟩

@[simp] theorem token_exchange (key : Text) (p : Placed) :
    (p.exchange key).token = p.token.exchange key := rfl

theorem ofTokens_exchange (key : Text) (before : Option Token) (tokens : List Token) :
    ofTokens (before.map (Token.exchange key)) (tokens.map (Token.exchange key)) =
      (ofTokens before tokens).map (exchange key) := by
  induction tokens generalizing before with
  | nil => rfl
  | cons t tokens ih =>
    have htail := ih (some t)
    rw [Option.map_some] at htail
    rw [List.map_cons, ofTokens, ofTokens, htail, List.head?_map]
    rfl

theorem trimmed_exchange (key : Text) {p : Placed} (h : p.token.isLiteral = true) :
    (p.exchange key).trimmed = p.trimmed := by
  have htoken : (p.exchange key).token = p.token := Token.exchange_of_isLiteral key p.token h
  have hstart : (p.exchange key).trimsStart = p.trimsStart := by
    rw [trimsStart, trimsStart, htoken, exchange]
    cases p.before with
    | none => rfl
    | some t =>
      rw [Option.map_some]
      dsimp only
      rw [Token.standsAlone_exchange, Token.line_exchange]
  have hend : (p.exchange key).trimsEnd = p.trimsEnd := by
    rw [trimsEnd, trimsEnd, htoken, exchange]
    cases p.after with
    | none => rfl
    | some t =>
      rw [Option.map_some]
      dsimp only
      rw [Token.standsAlone_exchange, Token.line_exchange]
  rw [trimmed, trimmed, htoken, hstart, hend]

end Placed

namespace Template

theorem sectionBody_exchange (key : Text) (ps : List Placed) :
    sectionBody (ps.map (Placed.exchange key)) = (sectionBody ps).map (Placed.exchange key) := by
  have hbreak (p : Placed) :
      Outline.isBreak (p.exchange key) = decide (p.token.text = ['\n']) :=
    decide_eq_decide.2 (p.token.exchangeText_eq_break_iff key)
  rw [map_sectionBody (Placed.exchange key) Outline.isBreak hbreak]
  exact Outline.sectionBody_eq rfl

theorem splitAtCloser?_exchange (key k : Text) (depth : Int) (ps : List Placed) :
    splitAtCloser? k depth (ps.map (Placed.exchange key)) =
      (splitAtCloser? k depth ps).map fun (body, rest) =>
        (body.map (Placed.exchange key), rest.map (Placed.exchange key)) := by
  induction ps generalizing depth with
  | nil => rfl
  | cons p ps ih =>
    rw [List.map_cons, splitAtCloser?, splitAtCloser?, ih]
    simp only [Placed.token_exchange, Token.depthChange_exchange, Token.closesSection_exchange,
      Token.key_exchange]
    split
    · rfl
    · rw [Option.map_map, Option.map_map]
      rfl

theorem sectionTag_exchange (key : Text) {t : Token} (hkind : t.kind = .tag)
    (hcomment : ¬ t.isComment = true) :
    (t.exchange key).sectionTag = t.sectionTag.exchange key := by
  have hiff : Token.IsExchanged key t.text ↔ t.sectionTag.key = key := by
    constructor
    · exact fun h => h.2.2
    · exact fun h => ⟨hkind, Bool.eq_false_iff.2 hcomment, h⟩
  rw [Token.sectionTag, Token.key_exchange, Token.has_exchange, Token.has_exchange,
    Token.place_exchange, SectionTag.exchange]
  simp only [hiff]
  split <;> rfl

theorem ofPlaced_exchange (key : Text) (ps : List Placed) :
    ofPlaced (ps.map (Placed.exchange key)) = (ofPlaced ps).exchange key := by
  -- What `ofPlaced` asks of a token has the same answer for the exchanged one, so that each of its
  -- cases goes to itself.
  have hcons (p : Placed) (ps : List Placed) :=
    ofPlaced_cons (p.exchange key) (ps.map (Placed.exchange key))
  simp only [Placed.token_exchange, Token.isComment_exchange, Token.kind_exchange,
    Token.key_exchange, Token.place_exchange, Token.opensSection_exchange,
    splitAtCloser?_exchange, Token.has_exchange_of_dual_eq key _ (m := .inclusion) rfl,
    Token.has_exchange_of_dual_eq key _ (m := .closer) rfl,
    Token.has_exchange_of_dual_eq key _ (m := .raw) rfl] at hcons
  fun_induction ofPlaced ps with
  | case1 => rw [List.map_nil, ofPlaced]; rfl
  | case2 p ps hcomment ih => rw [List.map_cons, hcons, if_pos hcomment, ih]
  | case3 p ps hcomment hkind ih =>
    have hliteral : p.token.isLiteral = true := decide_eq_true hkind
    rw [List.map_cons, hcons, if_neg hcomment, hkind, ih, p.trimmed_exchange key hliteral]
    rfl
  | case4 p ps k hcomment hkind ih =>
    rw [List.map_cons, hcons, if_neg hcomment, hkind, ih]
    rfl
  | case5 p ps place hcomment hkind hinclusion =>
    rw [List.map_cons, hcons, if_neg hcomment, hkind]
    exact if_pos hinclusion
  | case6 p ps k place hcomment hkind hinclusion hopens hsplit =>
    rw [List.map_cons, hcons, if_neg hcomment, hkind]
    dsimp only
    rw [if_neg hinclusion, if_pos hopens, hsplit]
    rfl
  | case7 p ps k place hcomment hkind hinclusion hopens body rest hsplit hif =>
    rw [List.map_cons, hcons, if_neg hcomment, hkind]
    dsimp only
    rw [if_neg hinclusion, if_pos hopens, hsplit]
    exact if_pos hif
  | case8 p ps k place hcomment hkind hinclusion hopens body rest hsplit hif ihb ihr =>
    rw [List.map_cons, hcons, if_neg hcomment, hkind]
    dsimp only
    rw [if_neg hinclusion, if_pos hopens, hsplit, Option.map_some]
    dsimp only
    rw [if_neg hif, sectionBody_exchange, ihb, ihr, sectionTag_exchange key hkind hcomment]
    rfl
  | case9 p ps k place hcomment hkind hinclusion hopens hcloses =>
    rw [List.map_cons, hcons, if_neg hcomment, hkind]
    dsimp only
    rw [if_neg hinclusion, if_neg hopens, if_pos hcloses]
    rfl
  | case10 p ps k hcomment hkind hinclusion hopens hcloses ih =>
    rw [List.map_cons, hcons, if_neg hcomment, hkind]
    dsimp only
    rw [if_neg hinclusion, if_neg hopens, if_neg hcloses, ih]
    rfl

theorem ofTokens_exchange (key : Text) (tokens : List Token) :
    ofTokens (tokens.map (Token.exchange key)) = (ofTokens tokens).exchange key := by
  rw [ofTokens, ofTokens, ← ofPlaced_exchange, ← Placed.ofTokens_exchange]
  rfl

end Template

/-! ## Runs -/

/-- Two mappings with the two booleans under a key, which is looked up at the root: it has no dot
and is bound in no mapping inside of others. Under other names they agree. -/
structure Mapping.Opposed (key : Text) (values values' : Mapping) : Prop where
  agree : values.AgreeExcept key values'
  opposed : ∃ b, values.get? key = some (.bool b) ∧ values'.get? key = some (.bool !b)
  nested (inner : Mapping) : inner ∈ values.nested → inner.get? key = none
  no_dot : '.' ∉ key
  trimmed : key.trim = key

abbrev Context.OpposedAt (key : Text) (values values' : Mapping) : Context → Context → Prop :=
  DifferAtRoot (Mapping.Lacks key) values values'

namespace Mapping.Opposed

variable {key : Text} {values values' : Mapping}

theorem resolve_eq (h : Opposed key values values') {other : Text} (hother : other.trim ≠ key) :
    values.resolve other = values'.resolve other := by
  apply h.agree.resolve_eq hother
  intro hhead
  obtain ⟨b, hb, hb'⟩ := h.opposed
  rw [hb, hb']
  rfl

end Mapping.Opposed

namespace Value

/-- The body of a section is rendered in scopes that lack what the value lacks. -/
theorem lacks_of_passes {key : Text} (hdot : '.' ∉ key) {v : Value}
    (hv : ∀ inner ∈ v.nested, inner.get? key = none) {entries : Mapping}
    (h : some entries ∈ v.passes) : entries.Lacks key := by
  have hsingle (v : Value) (hv : v.nested = []) : Mapping.Lacks key [(['.'], v)] := by
    have hne : ['.'] ≠ key := fun heq => hdot (heq ▸ List.mem_singleton_self '.')
    refine ⟨if_neg hne, fun inner hinner => ?_⟩
    rw [Mapping.nested, nestedEntries, hv] at hinner
    cases hinner
  cases v with
  | null => cases h
  | bool b => cases b <;> simp [passes] at h
  | number x =>
    obtain rfl : entries = [(['.'], .number x)] := by simpa [passes] using h
    exact hsingle (.number x) rfl
  | string t =>
    obtain rfl : entries = [(['.'], .string t)] := by simpa [passes] using h
    exact hsingle (.string t) rfl
  | object es =>
    obtain rfl : entries = es := by simpa [passes] using h
    exact ⟨hv entries List.mem_cons_self,
      fun inner hinner => hv inner (List.mem_cons_of_mem entries hinner)⟩
  | list items =>
    have hmem : entries ∈ items := by simpa [passes] using h
    have hinside := Mapping.nested_of_mem hmem
    exact ⟨hv entries (hinside List.mem_cons_self),
      fun inner hinner => hv inner (hinside (List.mem_cons_of_mem entries hinner))⟩

end Value

namespace Session

/-- A section with one modifier renders its body for one of the booleans. -/
theorem sectionFor_bool {tag : SectionTag} (htag : tag.direct ≠ tag.inverted)
    (body : Session → Outcome) (b : Bool) (s : Session) :
    sectionFor tag body (some (.bool b)) s = if b = tag.direct then body s else ⟨s, none⟩ := by
  obtain ⟨key, direct, inverted, place⟩ := tag
  cases direct with
  | true =>
    obtain rfl : inverted = false := by simpa using htag
    have hskip : inversely ⟨key, true, false, place⟩ (.bool b) body = fun s => ⟨s, none⟩ := rfl
    rw [sectionFor, hskip, Outcome.andThen_return]
    cases b with
    | true => exact Outcome.andThen_return (body s)
    | false => rfl
  | false =>
    obtain rfl : inverted = true := by simpa using htag
    cases b <;> rfl

section Opposed

variable {key : Text} {values values' : Mapping} {body body' : Session → Outcome}

theorem opposed_congruence (key : Text) (values values' : Mapping) :
    Congruence (fun _ => True) (Mapping.Lacks key) (Alike (Context.OpposedAt key values values')) :=
  alike_congruence _ _ values values'

theorem AlikeIn.lookup {s s' : Session}
    (hs : s.AlikeIn (Context.OpposedAt key values values') s') (h : values.Opposed key values')
    {other : Text} (htrim : other.trim = other) :
    (s.lookup other).2.AlikeIn (Context.OpposedAt key values values') (s'.lookup other).2 ∧
      ((s.lookup other).1 = (s'.lookup other).1 ∧ (other = key → (s.lookup other).1 = none) ∨
        other = key ∧ ∃ b, (s.lookup other).1 = some (.bool b) ∧
          (s'.lookup other).1 = some (.bool !b)) := by
  by_cases hother : other = key
  · subst hother
    obtain ⟨hfound, hafter⟩ := hs.context.lookup_of_no_dot h.no_dot h.trimmed
    refine ⟨⟨hafter, hs.sink⟩, ?_⟩
    rcases hfound with ⟨hnone, hnone'⟩ | ⟨hvalue, hvalue'⟩
    · exact Or.inl ⟨hnone.trans hnone'.symm, fun _ => hnone⟩
    · obtain ⟨b, hb, hb'⟩ := h.opposed
      exact Or.inr ⟨rfl, b, hvalue.trans hb, hvalue'.trans hb'⟩
  · obtain ⟨hfound, hafter⟩ := hs.context.lookup (h.resolve_eq (htrim.symm ▸ hother))
    exact ⟨⟨hafter, hs.sink⟩, Or.inl ⟨hfound, fun heq => absurd heq hother⟩⟩

/-- A boolean cannot be written, whichever of the two it is. -/
theorem alike_writeValue (h : values.Opposed key values') {other : Text}
    (htrim : other.trim = other) (escaped : Bool) :
    Alike (Context.OpposedAt key values values') (fun s => s.writeValue other escaped)
      fun s => s.writeValue other escaped := by
  simp only [writeValue_eq]
  intro s s' hs
  obtain ⟨hafter, hfound⟩ := hs.lookup h htrim
  have hsame : writeFor escaped (s.lookup other).1 = writeFor escaped (s'.lookup other).1 := by
    rcases hfound with ⟨hequal, -⟩ | ⟨-, b, hb, hb'⟩
    · rw [hequal]
    · rw [hb, hb']
      rfl
  dsimp only
  rw [hsame]
  exact (opposed_congruence key values values').writeFor (fun _ => trivial) escaped _ _ _ hafter

theorem alike_runSection (h : values.Opposed key values') {tag : SectionTag}
    (htrim : tag.key.trim = tag.key) (hone : tag.key = key → tag.direct ≠ tag.inverted)
    (hbody : Alike (Context.OpposedAt key values values') body body') :
    Alike (Context.OpposedAt key values values') (fun s => s.runSection tag body)
      fun s => s.runSection (tag.exchange key) body' := by
  simp only [runSection_eq, SectionTag.key_exchange]
  intro s s' hs
  obtain ⟨hafter, hfound⟩ := hs.lookup h htrim
  dsimp only
  rcases hfound with ⟨hequal, hnone⟩ | ⟨hkey, b, hb, hb'⟩
  · rw [← hequal]
    cases hvalue : (s.lookup tag.key).1 with
    | none =>
      -- The error names the key and the place of the tag, which are those of the exchanged tag.
      rw [sectionFor, sectionFor, SectionTag.key_exchange, SectionTag.place_exchange]
      exact alike_fail _ _ _ hafter
    | some v =>
      -- The same value can only be found under another key, whose sections keep their polarity.
      have hother : tag.key ≠ key := fun heq => nomatch (hnone heq).symm.trans hvalue
      have htag : tag.exchange key = tag := if_neg hother
      have hnested (inner : Mapping) (hinner : inner ∈ v.nested) : inner.get? key = none :=
        hs.context.nested_of_lookup h.nested hvalue hinner
      have hpasses (entries : Mapping) (hentries : some entries ∈ v.passes) : entries.Lacks key :=
        Value.lacks_of_passes h.no_dot hnested hentries
      rw [htag]
      exact (opposed_congruence key values values').sectionFor (fun _ => trivial) hpasses hbody _ _
        hafter
  · have htag : tag.exchange key = { tag with direct := tag.inverted, inverted := tag.direct } :=
      if_pos hkey
    have hone' := hone hkey
    have hpolarity : (!b) = tag.inverted ↔ b = tag.direct := by
      rw [← Bool.not_eq.2 hone', Bool.not_inj_iff]
    rw [hb, hb', sectionFor_bool hone', htag, sectionFor_bool hone'.symm]
    simp only [hpolarity]
    split
    · exact hbody _ _ hafter
    · exact alike_skip _ _ hafter

end Opposed

end Session

theorem Template.alike_exchange {key : Text} {values values' : Mapping}
    (h : values.Opposed key values') {t : Template}
    (ht : t.All (fun k => k.trim = k)
      (fun tag => tag.key.trim = tag.key ∧ (tag.key = key → tag.direct ≠ tag.inverted))
      fun _ => True) :
    Session.Alike (Context.OpposedAt key values values') t.run (t.exchange key).run := by
  induction t with
  | done => exact Session.alike_skip
  | text t rest ih => exact (Session.alike_write t).andThen (ih ht)
  | value k escaped rest ih =>
    exact (Session.alike_writeValue h ht.1 escaped).andThen (ih ht.2)
  | sect tag body rest ihbody ih =>
    obtain ⟨⟨htrim, hone⟩, hbody, hrest⟩ := ht
    exact (Session.alike_runSection h htrim hone (ihbody hbody)).andThen (ih hrest)
  | stop failure => exact Session.alike_fail failure

theorem Token.Lexing.alike_exchange {key : Text} {values values' : Mapping}
    (h : values.Opposed key values') {limits : Limits} {source : Source}
    (hone : ∀ t ∈ (lex limits source.rewind).tokens, t.kind = .tag → t.isComment = false →
      t.key = key → t.opensSection = true → t.has .opener ≠ t.has .inverter) :
    Session.Alike (Context.OpposedAt key values values') (lex limits source.rewind).run
      (lex limits (source.exchange limits key).rewind).run := by
  obtain ⟨htokens, hfailure⟩ := lex_exchange limits key source
  unfold Lexing.run
  rw [hfailure, htokens, Template.ofTokens_exchange]
  cases (lex limits source.rewind).failure with
  | some e => exact Session.alike_fail e
  | none =>
    apply Template.alike_exchange h
    apply Template.all_ofTokens
    intro t ht htag
    exact {
      value := trim_key htag
      sect := fun hkind hcomment hopens =>
        ⟨trim_key htag, fun hkey => hone t ht hkind hcomment hkey hopens⟩
      stop := fun _ _ => trivial }

namespace Renderer

/-- A tag with both modifiers would be its own opposite, and a key that is bound further in would
hide the boolean there; without these the two kinds of sections differ in nothing but the boolean
for which they render their body. -/
theorem render_exchange (r : Renderer) (name key : Text) (source : Source) (values : Mapping)
    (b : Bool) (hsource : r.sources.get? name = some source) (hdot : '.' ∉ key)
    (htrim : key.trim = key) (hvalue : values.get? key = some (.bool b))
    (hnested : ∀ inner ∈ values.nested, inner.get? key = none)
    (hone : ∀ t ∈ (Token.lex r.limits source.rewind).tokens, t.kind = .tag →
      t.isComment = false → t.key = key → t.opensSection = true →
      t.has .opener ≠ t.has .inverter) :
    let exchanged := { r with sources := r.sources.insert name (source.exchange r.limits key) }
    let rendering := r.render name [.ofValues values]
    let rendering' := exchanged.render name [.ofValues (values.insert key (.bool !b))]
    rendering.renderer.sink = rendering'.renderer.sink ∧
      rendering.failure = rendering'.failure := by
  intro exchanged
  have hexchanged : exchanged.sources.get? name = some (source.exchange r.limits key) :=
    Entries.get?_insert_self name _ r.sources
  have hopposed : values.Opposed key (values.insert key (.bool !b)) :=
    ⟨values.agreeExcept_insert key _, ⟨b, hvalue, Entries.get?_insert_self key _ values⟩, hnested,
      hdot, htrim⟩
  dsimp only
  cases hsink : r.sink with
  | none =>
    have hnone (r : Renderer) (h : r.sink = none) (context : Context) :
        r.render name context = ⟨r, context, some .noSink⟩ := by
      rw [render, h]
    rw [hnone r hsink, hnone exchanged hsink]
    exact ⟨rfl, rfl⟩
  | some sink =>
    have hrun := Token.Lexing.alike_exchange hopposed hone ⟨[.ofValues values], sink⟩
      ⟨[.ofValues (values.insert key (.bool !b))], sink⟩ ⟨.root [], rfl⟩
    rw [render_of_source hsink hsource, render_of_source (r := exchanged) hsink hexchanged]
    exact ⟨congrArg some hrun.session.sink, hrun.failure⟩

/-- Sections with a key inside of each other in the items of a list, and behind it the key alone. -/
def polarTemplate : Text :=
  "{{#a}}{{#k}}{{b}}{{^k}}x{{/k}}{{/k}}{{/a}}\n{{k}}".toList

def polarValues : Mapping :=
  [(['a'], .list [[(['b'], .string ['1'])], [(['b'], .string ['2'])]]), (['k'], .bool true)]

def dualTemplate : Text :=
  "{{#a}}{{^k}}{{b}}{{#k}}x{{/k}}{{/k}}{{/a}}\n{{k}}".toList

/-- The list is written alike, and the boolean, which cannot be written, stops both renderings at
the end. -/
theorem render_polarTemplate_exchange :
    let source := (Source.ofText polarTemplate).exchange {} ['k']
    let renderer := { Renderer.ofTemplate polarTemplate {} with sources := [(['t'], source)] }
    let rendering := renderer.render ['t'] [.ofValues (polarValues.insert ['k'] (.bool false))]
    source.text = dualTemplate ∧
      rendering.renderer.sink.map Sink.contents = some (Text.encode ['1', '2', '\n']) ∧
      rendering.failure = some (.unwritableKind .boolean) := by
  obtain ⟨hsink, hfailure⟩ := render_exchange (.ofTemplate polarTemplate {}) ['t'] ['k']
    (.ofText polarTemplate) polarValues true rfl (by decide) (by decide) rfl (by decide)
    (by decide +kernel)
  have hrendering :
      let rendering := (Renderer.ofTemplate polarTemplate {}).render ['t'] [.ofValues polarValues]
      rendering.renderer.sink.map Sink.contents = some (Text.encode ['1', '2', '\n']) ∧
        rendering.failure = some (.unwritableKind .boolean) := by
    decide +kernel
  dsimp only at hrendering
  rw [hsink, hfailure] at hrendering
  exact ⟨by decide +kernel, hrendering⟩

end Renderer

end Mustache
