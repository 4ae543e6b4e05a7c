import Mustache.Proofs.Lexing.Agreement
import Mustache.Proofs.Lookup.History
import Mustache.Proofs.Outline.Evaluation
import Mustache.Proofs.Text.LineBreaks

namespace Mustache

/-- Whether a value that was looked up can be written: there is none, or it is null, a number or
a string. -/
def Value.isWritable : Option Value → Bool
  | none | some .null | some (.number _) | some (.string _) => true
  | _ => false

def Value.replacement (raw : Bool) : Option Value → Text
  | some (.number x) => x.toText
  | some (.string t) => if raw then t else t.escapeHtml
  | _ => []

namespace Piece

def isRaw (t : Text) : Bool := Token.kindOf t = .tripleTag || (Token.partsOf t).1.contains .raw

def substitute (value : Text → Option Value) : Piece → Text
  | run t => t
  | tag t => Value.replacement (isRaw t) (value (Token.partsOf t).2)

end Piece

namespace Scan

def substitute (value : Text → Option Value) (s : Scan) : Text :=
  s.pieces.flatMap (Piece.substitute value)

/-- Whether the tags of a text fit into the window and do nothing but write the values that they
name. -/
structure Interpolates (window : Nat) (value : Text → Option Value) (s : Scan) : Prop where
  closed : s.unclosed = none
  fits : ∀ t ∈ s.tags, t.byteCount ≤ window
  modifiers : ∀ t ∈ s.tags, ∀ m ∈ (Token.partsOf t).1, m = .raw ∨ m = .tilde
  writable : ∀ t ∈ s.tags, Value.isWritable (value (Token.partsOf t).2) = true

instance (window : Nat) (value : Text → Option Value) (s : Scan) :
    Decidable (s.Interpolates window value) :=
  decidable_of_iff
    (s.unclosed = none ∧ (∀ t ∈ s.tags, t.byteCount ≤ window) ∧
      (∀ t ∈ s.tags, ∀ m ∈ (Token.partsOf t).1, m = .raw ∨ m = .tilde) ∧
      ∀ t ∈ s.tags, Value.isWritable (value (Token.partsOf t).2) = true)
    ⟨fun ⟨h₁, h₂, h₃, h₄⟩ => ⟨h₁, h₂, h₃, h₄⟩, fun ⟨h₁, h₂, h₃, h₄⟩ => ⟨h₁, h₂, h₃, h₄⟩⟩

end Scan

/-! ## Runs that write a text -/

/-- An outcome without failure: the sink has taken a text, and the context is still of a kind. -/
structure Outcome.Writes (sink : Sink) (Keeps : Context → Prop) (t : Text) (o : Outcome) :
    Prop where
  failure : o.failure = none
  sink : o.session.sink = sink.took t.encode
  context : Keeps o.session.context

variable {Keeps : Context → Prop} {value : Text → Option Value}

theorem Outcome.Writes.andThen {sink : Sink} {t u : Text} {o : Outcome}
    {next : Session → Outcome} (h : o.Writes sink Keeps t) (hroom : sink.HasRoom (t ++ u).encode)
    (hnext : ∀ s : Session, Keeps s.context → s.sink.HasRoom u.encode →
      (next s).Writes s.sink Keeps u) :
    (o.andThen next).Writes sink Keeps (t ++ u) := by
  rw [Text.encode_append] at hroom
  have hrest : (next o.session).Writes o.session.sink Keeps u := by
    apply hnext o.session h.context
    rw [h.sink]
    exact Sink.hasRoom_right hroom
  rw [Outcome.andThen, h.failure]
  refine ⟨hrest.failure, ?_, hrest.context⟩
  rw [hrest.sink, h.sink, Sink.took_took, Text.encode_append]

theorem Sink.hasRoom_of_append {sink : Sink} {t u : Text} (h : sink.HasRoom (t ++ u).encode) :
    sink.HasRoom t.encode := by
  rw [Text.encode_append] at h
  exact hasRoom_left h

namespace Session

theorem return_writes {s : Session} (hkeeps : Keeps s.context) :
    Outcome.Writes s.sink Keeps [] ⟨s, none⟩ :=
  ⟨rfl, (Sink.took_nil s.sink).symm, hkeeps⟩

theorem write_writes {s : Session} {t : Text} (hkeeps : Keeps s.context)
    (hroom : s.sink.HasRoom t.encode) : (s.write t).Writes s.sink Keeps t := by
  rw [write, Sink.write_of_hasRoom hroom]
  exact ⟨rfl, rfl, hkeeps⟩

theorem interpolateKey_writes {s : Session} {key : Text} {v : Option Value} {raw : Bool}
    (hfound : (s.context.lookup key).1 = v) (hkeeps : Keeps (s.context.lookup key).2)
    (hv : Value.isWritable v = true) (hroom : s.sink.HasRoom (Value.replacement raw v).encode) :
    (s.interpolateKey (!raw) key).Writes s.sink Keeps (Value.replacement raw v) := by
  let after : Session := { s with context := (s.context.lookup key).2 }
  have hlookup : s.lookup key = (v, after) := by
    rw [← hfound]
    rfl
  rw [interpolateKey, hlookup]
  match v, hv with
  | none, _ => exact return_writes (s := after) hkeeps
  | some .null, _ => exact return_writes (s := after) hkeeps
  | some (.number x), _ => exact write_writes (s := after) hkeeps hroom
  | some (.string t), _ =>
    cases raw with
    | false => exact write_writes (s := after) hkeeps hroom
    | true => exact write_writes (s := after) hkeeps hroom

end Session

/-! ## Tokens that interpolate -/

namespace Token

/-- Whether a token is plain text or a tag that writes the value it names, the value being the same
in every context of a kind. -/
structure Interpolates (Keeps : Context → Prop) (value : Text → Option Value) (t : Token) :
    Prop where
  modifiers : ∀ m ∈ t.modifiers, m = .raw ∨ m = .tilde
  writable : t.isLiteral = false → Value.isWritable (value t.key) = true
  lookup : t.isLiteral = false → ∀ c, Keeps c →
    (c.lookup t.key).1 = value t.key ∧ Keeps (c.lookup t.key).2

theorem Interpolates.has_eq_false {t : Token} (h : t.Interpolates Keeps value) {m : Modifier}
    (hraw : m ≠ .raw) (htilde : m ≠ .tilde) : t.has m = false := by
  rw [has, ← Bool.not_eq_true, List.contains_iff_mem]
  intro hm
  exact (h.modifiers m hm).elim hraw htilde

theorem Interpolates.standsAlone_eq_false {t : Token} (h : t.Interpolates Keeps value) :
    t.standsAlone = false := by
  rw [standsAlone, List.any_eq_false]
  intro m hm
  rcases h.modifiers m hm with rfl | rfl <;> decide

theorem Interpolates.isLeaf {t : Token} (h : t.Interpolates Keeps value) : t.isLeaf = true := by
  have hopener : t.has .opener = false := h.has_eq_false (by decide) (by decide)
  have hinverter : t.has .inverter = false := h.has_eq_false (by decide) (by decide)
  have hcloser : t.has .closer = false := h.has_eq_false (by decide) (by decide)
  simp [Token.isLeaf, hopener, hinverter, hcloser]

end Token

namespace Placed

theorem trimmed_eq_text {p : Placed} (hbefore : ∀ t ∈ p.before, t.standsAlone = false)
    (hafter : ∀ t ∈ p.after, t.standsAlone = false) : p.trimmed = p.token.text := by
  have hstart : p.trimsStart = false := by
    unfold trimsStart
    cases hb : p.before with
    | none => rfl
    | some t => simp [hbefore t hb]
  have hend : p.trimsEnd = false := by
    unfold trimsEnd
    cases ha : p.after with
    | none => rfl
    | some t => simp [hafter t ha]
  simp [trimmed, hstart, hend]

theorem render_writes {p : Placed} {s : Session} (h : p.token.Interpolates Keeps value)
    (hbefore : ∀ t ∈ p.before, t.standsAlone = false)
    (hafter : ∀ t ∈ p.after, t.standsAlone = false) (hkeeps : Keeps s.context)
    (hroom : s.sink.HasRoom (p.token.piece.substitute value).encode) :
    (p.render s).Writes s.sink Keeps (p.token.piece.substitute value) := by
  have hcomment : p.token.isComment = false := h.has_eq_false (by decide) (by decide)
  have hpartial : p.token.has .inclusion = false := h.has_eq_false (by decide) (by decide)
  rw [render, hcomment, if_neg Bool.false_ne_true]
  cases hliteral : p.token.isLiteral with
  | true =>
    have hkind : p.token.kind = .literal := of_decide_eq_true hliteral
    rw [Token.piece_of_isLiteral hliteral] at hroom ⊢
    rw [hkind]
    dsimp only
    rw [trimmed_eq_text hbefore hafter]
    exact Session.write_writes hkeeps hroom
  | false =>
    have hkind : p.token.kind ≠ .literal := of_decide_eq_false hliteral
    obtain ⟨hfound, hkeeps'⟩ := h.lookup hliteral s.context hkeeps
    have hwritable := h.writable hliteral
    have hraw : Piece.isRaw p.token.text =
        (decide (p.token.kind = .tripleTag) || p.token.has .raw) := rfl
    rw [Token.piece_of_not_isLiteral hliteral] at hroom ⊢
    cases hk : p.token.kind with
    | literal => exact absurd hk hkind
    | tag =>
      have hraw' : Piece.isRaw p.token.text = p.token.has .raw := by simp [hraw, hk]
      rw [Piece.substitute, hraw'] at hroom ⊢
      dsimp only
      rw [hpartial, if_neg Bool.false_ne_true]
      exact Session.interpolateKey_writes hfound hkeeps' hwritable hroom
    | tripleTag =>
      have hraw' : Piece.isRaw p.token.text = true := by simp [hraw, hk]
      rw [Piece.substitute, hraw'] at hroom ⊢
      exact Session.interpolateKey_writes hfound hkeeps' hwritable hroom

end Placed

theorem Template.run_ofPlaced_writes {tokens : List Token} {before : Option Token} {s : Session}
    (h : ∀ t ∈ tokens, t.Interpolates Keeps value)
    (hbefore : ∀ t ∈ before, t.standsAlone = false) (hkeeps : Keeps s.context)
    (hroom : s.sink.HasRoom
      (Text.encode ((tokens.map Token.piece).flatMap (Piece.substitute value)))) :
    ((ofPlaced (Placed.ofTokens before tokens)).run s).Writes s.sink Keeps
      ((tokens.map Token.piece).flatMap (Piece.substitute value)) := by
  induction tokens generalizing before s with
  | nil =>
    rw [Placed.ofTokens, ofPlaced]
    exact Session.return_writes hkeeps
  | cons t tokens ih =>
    have ht : t.Interpolates Keeps value := h t List.mem_cons_self
    -- The tokens on both sides do not stand alone, so that nothing is trimmed.
    have hafter : ∀ u ∈ tokens.head?, u.standsAlone = false := by
      intro u hu
      exact (h u (List.mem_cons_of_mem t (List.mem_of_head? hu))).standsAlone_eq_false
    rw [List.map_cons, List.flatMap_cons] at hroom ⊢
    have hfirst : s.sink.HasRoom (t.piece.substitute value).encode := Sink.hasRoom_of_append hroom
    let placed : Placed := ⟨before, t, tokens.head?⟩
    have hwrites : (placed.render s).Writes s.sink Keeps (t.piece.substitute value) :=
      Placed.render_writes (p := placed) ht hbefore hafter hkeeps hfirst
    rw [Placed.ofTokens, Outline.run_ofPlaced_leaf ht.isLeaf]
    apply hwrites.andThen hroom
    intro s' hkeeps' hroom'
    apply ih (fun u hu => h u (List.mem_cons_of_mem t hu)) _ hkeeps' hroom'
    rintro u ⟨⟩
    exact ht.standsAlone_eq_false

/-! ## Renderers -/

theorem Token.interpolates_of_scan {window : Nat} {scan : Scan} {tokens : List Token}
    (hpieces : Piece.merge (tokens.map Token.piece) = scan.pieces)
    (hscan : scan.Interpolates window value)
    (hlookup : ∀ t ∈ scan.tags, ∀ c, Keeps c →
      (Context.lookup (partsOf t).2 c).1 = value (partsOf t).2 ∧
        Keeps (Context.lookup (partsOf t).2 c).2) :
    ∀ t ∈ tokens, t.Interpolates Keeps value := by
  intro t ht
  have htag (hliteral : t.isLiteral = false) : t.text ∈ scan.tags := by
    rw [Scan.mem_tags, ← hpieces]
    apply Piece.tag_mem_merge
    rw [← piece_of_not_isLiteral hliteral]
    exact List.mem_map_of_mem ht
  refine ⟨?_, ?_, ?_⟩
  · cases hliteral : t.isLiteral with
    | true =>
      rw [modifiers_of_isLiteral hliteral]
      intro m hm
      cases hm
    | false => exact hscan.modifiers t.text (htag hliteral)
  · intro hliteral
    exact hscan.writable t.text (htag hliteral)
  · intro hliteral
    exact hlookup t.text (htag hliteral)

def Rendering.Writes (sink : Sink) (t : Text) (rendering : Rendering) : Prop :=
  rendering.failure = none ∧
    rendering.renderer.sink.map Sink.contents = some (sink.contents ++ t.encode)

theorem Renderer.render_writes {r : Renderer} {name : Text} {source : Source} {sink : Sink}
    {context : Context} (hsink : r.sink = some sink) (hsource : r.sources.get? name = some source)
    (hloops : source.text.byteCount < r.limits.maxLoops)
    (hscan : (Scan.ofText source.text).Interpolates r.limits.window value)
    (hkeeps : Keeps context)
    (hlookup : ∀ t ∈ (Scan.ofText source.text).tags, ∀ c, Keeps c →
      (Context.lookup (Token.partsOf t).2 c).1 = value (Token.partsOf t).2 ∧
        Keeps (Context.lookup (Token.partsOf t).2 c).2)
    (hroom : sink.HasRoom ((Scan.ofText source.text).substitute value).encode) :
    (r.render name context).Writes sink ((Scan.ofText source.text).substitute value) := by
  have hlex := Token.lexWithin_follows r.limits r.limits.maxLoops source.rewind hloops hscan.fits
  rw [← Token.lex] at hlex
  have hend : (Token.lex r.limits source.rewind).failure = none := by
    have hclosed : (Scan.ofText source.rewind.after).unclosed = none := hscan.closed
    rw [hlex.failure, hclosed, Option.map_none]
  have htokens := Token.interpolates_of_scan hlex.pieces hscan hlookup
  have htext : ((Token.lex r.limits source.rewind).tokens.map Token.piece).flatMap
      (Piece.substitute value) = (Scan.ofText source.text).substitute value := by
    -- The lexer may have cut runs, but what is written for the parts is the run again.
    rw [← Piece.flatMap_merge (fun _ _ => rfl), hlex.pieces]
    rfl
  have hrun : ((Token.lex r.limits source.rewind).run ⟨context, sink⟩).Writes sink Keeps
      ((Scan.ofText source.text).substitute value) := by
    rw [← htext] at hroom ⊢
    rw [Token.Lexing.run, hend]
    exact Template.run_ofPlaced_writes (s := ⟨context, sink⟩) htokens (by simp) hkeeps hroom
  rw [render, hsink]
  dsimp only
  rw [hsource]
  refine ⟨hrun.failure, ?_⟩
  dsimp only
  rw [Option.map_some, hrun.sink, Sink.contents_took]

/-! ## Contexts of a single scope -/

def Context.IsSingle (values : Mapping) (c : Context) : Prop := ∃ claimed, c = [⟨values, claimed⟩]

theorem Context.lookup_of_isSingle {values : Mapping} {c : Context} (h : c.IsSingle values)
    (key : Text) :
    (c.lookup key).1 = (values.resolve key).2 ∧ (c.lookup key).2.IsSingle values := by
  obtain ⟨claimed, rfl⟩ := h
  rw [lookup_single]
  exact ⟨rfl, _, rfl⟩

/-! ## Texts without tags -/

theorem Scan.ofText_of_no_braces {t : Text} (h : ¬ ['{', '{'] <:+: t) :
    ofText t = ⟨Piece.ofRun t, none⟩ :=
  ofText_of_no_tag (Text.breakOn?_eq_none_iff.2 h)

theorem Scan.tags_ofRun (t : Text) (unclosed : Option Text) :
    Scan.tags ⟨Piece.ofRun t, unclosed⟩ = [] := by
  unfold tags Piece.ofRun
  split <;> rfl

theorem Scan.interpolates_of_tags_nil {scan : Scan} (hclosed : scan.unclosed = none)
    (htags : scan.tags = []) (window : Nat) (value : Text → Option Value) :
    scan.Interpolates window value := by
  constructor
  · exact hclosed
  all_goals
    rw [htags]
    intro t ht
    cases ht

/-- A source without tags is written as it is, whatever the context. -/
theorem Renderer.render_writes_of_no_braces {r : Renderer} {name : Text} {source : Source}
    {sink : Sink} (hsink : r.sink = some sink) (hsource : r.sources.get? name = some source)
    (hloops : source.text.byteCount < r.limits.maxLoops) (hbraces : ¬ ['{', '{'] <:+: source.text)
    (context : Context) (hroom : sink.HasRoom source.text.encode) :
    (r.render name context).Writes sink source.text := by
  have hscan := Scan.ofText_of_no_braces hbraces
  have hclosed : (Scan.ofText source.text).unclosed = none := by rw [hscan]
  have htags : (Scan.ofText source.text).tags = [] := by rw [hscan, Scan.tags_ofRun]
  have hsubstitute : (Scan.ofText source.text).substitute (fun _ => none) = source.text := by
    rw [hscan]
    exact Piece.flatMap_ofRun rfl source.text
  have hwrites := @render_writes (fun _ => True) (fun _ => none) r name source sink context hsink
    hsource hloops (Scan.interpolates_of_tags_nil hclosed htags _ _) trivial
  rw [hsubstitute, htags] at hwrites
  apply hwrites _ hroom
  intro t ht
  cases ht

/-! ## Any template -/

/-- Without sections and comments no text is trimmed, and look-ups do not get in the way of each
other in a single scope. -/
theorem Renderer.render_eq_substitute (r : Renderer) (name template : Text) (source : Source)
    (sink : Sink) (hsink : r.sink = some sink) (hsource : r.sources.get? name = some source)
    (htext : source.text = template.unifyLineBreaks)
    (hloops : template.unifyLineBreaks.byteCount < r.limits.maxLoops) :
    (∀ scope : Scope,
      let scan := Scan.ofText template.unifyLineBreaks
      let value := fun key => (Context.lookup key [scope]).1
      scan.Interpolates r.limits.window value → sink.HasRoom (scan.substitute value).encode →
        (r.render name [scope]).Writes sink (scan.substitute value)) ∧
    (¬ ['{', '{'] <:+: template → ∀ context, sink.HasRoom template.unifyLineBreaks.encode →
      (r.render name context).Writes sink template.unifyLineBreaks) := by
  rw [← htext] at hloops ⊢
  constructor
  · intro scope scan value hscan hroom
    have hsingle : Context.IsSingle scope.values [scope] := ⟨scope.claimed, rfl⟩
    have hlookup (key : Text) (c : Context) (hc : c.IsSingle scope.values) :
        (c.lookup key).1 = value key ∧ (c.lookup key).2.IsSingle scope.values := by
      obtain ⟨hfound, hkeeps⟩ := Context.lookup_of_isSingle hc key
      exact ⟨hfound.trans (Context.lookup_of_isSingle hsingle key).1.symm, hkeeps⟩
    exact render_writes hsink hsource hloops hscan hsingle (fun t _ => hlookup _) hroom
  · intro hbraces context hroom
    apply render_writes_of_no_braces hsink hsource hloops _ context hroom
    rw [htext]
    intro h
    exact hbraces (Text.infix_of_infix_unifyLineBreaks (by decide) h)

/-- Tags of each kind between texts that a short window cuts, with line breaks of each kind. -/
def mixedTemplate : Text :=
  ['{', 'é', '\r', '\n', '{', '{', '{', 's', '}', '}', '}', '{', '{', '~', 's', '}', '}', '{',
    '{', 'n', '}', '}', '\r', '{', '{', 'm', '}', '}', '{']

def mixedScope : Scope :=
  .ofValues [(['n'], .number ⟨0x3FF8000000000000⟩), (['s'], .string ['<'])]

def shortRenderer (template : Text) : Renderer :=
  ⟨some .unlimited, [(['t'], .ofText template)], ⟨40, 7⟩⟩

theorem substitute_mixedTemplate :
    (Scan.ofText mixedTemplate.unifyLineBreaks).substitute
      (fun key => (Context.lookup key [mixedScope]).1) =
        ['{', 'é', '\n', '<', '&', 'l', 't', ';', '1', '.', '5', '\n', '{'] := by
  decide +kernel

theorem render_mixedTemplate :
    mixedTemplate.unifyLineBreaks.byteCount < 40 ∧
      (Scan.ofText mixedTemplate.unifyLineBreaks).Interpolates 7
        (fun key => (Context.lookup key [mixedScope]).1) ∧
      ((shortRenderer mixedTemplate).render ['t'] [mixedScope]).Writes .unlimited
        ['{', 'é', '\n', '<', '&', 'l', 't', ';', '1', '.', '5', '\n', '{'] ∧
      ¬ ['{', '{'] <:+: ['a', '{', '\r', '{', '}'] ∧
      ((shortRenderer ['a', '{', '\r', '{', '}']).render ['t'] [mixedScope, mixedScope]).Writes
        .unlimited ['a', '{', '\n', '{', '}'] := by
  have hloops : mixedTemplate.unifyLineBreaks.byteCount < 40 := by decide
  have hscan : (Scan.ofText mixedTemplate.unifyLineBreaks).Interpolates 7
      (fun key => (Context.lookup key [mixedScope]).1) := by
    decide +kernel
  have hbraces : ¬ ['{', '{'] <:+: ['a', '{', '\r', '{', '}'] := by decide
  refine ⟨hloops, hscan, ?_, hbraces, ?_⟩
  · rw [← substitute_mixedTemplate]
    exact (Renderer.render_eq_substitute (shortRenderer mixedTemplate) ['t'] mixedTemplate
      (.ofText mixedTemplate) .unlimited rfl rfl rfl hloops).1 mixedScope hscan
      (Sink.hasRoom_of_limit rfl _)
  · exact (Renderer.render_eq_substitute (shortRenderer ['a', '{', '\r', '{', '}']) ['t']
      ['a', '{', '\r', '{', '}'] (.ofText ['a', '{', '\r', '{', '}']) .unlimited rfl rfl rfl
      (by decide)).2 hbraces [mixedScope, mixedScope] (Sink.hasRoom_of_limit rfl _)

end Mustache
