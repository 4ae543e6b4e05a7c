import Mustache.Proofs.Template
import Mustache.Proofs.Text.Escaping
import Mustache.Proofs.Text.Trimming
import Mustache.Renderer

namespace Mustache

/-- Whether a token is a tag that does not write values as they are, or plain text without special
characters. -/
def Token.IsEscaping (t : Token) : Prop :=
  t.kind ≠ .tripleTag ∧ t.has .raw = false ∧ (t.isLiteral = true → t.text.IsPlain)

instance (t : Token) : Decidable t.IsEscaping :=
  inferInstanceAs (Decidable (_ ∧ _ ∧ (_ → t.text.IsPlain)))

def Template.IsEscaping : Template → Prop
  | done => True
  | text t rest => t.IsPlain ∧ rest.IsEscaping
  | value _ escaped rest => escaped = true ∧ rest.IsEscaping
  | sect _ body rest => body.IsEscaping ∧ rest.IsEscaping
  | stop _ => True

theorem Placed.trimmed_sublist (p : Placed) : p.trimmed.Sublist p.token.text := by
  have hstrip := (Text.getD_stripPrefix?_suffix ['\n'] p.token.text).sublist
  unfold trimmed
  dsimp only
  split
  · apply ((Text.dropEndWhile_isPrefix _ _).sublist).trans
    split
    · exact hstrip
    · exact List.Sublist.refl _
  · split
    · exact hstrip
    · exact List.Sublist.refl _

namespace Template

theorem isEscaping_ofPlaced {ps : List Placed} (h : ∀ p ∈ ps, p.token.IsEscaping) :
    (ofPlaced ps).IsEscaping := by
  fun_induction ofPlaced ps with
  | case1 => trivial
  | case2 p ps hcomment ih => exact ih (fun q hq => h q (List.mem_cons_of_mem p hq))
  | case3 p ps hcomment hkind ih =>
    have hplain := (h p List.mem_cons_self).2.2 (decide_eq_true hkind)
    exact ⟨fun c hc => hplain c (p.trimmed_sublist.subset hc),
      ih (fun q hq => h q (List.mem_cons_of_mem p hq))⟩
  | case4 p ps key hcomment hkind ih => exact absurd hkind (h p List.mem_cons_self).1
  | case5 => trivial
  | case6 => trivial
  | case7 => trivial
  | case8 p ps key place hcomment hkind hinclusion hopens body rest hsplit hif ihb ihr =>
    have hinside (q : Placed) (hq : q ∈ body ∨ q ∈ rest) : q.token.IsEscaping :=
      h q (List.mem_cons_of_mem p (mem_of_splitAtCloser? hsplit hq))
    exact ⟨ihb (fun q hq => hinside q (Or.inl ((sectionBody_sublist body).subset hq))),
      ihr (fun q hq => hinside q (Or.inr hq))⟩
  | case9 => trivial
  | case10 p ps key hcomment hkind hinclusion hopens hcloses ih =>
    refine ⟨?_, ih (fun q hq => h q (List.mem_cons_of_mem p hq))⟩
    rw [(h p List.mem_cons_self).2.1]
    rfl

end Template

/-- The sink has been given escaped bytes, and had room for them if nothing failed. -/
def Outcome.Escapes (sink : Sink) (o : Outcome) : Prop :=
  ∃ bytes, Text.IsEscaped bytes ∧ o.session.sink = (sink.write bytes).1 ∧
    (o.failure = none → sink.HasRoom bytes)

theorem Outcome.Escapes.andThen {sink : Sink} {o : Outcome} {next : Session → Outcome}
    (h : o.Escapes sink) (hnext : ∀ s : Session, (next s).Escapes s.sink) :
    (o.andThen next).Escapes sink := by
  unfold Outcome.andThen
  cases hfailure : o.failure with
  | some e => exact h
  | none =>
    -- Nothing failed, so that the sink has all of the first bytes and takes the others behind them.
    obtain ⟨first, hfirst, hsink, hroom⟩ := h
    have hfits : sink.HasRoom first := hroom hfailure
    obtain ⟨more, hmore, hsink', hroom'⟩ := hnext o.session
    rw [Sink.write_of_hasRoom hfits] at hsink
    dsimp only at hsink hsink' hroom' ⊢
    rw [hsink] at hsink' hroom'
    refine ⟨first ++ more, hfirst.append hmore, ?_, ?_⟩
    · rw [← Sink.write_took hfits]
      exact hsink'
    · intro hnone
      exact Sink.hasRoom_append_iff.2 ⟨hfits, hroom' hnone⟩

namespace Session

theorem return_escapes (s : Session) (failure : Option Error) :
    Outcome.Escapes s.sink ⟨s, failure⟩ := by
  refine ⟨[], Text.isEscaped_nil, ?_, fun _ => s.sink.hasRoom_nil⟩
  rw [Sink.write_of_hasRoom s.sink.hasRoom_nil, Sink.took_nil]

theorem write_escapes (s : Session) {t : Text} (h : Text.IsEscaped t.encode) :
    (s.write t).Escapes s.sink := by
  refine ⟨t.encode, h, rfl, ?_⟩
  intro hnone
  exact Sink.write_eq_none_iff.1 (Option.map_eq_none_iff.1 hnone)

theorem isEscaped_written {v : Value} {t : Text} (h : v.written true = .ok t) :
    Text.IsEscaped t.encode := by
  unfold Value.written at h
  split at h
  · cases h
    exact Text.isEscaped_nil
  · cases h
    exact Text.isEscaped_escapeHtml _
  · cases h
    exact (Binary64.isPlain_toText _).isEscaped
  · cases h

theorem sink_of_lookup {s after : Session} {key : Text} {found : Option Value}
    (h : s.lookup key = (found, after)) : after.sink = s.sink := by
  rw [← (Prod.mk.inj h).2]

theorem writeValue_escapes (s : Session) (key : Text) : (s.writeValue key true).Escapes s.sink := by
  unfold writeValue
  rcases hlookup : s.lookup key with ⟨found, after⟩
  rw [← sink_of_lookup hlookup]
  cases found with
  | none => exact after.return_escapes none
  | some v =>
    dsimp only
    cases hwritten : v.written true with
    | error kind => exact after.return_escapes (some (.unwritableKind kind))
    | ok t => exact after.write_escapes (isEscaped_written hwritten)

theorem within_escapes {body : Session → Outcome} (h : ∀ s : Session, (body s).Escapes s.sink)
    (values : Option Mapping) (s : Session) : (within body values s).Escapes s.sink := by
  cases values with
  | none => exact h s
  | some values => exact h { s with context := .ofValues values :: s.context }

theorem each_escapes {α : Type} {run : α → Session → Outcome}
    (h : ∀ (a : α) (s : Session), (run a s).Escapes s.sink) (as : List α) (s : Session) :
    (Outcome.each run as s).Escapes s.sink := by
  induction as generalizing s with
  | nil => exact s.return_escapes none
  | cons a as ih => exact (h a s).andThen ih

theorem runSection_escapes {body : Session → Outcome} (h : ∀ s : Session, (body s).Escapes s.sink)
    (s : Session) (tag : SectionTag) : (s.runSection tag body).Escapes s.sink := by
  unfold runSection
  rcases hlookup : s.lookup tag.key with ⟨found, after⟩
  rw [← sink_of_lookup hlookup]
  cases found with
  | none => exact after.return_escapes (some (.missingSectionVariable tag.key tag.place))
  | some v =>
    apply (each_escapes (within_escapes h) _ after).andThen
    intro s'
    split
    · split
      next kind _ => exact s'.return_escapes (some (.untestableKind tag.key kind))
      next => exact h s'
      next => exact s'.return_escapes none
    · exact s'.return_escapes none

end Session

namespace Template

theorem run_escapes {t : Template} (h : t.IsEscaping) (s : Session) :
    (t.run s).Escapes s.sink := by
  induction t generalizing s with
  | done => exact s.return_escapes none
  | text t rest ih => exact (s.write_escapes h.1.isEscaped).andThen (ih h.2)
  | value key escaped rest ih =>
    obtain ⟨rfl, hrest⟩ := h
    exact (s.writeValue_escapes key).andThen (ih hrest)
  | sect tag body rest ihb ihr =>
    exact (Session.runSection_escapes (ihb h.1) s tag).andThen (ihr h.2)
  | stop failure => exact s.return_escapes (some failure)

/-- Values reach the sink only through escaping, so that none of them brings markup with it,
wherever the run stops. -/
theorem run_ofTokens_escaped (tokens : List Token) (h : ∀ t ∈ tokens, t.IsEscaping) (s : Session) :
    ∃ bytes, Text.IsEscaped bytes ∧
      ((ofTokens tokens).run s).session.sink.contents =
        s.sink.contents ++ match s.sink.room? with
          | none => bytes
          | some room => bytes.take room := by
  have hplaced : ∀ p ∈ Placed.ofTokens none tokens, p.token.IsEscaping := by
    intro p hp
    exact h p.token (Placed.mem_token_ofTokens hp)
  obtain ⟨bytes, hbytes, hsink, -⟩ := run_escapes (isEscaping_ofPlaced hplaced) s
  refine ⟨bytes, hbytes, ?_⟩
  rw [ofTokens, hsink]
  exact s.sink.contents_write bytes

def escapingTokens : List Token :=
  [['x', ' '], ['{', '{', '#', 'a', '}', '}'], ['{', '{', 'b', '}', '}'],
    ['{', '{', '/', 'a', '}', '}']].map fun t => ⟨⟨t, .unknown⟩⟩

/-- A list of a string that is all markup and of a value that cannot be written. -/
def hostileScope : Scope :=
  .ofValues [(['a'], .list [[(['b'], .string ['<', '&', '\''])], [(['b'], .bool true)]])]

theorem run_escapingTokens :
    (∀ t ∈ escapingTokens, t.IsEscaping) ∧
      ((ofTokens escapingTokens).run ⟨[hostileScope], .unlimited⟩).session.sink.contents =
        Text.encode "x &lt;&amp;&#39;".toList ∧
      Text.IsEscaped (Text.encode "x &lt;&amp;&#39;".toList) := by
  have htokens : ∀ t ∈ escapingTokens, t.IsEscaping := by decide
  have hwritten :
      ((ofTokens escapingTokens).run ⟨[hostileScope], .unlimited⟩).session.sink.contents =
        Text.encode "x &lt;&amp;&#39;".toList := by
    decide +kernel
  obtain ⟨bytes, hbytes, hcontents⟩ :=
    run_ofTokens_escaped escapingTokens htokens ⟨[hostileScope], .unlimited⟩
  rw [hwritten] at hcontents
  have hsame : Text.encode "x &lt;&amp;&#39;".toList = bytes := hcontents
  exact ⟨htokens, hwritten, hsame ▸ hbytes⟩

end Template

end Mustache
