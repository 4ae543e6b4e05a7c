import Mustache.Proofs.Lexing.Partition
import Mustache.Proofs.Lexing.Resumption
import Mustache.Proofs.Rendering.Lookahead
import Mustache.Proofs.Rendering.Repetition

namespace Mustache

def Error.place? : Error → Option Location
  | unclosedTag place => some place
  | unmatchedSection _ place => some place
  | missingSectionVariable _ place => some place
  | unsupported _ place => some place
  | _ => none

namespace Source

/-- Whether two opening braces stand behind the given beginning of a source, at a location that no
other character has which is no line break. -/
structure OpensAt (s : Source) (before : Text) (place : Location) : Prop where
  braces : ∃ after, s.text = before ++ '{' :: '{' :: after
  location : s.locationAt before.byteCount = place
  line : 1 ≤ place.line
  column : 1 ≤ place.column
  unique {front back : Text} {c : Char} : s.text = front ++ c :: back →
    Location.isBreak c = false → s.locationAt front.byteCount = place → front = before

theorem opensAt_of_opensTag {s : Source} {before rest : Text} (htext : s.text = before ++ rest)
    (hopen : Token.opensTag rest = true) :
    s.OpensAt before (.ofLast (before ++ ['{'])) := by
  obtain ⟨after, rfl⟩ := Scan.opensTag_iff_begins.1 hopen
  obtain ⟨hline, hcolumn⟩ := Location.one_le_ofLast before (c := '{') rfl
  refine ⟨⟨after, htext⟩, locationAt_byteCount htext, hline, hcolumn, ?_⟩
  intro front back c hsplit hc hplace
  rw [locationAt_byteCount hsplit] at hplace
  exact Location.front_eq_of_ofLast_eq (hsplit.symm.trans htext) hc rfl hplace

end Source

namespace Token

open Scan

theorem place_behind (before : Text) (c : Char) (piece : Text) :
    (behind before (c :: piece)).place = .ofLast (before ++ [c]) := rfl

theorem Causes.place_eq {t : Token} {e : Error} {place : Location} (h : t.Causes e)
    (hplace : e.place? = some place) : t.place = place := by
  cases h <;> cases hplace <;> rfl

theorem Lexing.tokens_of_result {l : Lexing} {tokens : List Token} (h : l.result = .ok tokens) :
    l.tokens = tokens := by
  unfold Lexing.result at h
  split at h
  · exact Except.ok.inj h
  · cases h

theorem opensAt_of_mem_lex {limits : Limits} {s : Source} {front back : List Token} {t : Token}
    (htokens : (lex limits s.rewind).tokens = front ++ t :: back) (htag : t.isLiteral = false) :
    s.OpensAt (front.flatMap text) t.place := by
  obtain ⟨hcuts, -, -⟩ := lexWithin_cuts limits limits.maxLoops s.rewind
  have hsuccessive := lexWithin_successive limits limits.maxLoops s.rewind
  rw [← lex, htokens] at hcuts hsuccessive
  obtain ⟨htoken, -, -, -⟩ := hsuccessive.append
  obtain ⟨piece, hpiece⟩ := opensTag_iff_begins.1 (opensTag_of_isLiteral htag)
  have hplace : t.place = .ofLast (front.flatMap text ++ ['{']) := by
    rw [htoken, ← hpiece]
    exact place_behind _ _ _
  have htext : s.text = front.flatMap text ++
      (t.text ++ (back.flatMap text ++ (lex limits s.rewind).source.after)) := by
    have hparts := hcuts.eq_append
    rw [List.flatMap_append, List.flatMap_cons, List.append_assoc, List.append_assoc] at hparts
    exact hparts
  rw [hplace]
  apply Source.opensAt_of_opensTag htext
  rw [← hpiece]
  rfl

theorem of_failure_lex {limits : Limits} {s : Source} {e : Error}
    (h : (lex limits s).failure = some e) :
    e = .loopLimit limits.maxLoops ∨ opensTag (lex limits s).source.after = true ∧
      e = .unclosedTag ((lex limits s).source.locationAt (lex limits s).source.cursor) := by
  rw [lex] at h ⊢
  by_cases hcount : (lexAll limits.lookahead s).tokens.length < limits.maxLoops
  · obtain ⟨hends, -⟩ := lexAll_spec limits.lookahead s
    rw [← lexWithin_eq_lexAll limits limits.maxLoops s hcount] at hends
    rcases hends with ⟨hnone, -⟩ | ⟨hopen, hunclosed⟩
    · cases h.symm.trans hnone
    · exact Or.inr ⟨hopen, Option.some.inj (h.symm.trans hunclosed)⟩
  · obtain ⟨hlimit, -⟩ := lexWithin_breaksOff limits limits.maxLoops s (Nat.le_of_not_lt hcount)
    exact Or.inl (Option.some.inj (h.symm.trans hlimit))

/-- A tag that is not closed stands where the lexer stopped. -/
theorem opensAt_of_failure_lex {limits : Limits} {s : Source} {e : Error} {place : Location}
    (h : (lex limits s.rewind).failure = some e) (hplace : e.place? = some place) :
    e = .unclosedTag place ∧ s.OpensAt (lex limits s.rewind).source.before place := by
  have htext : (lex limits s.rewind).source.text = s.text :=
    text_source_lexWithin limits limits.maxLoops s.rewind
  rcases of_failure_lex h with rfl | ⟨hopen, rfl⟩
  · cases hplace
  · have hopens := Source.opensAt_of_opensTag htext.symm hopen
    rw [← hopens.location, Source.locationAt, ← htext] at hopens
    cases hplace
    exact ⟨rfl, hopens⟩

end Token

namespace Renderer

/-- A rendering fails for want of a sink or a source, in the lexer, because of the sink, or because
of a tag of the source. -/
theorem of_failure_render {r : Renderer} {name : Text} {context : Context} {e : Error}
    (h : (r.render name context).failure = some e) :
    e = .noSink ∨ e = .unknownSource name ∨ (∃ cause, e = .fault cause) ∨
      ∃ source, r.sources.get? name = some source ∧
        ((Token.lex r.limits source.rewind).failure = some e ∧
            (r.render name context).renderer.sources.get? name =
              some (Token.lex r.limits source.rewind).source ∨
          ∃ tokens, (Token.lex r.limits source.rewind).result = .ok tokens ∧
            ∃ t ∈ tokens, t.isLiteral = false ∧ t.Causes e) := by
  cases hsink : r.sink with
  | none =>
    rw [render, hsink] at h
    exact Or.inl (Option.some.inj h.symm)
  | some sink =>
    cases hsource : r.sources.get? name with
    | none =>
      rw [render, hsink] at h
      dsimp only at h
      rw [hsource] at h
      exact Or.inr (Or.inl (Option.some.inj h.symm))
    | some source =>
      rw [render_of_source hsink hsource] at h ⊢
      dsimp only at h ⊢
      cases hlexing : (Token.lex r.limits source.rewind).failure with
      | some e' =>
        rw [Token.Lexing.run, hlexing] at h
        cases h
        exact Or.inr <| Or.inr <| Or.inr
          ⟨source, rfl, Or.inl ⟨hlexing, Entries.get?_insert_self _ _ _⟩⟩
      | none =>
        -- With all tokens at hand only the sink and the tags are left to fail.
        have hresult : (Token.lex r.limits source.rewind).result =
            .ok (Token.lex r.limits source.rewind).tokens := by
          rw [Token.Lexing.result, hlexing]
        rw [Token.Lexing.run, hlexing] at h
        rcases Template.failure_run_ofTokens h with hcause | htag
        · exact Or.inr <| Or.inr <| Or.inl hcause
        · exact Or.inr <| Or.inr <| Or.inr ⟨source, rfl, Or.inr ⟨_, hresult, htag⟩⟩

/-- A place that an error names is enough to find the tag that is its cause. A tag that is not
closed is no token; it stands where the lexer stopped. -/
theorem place_failure_render (r : Renderer) (name : Text) (context : Context) (e : Error)
    (place : Location) (hfailure : (r.render name context).failure = some e)
    (hplace : e.place? = some place) :
    ∃ source before, r.sources.get? name = some source ∧ source.OpensAt before place ∧
      ((e = .unclosedTag place ∧ ∃ left,
          (r.render name context).renderer.sources.get? name = some left ∧
            left.text = source.text ∧ left.before = before) ∨
        ∃ front t back, (Token.lex r.limits source.rewind).result = .ok (front ++ t :: back) ∧
          front.flatMap Token.text = before ∧ t.isLiteral = false ∧ t.Causes e) := by
  obtain rfl | rfl | ⟨cause, rfl⟩ | ⟨source, hsource, hcause⟩ := of_failure_render hfailure
  · cases hplace
  · cases hplace
  · cases hplace
  · rcases hcause with ⟨hlexing, hleft⟩ | ⟨tokens, hresult, t, ht, htag, hcauses⟩
    · obtain ⟨hunclosed, hopens⟩ := Token.opensAt_of_failure_lex hlexing hplace
      have htext := Token.text_source_lexWithin r.limits r.limits.maxLoops source.rewind
      exact ⟨source, _, hsource, hopens, Or.inl ⟨hunclosed, _, hleft, htext, rfl⟩⟩
    · obtain ⟨front, back, rfl⟩ := List.append_of_mem ht
      have htokens := Token.Lexing.tokens_of_result hresult
      have hopens := Token.opensAt_of_mem_lex htokens htag
      rw [hcauses.place_eq hplace] at hopens
      exact ⟨source, _, hsource, hopens, Or.inr ⟨front, t, back, hresult, rfl, htag, hcauses⟩⟩

/-- A section without a value inside of one that has a value, on the line behind a run of line
breaks. -/
def unboundTemplate : Text := "a\r\n\n{{#b}}ä {{# c }}x{{/c}}{{/b}}".toList

/-- The error tells where the inner section is opened. -/
theorem render_unboundTemplate_place :
    let rendering := (Renderer.ofTemplate unboundTemplate {}).render ['t']
      [.ofValues [(['b'], .bool true)]]
    let source := Source.ofText unboundTemplate
    rendering.failure = some (.missingSectionVariable ['c'] ⟨2, 9⟩) ∧
      source.OpensAt "a\n\n{{#b}}ä ".toList ⟨2, 9⟩ ∧
      ∃ front t back, (Token.lex {} source.rewind).result = .ok (front ++ t :: back) ∧
        front.flatMap Token.text = "a\n\n{{#b}}ä ".toList ∧
        t.Causes (.missingSectionVariable ['c'] ⟨2, 9⟩) := by
  intro rendering source
  have hfailure : rendering.failure = some (.missingSectionVariable ['c'] ⟨2, 9⟩) := by
    decide +kernel
  obtain ⟨source', before, hsource, hopens, hcause⟩ :=
    place_failure_render (.ofTemplate unboundTemplate {}) ['t'] _ _ ⟨2, 9⟩ hfailure rfl
  obtain rfl : source = source' := Option.some.inj hsource
  obtain rfl : "a\n\n{{#b}}ä ".toList = before := by
    have hsplit : source.text = "a\n\n{{#b}}ä ".toList ++ "{{# c }}x{{/c}}{{/b}}".toList := by
      decide +kernel
    exact hopens.unique hsplit rfl (by decide +kernel)
  rcases hcause with ⟨hunclosed, -⟩ | ⟨front, t, back, hresult, hfront, -, hcauses⟩
  · cases hunclosed
  · exact ⟨hfailure, hopens, front, t, back, hresult, hfront, hcauses⟩

end Renderer

end Mustache
