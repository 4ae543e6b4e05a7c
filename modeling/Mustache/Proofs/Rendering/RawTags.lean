import Mustache.Proofs.Polarity
import Mustache.Proofs.Rendering.Replacing

namespace Mustache

namespace Text

def tripleTag (key : Text) : Text := ['{', '{', '{'] ++ key ++ ['}', '}', '}']

def rawTag (key : Text) : Text := ['{', '{', '&'] ++ key ++ ['}', '}']

structure IsPlainKey (t : Text) : Prop where
  no_brace : '{' ∉ t ∧ '}' ∉ t
  no_modifier : ∀ c ∈ t.trimStart.head?, Modifier.ofChar? c = none

theorem trimStart_unifyLineBreaks (t : Text) :
    t.unifyLineBreaks.trimStart = t.trimStart.unifyLineBreaks := by
  fun_induction unifyLineBreaks t with
  | case1 => rfl
  | case2 t ih =>
    have hreturn : isBlank '\r' = true := by decide
    have hfeed : isBlank '\n' = true := by decide
    rw [trimStart_cons_of_isBlank hfeed, trimStart_cons_of_isBlank hreturn,
      trimStart_cons_of_isBlank hfeed, ih]
  | case3 c t hcrlf ih =>
    cases hc : isBlank c with
    | true =>
      have hunified : isBlank (if c = '\r' then '\n' else c) = true := by
        split
        · decide
        · exact hc
      rw [trimStart_cons_of_isBlank hunified, trimStart_cons_of_isBlank hc, ih]
    | false =>
      have hreturn : c ≠ '\r' := by
        rintro rfl
        exact absurd hc (by decide)
      rw [if_neg hreturn, trimStart_cons hc, trimStart_cons hc, unifyLineBreaks_cons hreturn]

theorem IsPlainKey.unifyLineBreaks {t : Text} (h : t.IsPlainKey) :
    t.unifyLineBreaks.IsPlainKey := by
  obtain ⟨hopening, hclosing⟩ := h.no_brace
  refine ⟨⟨mt (mem_of_mem_unifyLineBreaks (by decide)) hopening,
    mt (mem_of_mem_unifyLineBreaks (by decide)) hclosing⟩, ?_⟩
  intro c hc
  rw [trimStart_unifyLineBreaks] at hc
  by_cases hfeed : c = '\n'
  · rw [hfeed]
    rfl
  · exact h.no_modifier c (head?_unifyLineBreaks hfeed hc)

theorem unifyLineBreaks_braces {opening closing : Text} (hopening : opening.head? = some '{')
    (hclosing : closing.head? = some '}') (hopen : '\r' ∉ opening) (hclose : '\r' ∉ closing)
    (p key q : Text) : (p ++ (opening ++ key ++ closing) ++ q).unifyLineBreaks =
      p.unifyLineBreaks ++ ((opening ++ key.unifyLineBreaks ++ closing) ++ q.unifyLineBreaks) := by
  have hafter : (opening ++ (key ++ (closing ++ q))).head? ≠ some '\n' := by
    rw [List.head?_append, hopening]
    exact nofun
  have hbehind : (closing ++ q).head? ≠ some '\n' := by
    rw [List.head?_append, hclosing]
    exact nofun
  simp only [List.append_assoc]
  rw [unifyLineBreaks_append hafter, unifyLineBreaks_append_of_not_mem hopen,
    unifyLineBreaks_append hbehind, unifyLineBreaks_append_of_not_mem hclose]

theorem unifyLineBreaks_tripleTag (p key q : Text) :
    (p ++ tripleTag key ++ q).unifyLineBreaks =
      p.unifyLineBreaks ++ (tripleTag key.unifyLineBreaks ++ q.unifyLineBreaks) :=
  unifyLineBreaks_braces rfl rfl (by decide) (by decide) p key q

theorem unifyLineBreaks_rawTag (p key q : Text) :
    (p ++ rawTag key ++ q).unifyLineBreaks =
      p.unifyLineBreaks ++ (rawTag key.unifyLineBreaks ++ q.unifyLineBreaks) :=
  unifyLineBreaks_braces rfl rfl (by decide) (by decide) p key q

end Text

namespace Modifier

theorem takeAll_of_head {t : Text} (h : ∀ c ∈ t.head?, ofChar? c = none) : takeAll t = ([], t) := by
  cases t with
  | nil => rfl
  | cons c t =>
    rw [takeAll, h c rfl]

theorem ofChar?_of_isBlank {c : Char} (h : Text.isBlank c = true) : ofChar? c = none := by
  rw [Option.eq_none_iff_forall_ne_some]
  intro m hm
  rw [← toChar_of_ofChar? hm, isBlank_toChar] at h
  cases h

end Modifier

namespace Text.IsPlainKey

variable {key : Text} (h : key.IsPlainKey)

include h

theorem takeAll_trimStart : Modifier.takeAll key.trimStart = ([], key.trimStart) :=
  Modifier.takeAll_of_head h.no_modifier

/-- A key may begin with a blank, which is no modifier either. -/
theorem takeAll_eq : Modifier.takeAll key = ([], key) := by
  apply Modifier.takeAll_of_head
  intro c hc
  obtain ⟨rest, rfl⟩ := List.head?_eq_some_iff.1 hc
  cases hblank : isBlank c with
  | true => exact Modifier.ofChar?_of_isBlank hblank
  | false =>
    have hfirst := h.no_modifier
    rw [trimStart_cons hblank] at hfirst
    exact hfirst c rfl

theorem partsOf_tripleTag : Token.partsOf (tripleTag key) = ([], key.trim) := by
  have hkind : Token.kindOf (tripleTag key) = .tripleTag := rfl
  have hopening : stripPrefix? (List.replicate 3 '{') (tripleTag key) =
      some (key ++ List.replicate 3 '}') := rfl
  have hinner : Token.stripBraces 3 (tripleTag key) = key := by
    rw [Token.stripBraces, hopening, Option.getD_some, stripSuffix?_append]
    rfl
  have htrim : key.trimStart.trim = key.trim := by
    rw [trim, trim, trimStart_trimStart]
  rw [Token.partsOf, hkind]
  dsimp only
  rw [hinner, Token.partsOfInner, h.takeAll_trimStart]
  exact congrArg (Prod.mk []) htrim

theorem partsOf_rawTag : Token.partsOf (rawTag key) = ([.raw], key.trim) := by
  have hkind : Token.kindOf (rawTag key) = .tag := rfl
  have hinner : Token.stripBraces 2 (rawTag key) = '&' :: key := by
    have hclosing : stripSuffix? ['}', '}'] ('&' :: (key ++ ['}', '}'])) = some ('&' :: key) :=
      stripSuffix?_append ('&' :: key) ['}', '}']
    have htag : rawTag key = '{' :: '{' :: '&' :: (key ++ ['}', '}']) := rfl
    rw [htag, Token.stripBraces_two, hclosing, Option.getD_some]
  have hmodifier : Modifier.takeAll ('&' :: key) = ([.raw], key) := by
    have hraw : Modifier.ofChar? '&' = some .raw := rfl
    rw [Modifier.takeAll, hraw, h.takeAll_eq]
  rw [Token.partsOf, hkind]
  dsimp only
  rw [hinner, Token.partsOfInner, trimStart_cons (by decide), hmodifier]

end Text.IsPlainKey

theorem Token.aspect_of_raw {t : Token} {key : Text}
    (h : t.kind = .tripleTag ∧ t.parts = ([], key) ∨ t.kind = .tag ∧ t.parts = ([.raw], key)) :
    t.aspect = ⟨.value key false, 0, none, t.line, false⟩ := by
  rcases h with ⟨hkind, hparts⟩ | ⟨hkind, hparts⟩ <;>
    simp [aspect, action, depthChange, closesSection, opensSection, Token.standsAlone, isLiteral,
      isComment, has, modifiers, Token.key, hkind, hparts, Modifier.standsAlone]

theorem Token.aspect_tripleTag {t u : Token} {key : Text} (hkey : key.IsPlainKey)
    (ht : t.text = Text.tripleTag key) (hu : u.text = Text.rawTag key)
    (hplace : u.place = t.place) : u.aspect = t.aspect := by
  have htriple : t.kind = .tripleTag ∧ t.parts = ([], key.trim) := by
    rw [kind, parts, ht, hkey.partsOf_tripleTag]
    exact ⟨rfl, rfl⟩
  have hraw : u.kind = .tag ∧ u.parts = ([.raw], key.trim) := by
    rw [kind, parts, hu, hkey.partsOf_rawTag]
    exact ⟨rfl, rfl⟩
  have hline : u.line = t.line := congrArg Location.line hplace
  rw [aspect_of_raw (Or.inl htriple), aspect_of_raw (Or.inr hraw), hline]

theorem Location.sameLine_tags (before key : Text) :
    SameLine (before ++ Text.tripleTag key) (before ++ Text.rawTag key) := by
  have hbrace : isBreak '{' = false ∧ isBreak '}' = false ∧ isBreak '&' = false := by decide
  have hopening : SameLine (before ++ ['{', '{', '{']) (before ++ ['{', '{', '&']) :=
    sameLine_append_of_no_break before nofun nofun (by simp [hbrace]) (by simp [hbrace])
  have hclosing : SameLine (before ++ ['{', '{', '{'] ++ key ++ ['}', '}', '}'])
      (before ++ ['{', '{', '&'] ++ key ++ ['}', '}']) :=
    (hopening.append key).append_of_no_break nofun nofun (by simp [hbrace]) (by simp [hbrace])
  simpa only [Text.tripleTag, Text.rawTag, List.append_assoc] using hclosing

/-- Three braces are another spelling of the modifier `&`. A closing brace behind the tag in two
braces would become a part of it. -/
theorem Renderer.render_replaceTripleTag (r : Renderer) (name : Text) (context : Context)
    (source source' : Source) (p q key : Text) (front back : List Token) (t : Token)
    (hsource : r.sources.get? name = some source)
    (htext : source.text = (p ++ Text.tripleTag key ++ q).unifyLineBreaks)
    (htext' : source'.text = (p ++ Text.rawTag key ++ q).unifyLineBreaks)
    (htokens : (Token.lex r.limits source.rewind).tokens = front ++ t :: back)
    (hfront : front.flatMap Token.text = p.unifyLineBreaks)
    (ht : t.text = (Text.tripleTag key).unifyLineBreaks) (hfit : t.text.byteCount ≤ r.limits.window)
    (hkey : key.IsPlainKey) (hbrace : q.head? ≠ some '}') :
    ({ r with sources := r.sources.insert name source' }.render name context).Agrees
      (r.render name context) := by
  have hplain := hkey.unifyLineBreaks
  have htriple : (Text.tripleTag key).unifyLineBreaks = Text.tripleTag key.unifyLineBreaks := by
    have hparts := Text.unifyLineBreaks_tripleTag [] key []
    rwa [List.nil_append, List.append_nil, Text.unifyLineBreaks, List.nil_append,
      List.append_nil] at hparts
  rw [htriple] at ht
  rw [Text.unifyLineBreaks_tripleTag, ← hfront, ← ht] at htext
  rw [Text.unifyLineBreaks_rawTag, ← hfront] at htext'
  -- The key has uniform line breaks from here on.
  generalize key.unifyLineBreaks = key at *
  have htag : t.isLiteral = false := by
    rw [Token.isLiteral, Token.kind, ht]
    rfl
  have hclose : Token.throughClosing? (Text.rawTag key ++ q.unifyLineBreaks) =
      some (Text.rawTag key) := by
    have hinner : '}' ∉ ['{', '{', '&'] ++ key := by simp [hplain.no_brace]
    apply (Text.throughClosing?_append_iff hinner).2
    exact mt (Text.head?_unifyLineBreaks (by decide)) hbrace
  have hfit' : (Text.rawTag key).byteCount ≤ r.limits.window := by
    rw [ht, Text.tripleTag] at hfit
    have hmore : Text.byteCount (['{', '{', '{'] ++ key ++ ['}', '}', '}']) =
        (Text.rawTag key).byteCount + 1 := by
      rw [Text.rawTag, Text.byteCount_append, Text.byteCount_append, Text.byteCount_append,
        Text.byteCount_append]
      rfl
    omega
  have hline : Location.SameLine ([] ++ front.flatMap Token.text ++ t.text)
      ([] ++ front.flatMap Token.text ++ Text.rawTag key) := by
    rw [ht]
    exact Location.sameLine_tags _ key
  obtain ⟨t', back', htokens', ht', hplace, hback, hfailure⟩ :=
    @Token.lexWithin_replace r.limits r.limits.maxLoops front back t source.rewind source'.rewind
      (Text.rawTag key) q.unifyLineBreaks htokens rfl htext htext' htag rfl hclose hfit' hline
  apply agrees_of_lexing hsource _ hfailure
  rw [htokens, Token.lex, htokens', List.map_append, List.map_append, List.map_cons, List.map_cons,
    Token.aspect_tripleTag hplain ht ht' hplace, Token.map_aspect_congr hback]

/-- A tag in three braces that ends on the third line, in front of a section that is not closed. -/
def tripleTemplate : Text :=
  "a\r\n{{#b}}".toList ++ Text.tripleTag " k\r\n".toList ++ "{{/b}}{{#z}}".toList

def rawTemplate : Text :=
  "a\r\n{{#b}}".toList ++ Text.rawTag " k\r\n".toList ++ "{{/b}}{{#z}}".toList

/-- The value is not escaped, and the error is found on the third line. -/
theorem render_rawTemplate :
    let r := Renderer.ofTemplate tripleTemplate {}
    let r' := { r with sources := r.sources.insert ['t'] (.ofText rawTemplate) }
    let rendering := r'.render ['t'] [.ofValues [(['b'], .bool true), (['k'], .string ['<'])]]
    rendering.renderer.sink.map Sink.contents = some (Text.encode ['a', '\n', '<']) ∧
      rendering.failure.map Error.dropColumn = some (.unmatchedSection ['z'] ⟨3, 0⟩) := by
  intro r r'
  let tokens := (Token.lex {} (Source.ofText tripleTemplate).rewind).tokens
  have hplain : Text.IsPlainKey " k\r\n".toList := by
    have hhead : Text.trimStart " k\r\n".toList = "k\r\n".toList := by decide +kernel
    refine ⟨by decide +kernel, fun c hc => ?_⟩
    rw [hhead] at hc
    cases hc
    rfl
  have hagrees := Renderer.render_replaceTripleTag r ['t']
    [.ofValues [(['b'], .bool true), (['k'], .string ['<'])]] (.ofText tripleTemplate)
    (.ofText rawTemplate) "a\r\n{{#b}}".toList "{{/b}}{{#z}}".toList " k\r\n".toList
    (tokens.take 2) (tokens.drop 3)
    (.behind "a\n{{#b}}".toList (Text.tripleTag " k\n".toList)) rfl
    (by decide +kernel) (by decide +kernel) (by decide +kernel) (by decide +kernel)
    (by decide +kernel) (by decide +kernel) hplain (by decide +kernel)
  dsimp only
  rw [hagrees.sink, hagrees.failure]
  decide +kernel

end Mustache
