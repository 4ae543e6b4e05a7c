import Mustache.Proofs.Rendering.RawTags

namespace Mustache

theorem Modifier.takeAll_map_toChar_append (ms : List Modifier) {rest : Text}
    (h : ∀ c ∈ rest.head?, ofChar? c = none) : takeAll (ms.map toChar ++ rest) = (ms, rest) := by
  induction ms with
  | nil => exact takeAll_of_head h
  | cons m ms ih =>
    rw [List.map_cons, List.cons_append, takeAll, ofChar?_toChar]
    dsimp only
    rw [ih]

namespace Token

/-- What stands between the braces of a tag. The key has no blanks at its ends, and no modifier at
its beginning. -/
structure Spelling where
  modifiers : List Modifier
  key : Text
  front : Text
  middle : Text
  back : Text
  isBlank_front : ∀ c ∈ front, Text.isBlank c = true
  isBlank_middle : ∀ c ∈ middle, Text.isBlank c = true
  isBlank_back : ∀ c ∈ back, Text.isBlank c = true
  trim_key : key.trim = key
  no_modifier : ∀ c ∈ key.head?, Modifier.ofChar? c = none

namespace Spelling

def rest (s : Spelling) : Text := s.middle ++ s.key ++ s.back

def toText (s : Spelling) : Text := s.front ++ (s.modifiers.map Modifier.toChar ++ s.rest)

def tag (s : Spelling) : Text := ['{', '{'] ++ s.toText ++ ['}', '}']

def tripleTag (s : Spelling) : Text := ['{', '{', '{'] ++ s.toText ++ ['}', '}', '}']

variable (s : Spelling)

theorem trim_rest : s.rest.trim = s.key := by
  rw [rest, Text.trim_append_blanks s.isBlank_middle s.isBlank_back, s.trim_key]

/-- Behind blanks the key begins, or there is nothing. -/
theorem no_modifier_trimStart_rest :
    ∀ c ∈ s.rest.trimStart.head?, Modifier.ofChar? c = none := by
  have hrest : s.rest.trimStart = (s.key ++ s.back).trimStart := by
    rw [rest, List.append_assoc]
    exact List.dropWhile_append_of_pos s.isBlank_middle
  rw [hrest]
  intro c hc
  cases hkey : s.key with
  | nil =>
    have hnone : s.back.trimStart = [] := Text.dropWhile_eq_nil s.isBlank_back
    rw [hkey, List.nil_append, hnone] at hc
    cases hc
  | cons d key =>
    have hd : Text.isBlank d = false := Text.isBlank_head_trim (s.trim_key.trans hkey)
    rw [hkey, List.cons_append, Text.trimStart_cons hd] at hc
    exact s.no_modifier c (hkey ▸ hc)

theorem no_modifier_rest : ∀ c ∈ s.rest.head?, Modifier.ofChar? c = none := by
  intro c hc
  cases hblank : Text.isBlank c with
  | true => exact Modifier.ofChar?_of_isBlank hblank
  | false =>
    obtain ⟨rest, hrest⟩ := List.head?_eq_some_iff.mp hc
    apply s.no_modifier_trimStart_rest
    rw [hrest, Text.trimStart_cons hblank]
    rfl

theorem partsOfInner_toText : partsOfInner s.toText = (s.modifiers, s.key) := by
  have hfront : s.toText.trimStart = Text.trimStart (s.modifiers.map Modifier.toChar ++ s.rest) :=
    List.dropWhile_append_of_pos s.isBlank_front
  rw [partsOfInner, hfront]
  cases s.modifiers with
  | nil =>
    have htrim : s.rest.trimStart.trim = s.key := by
      rw [← s.trim_rest, Text.trim, Text.trim, Text.trimStart_trimStart]
    rw [List.map_nil, List.nil_append, Modifier.takeAll_of_head s.no_modifier_trimStart_rest]
    exact congrArg (Prod.mk []) htrim
  | cons m ms =>
    have hstart : Text.trimStart (List.map Modifier.toChar (m :: ms) ++ s.rest) =
        List.map Modifier.toChar (m :: ms) ++ s.rest :=
      Text.trimStart_cons m.isBlank_toChar _
    rw [hstart, Modifier.takeAll_map_toChar_append _ s.no_modifier_rest]
    exact congrArg (Prod.mk (m :: ms)) s.trim_rest

end Spelling

theorem stripBraces_append (count : Nat) (inner : Text) :
    stripBraces count (List.replicate count '{' ++ inner ++ List.replicate count '}') = inner := by
  have hopening : Text.stripPrefix? (List.replicate count '{')
      (List.replicate count '{' ++ inner ++ List.replicate count '}') =
        some (inner ++ List.replicate count '}') := by
    rw [Text.stripPrefix?_eq_some_iff, List.append_assoc]
  rw [stripBraces, hopening, Option.getD_some, Text.stripSuffix?_append]
  rfl

theorem kindOf_braces {inner : Text} (h : inner.head? ≠ some '{') :
    kindOf (['{', '{'] ++ inner ++ ['}', '}']) = .tag := by
  cases inner with
  | nil => rfl
  | cons c inner =>
    have hc : c ≠ '{' := fun hbrace => h (congrArg some hbrace)
    simp [kindOf, hc]

/-- In two braces, what stands behind these may not begin with a third. -/
theorem parts_of_spelling (s : Spelling) (span : Span) :
    let tag : Token := ⟨⟨s.tag, span⟩⟩
    let tripleTag : Token := ⟨⟨s.tripleTag, span⟩⟩
    (s.toText.head? ≠ some '{' → tag.kind = .tag ∧ tag.parts = (s.modifiers, s.key)) ∧
      tripleTag.kind = .tripleTag ∧ tripleTag.parts = (s.modifiers, s.key) := by
  intro tag tripleTag
  have htriple : kindOf s.tripleTag = .tripleTag := rfl
  refine ⟨fun hthird => ?_, htriple, ?_⟩
  · have htag : kindOf s.tag = .tag := kindOf_braces hthird
    have hinner : stripBraces 2 s.tag = s.toText := stripBraces_append 2 s.toText
    refine ⟨htag, ?_⟩
    change partsOf s.tag = _
    rw [partsOf, htag]
    dsimp only
    rw [hinner, s.partsOfInner_toText]
  · have hinner : stripBraces 3 s.tripleTag = s.toText := stripBraces_append 3 s.toText
    change partsOf s.tripleTag = _
    rw [partsOf, htriple]
    dsimp only
    rw [hinner, s.partsOfInner_toText]

/-- A section opened twice over, with blanks of several kinds around a key that holds braces. -/
def bracedSpelling : Spelling where
  modifiers := [.opener, .raw, .opener]
  key := ['a', ' ', '{', '}']
  front := ['\u00a0']
  middle := ['\t']
  back := ['\u3000', '\n']
  isBlank_front := List.all_eq_true.mp (by decide)
  isBlank_middle := List.all_eq_true.mp (by decide)
  isBlank_back := List.all_eq_true.mp (by decide)
  trim_key := by decide
  no_modifier := by
    rintro c ⟨⟩
    rfl

theorem parts_bracedSpelling :
    let tag : Token := ⟨⟨['{', '{', '\u00a0', '#', '&', '#', '\t', 'a', ' ', '{', '}', '\u3000',
      '\n', '}', '}'], .unknown⟩⟩
    bracedSpelling.toText.head? ≠ some '{' ∧ bracedSpelling.tag = tag.text ∧ tag.kind = .tag ∧
      tag.parts = ([.opener, .raw, .opener], ['a', ' ', '{', '}']) := by
  intro tag
  have hthird : bracedSpelling.toText.head? ≠ some '{' := by decide
  have htag : bracedSpelling.tag = tag.text := by decide
  obtain ⟨hkind, hparts⟩ := (parts_of_spelling bracedSpelling .unknown).1 hthird
  rw [htag] at hkind hparts
  exact ⟨hthird, htag, hkind, hparts⟩

end Token

end Mustache
