import Mustache.Proofs.Lexing.Partition
import Mustache.Proofs.Lexing.Renaming
import Mustache.Proofs.Template
import Mustache.Proofs.Text.Trimming

namespace Mustache

namespace Modifier

def dual : Modifier → Modifier
  | opener => inverter
  | inverter => opener
  | m => m

def exchangeAll : Text → Text
  | [] => []
  | c :: cs =>
    match ofChar? c with
    | none => c :: cs
    | some m => m.dual.toChar :: exchangeAll cs

theorem toChar_of_ofChar? {c : Char} {m : Modifier} (h : ofChar? c = some m) : m.toChar = c := by
  unfold ofChar? at h
  split at h <;> cases h <;> rfl

theorem takeAll_exchangeAll (t : Text) :
    takeAll (exchangeAll t) = ((takeAll t).1.map dual, (takeAll t).2) := by
  induction t with
  | nil => rfl
  | cons c t ih =>
    rw [exchangeAll, takeAll]
    cases hc : ofChar? c with
    | none =>
      dsimp only
      rw [takeAll, hc]
      rfl
    | some m =>
      dsimp only
      rw [takeAll, ofChar?_toChar]
      dsimp only
      rw [ih]
      rfl

theorem exchangeAll_append_cons {c : Char} (hc : ofChar? c = none) (s t : Text) :
    exchangeAll (s ++ c :: t) = exchangeAll s ++ c :: t := by
  induction s with
  | nil => simp [exchangeAll, hc]
  | cons d s ih =>
    rw [List.cons_append, exchangeAll, exchangeAll]
    cases ofChar? d with
    | none => rfl
    | some m =>
      dsimp only
      rw [ih]
      rfl

theorem isBlank_toChar (m : Modifier) : Text.isBlank m.toChar = false := by
  cases m <;> decide

theorem contains_map_dual (ms : List Modifier) (m : Modifier) :
    (ms.map dual).contains m = ms.contains m.dual := by
  induction ms with
  | nil => rfl
  | cons n ms ih =>
    have hn : (m == n.dual) = (m.dual == n) := by cases m <;> cases n <;> decide
    rw [List.map_cons, List.contains_cons, List.contains_cons, ih, hn]

theorem standsAlone_dual (m : Modifier) : m.dual.standsAlone = m.standsAlone := by
  cases m <;> rfl

end Modifier

namespace Token

/-! ## Texts of tags -/

def exchangeInner (inner : Text) : Text :=
  inner.takeWhile Text.isBlank ++ Modifier.exchangeAll inner.trimStart

/-- Whether a text is a tag in two braces that has the key and is no comment. -/
def IsExchanged (key t : Text) : Prop :=
  kindOf t = .tag ∧ (partsOf t).1.contains .comment = false ∧ (partsOf t).2 = key

instance (key t : Text) : Decidable (IsExchanged key t) := inferInstanceAs (Decidable (_ ∧ _ ∧ _))

def exchangeText (key t : Text) : Text :=
  if IsExchanged key t then t.take 2 ++ exchangeInner (t.drop 2) else t

theorem trimStart_exchangeInner (inner : Text) :
    (exchangeInner inner).trimStart = Modifier.exchangeAll inner.trimStart := by
  have hblank : ∀ c ∈ inner.takeWhile Text.isBlank, Text.isBlank c = true :=
    List.all_eq_true.1 List.all_takeWhile
  rw [exchangeInner, Text.trimStart, List.dropWhile_append_of_pos hblank]
  cases hstart : inner.trimStart with
  | nil => rfl
  | cons c t =>
    rw [Modifier.exchangeAll]
    cases Modifier.ofChar? c with
    | none => exact Text.trimStart_cons (Text.isBlank_head_trimStart hstart) t
    | some m => exact Text.trimStart_cons m.dual.isBlank_toChar _

theorem partsOfInner_exchangeInner (inner : Text) :
    partsOfInner (exchangeInner inner) =
      ((partsOfInner inner).1.map Modifier.dual, (partsOfInner inner).2) := by
  rw [partsOfInner, partsOfInner, trimStart_exchangeInner, Modifier.takeAll_exchangeAll]

/-- A brace between the braces stays, with all that follows it. -/
theorem exchangeInner_append_cons (front rest : Text) :
    exchangeInner (front ++ '}' :: rest) = exchangeInner front ++ '}' :: rest := by
  have hblank : Text.isBlank '}' = false := by decide
  rw [exchangeInner, exchangeInner, Text.takeWhile_append_cons hblank, Text.trimStart,
    Text.dropWhile_append_cons hblank, Modifier.exchangeAll_append_cons rfl, List.append_assoc]
  rfl

/-! ## One character for both polarities -/

def unifyPolarity (c : Char) : Char := if c = '^' then '#' else c

theorem isRenaming_unifyPolarity : IsRenaming unifyPolarity where
  size c := by
    unfold unifyPolarity
    split
    next h => rw [h]; rfl
    · rfl
  opening c := by
    unfold unifyPolarity
    split
    next h => simp [h]
    · rfl
  closing c := by
    unfold unifyPolarity
    split
    next h => simp [h]
    · rfl
  isBreak c := by
    unfold unifyPolarity
    split
    next h => rw [h]; rfl
    · rfl

theorem map_unifyPolarity_exchangeAll (t : Text) :
    (Modifier.exchangeAll t).map unifyPolarity = t.map unifyPolarity := by
  induction t with
  | nil => rfl
  | cons c t ih =>
    rw [Modifier.exchangeAll]
    cases hc : Modifier.ofChar? c with
    | none => rfl
    | some m =>
      have hdual : unifyPolarity m.dual.toChar = unifyPolarity c := by
        rw [← Modifier.toChar_of_ofChar? hc]
        cases m <;> decide
      rw [List.map_cons, List.map_cons, ih, hdual]

theorem map_unifyPolarity_exchangeInner (inner : Text) :
    (exchangeInner inner).map unifyPolarity = inner.map unifyPolarity := by
  rw [exchangeInner, List.map_append, map_unifyPolarity_exchangeAll, ← List.map_append,
    Text.trimStart, List.takeWhile_append_dropWhile]

theorem map_unifyPolarity_exchangeText (key t : Text) :
    (exchangeText key t).map unifyPolarity = t.map unifyPolarity := by
  unfold exchangeText
  split
  · rw [List.map_append, map_unifyPolarity_exchangeInner, ← List.map_append, List.take_append_drop]
  · rfl

theorem kindOf_exchangeText (key t : Text) : kindOf (exchangeText key t) = kindOf t := by
  rw [← isRenaming_unifyPolarity.kindOf_map, map_unifyPolarity_exchangeText,
    isRenaming_unifyPolarity.kindOf_map]

/-! ## Modifiers and keys -/

/-- The closing braces are found where they were. -/
theorem stripSuffix?_exchangeInner (inner : Text) :
    Text.stripSuffix? ['}', '}'] (exchangeInner inner) =
      (Text.stripSuffix? ['}', '}'] inner).map exchangeInner := by
  cases h : Text.stripSuffix? ['}', '}'] inner with
  | some front =>
    obtain rfl := Text.stripSuffix?_eq_some_iff.1 h
    rw [exchangeInner_append_cons, Text.stripSuffix?_append]
    rfl
  | none =>
    rw [Option.map_none, Option.eq_none_iff_forall_ne_some]
    intro front hfront
    have hmap := congrArg (List.map unifyPolarity) (Text.stripSuffix?_eq_some_iff.1 hfront)
    rw [map_unifyPolarity_exchangeInner, List.map_append] at hmap
    obtain ⟨before, braces, rfl, -, hbraces⟩ := List.map_eq_append_iff.1 hmap
    have hbrace : unifyPolarity '}' = '}' := rfl
    have hsame : braces = ['}', '}'] := by
      simpa [List.map_eq_cons_iff, hbrace, isRenaming_unifyPolarity.closing] using hbraces
    rw [hsame, Text.stripSuffix?_append] at h
    cases h

theorem stripBraces_two (rest : Text) :
    stripBraces 2 ('{' :: '{' :: rest) = (Text.stripSuffix? ['}', '}'] rest).getD rest := by
  have hprefix : Text.stripPrefix? (List.replicate 2 '{') ('{' :: '{' :: rest) = some rest := rfl
  have hbraces : List.replicate 2 '}' = ['}', '}'] := rfl
  rw [stripBraces, hprefix, Option.getD_some, hbraces]
  cases Text.stripSuffix? ['}', '}'] rest <;> rfl

theorem partsOf_exchangeText (key t : Text) :
    partsOf (exchangeText key t) =
      if IsExchanged key t then ((partsOf t).1.map Modifier.dual, (partsOf t).2) else partsOf t := by
  by_cases h : IsExchanged key t
  · have hkind := kindOf_exchangeText key t
    rw [h.1] at hkind
    obtain ⟨rest, rfl⟩ : ['{', '{'] <+: t := by
      rw [← Scan.opensTag_iff_begins, ← Bool.not_eq_false]
      intro hopen
      have hliteral := h.1
      rw [kindOf_eq, hopen] at hliteral
      cases hliteral
    have htext : exchangeText key (['{', '{'] ++ rest) = '{' :: '{' :: exchangeInner rest :=
      if_pos h
    rw [if_pos h, partsOf, hkind, htext, partsOf, h.1]
    dsimp only [List.cons_append, List.nil_append]
    rw [stripBraces_two, stripBraces_two, stripSuffix?_exchangeInner, Option.getD_map,
      partsOfInner_exchangeInner]
  · rw [if_neg h, exchangeText, if_neg h]

/-! ## Tokens -/

def exchange (key : Text) (t : Token) : Token :=
  ⟨{ t.fragment with text := exchangeText key t.text }⟩

section Exchange

variable (key : Text) (t : Token)

@[simp] theorem text_exchange : (t.exchange key).text = exchangeText key t.text := rfl

@[simp] theorem place_exchange : (t.exchange key).place = t.place := rfl

@[simp] theorem line_exchange : (t.exchange key).line = t.line := rfl

@[simp] theorem kind_exchange : (t.exchange key).kind = t.kind := kindOf_exchangeText key t.text

@[simp] theorem isLiteral_exchange : (t.exchange key).isLiteral = t.isLiteral := by
  rw [isLiteral, isLiteral, kind_exchange]

@[simp] theorem key_exchange : (t.exchange key).key = t.key := by
  rw [Token.key, parts, text_exchange, partsOf_exchangeText]
  split <;> rfl

theorem modifiers_exchange : (t.exchange key).modifiers =
    if IsExchanged key t.text then t.modifiers.map Modifier.dual else t.modifiers := by
  rw [modifiers, parts, text_exchange, partsOf_exchangeText]
  split <;> rfl

theorem has_exchange (m : Modifier) : (t.exchange key).has m =
    if IsExchanged key t.text then t.has m.dual else t.has m := by
  rw [has, modifiers_exchange]
  split
  · exact Modifier.contains_map_dual t.modifiers m
  · rfl

theorem has_exchange_of_dual_eq {m : Modifier} (hm : m.dual = m) :
    (t.exchange key).has m = t.has m := by
  rw [has_exchange, hm, ite_self]

@[simp] theorem isComment_exchange : (t.exchange key).isComment = t.isComment :=
  has_exchange_of_dual_eq key t rfl

@[simp] theorem opensSection_exchange : (t.exchange key).opensSection = t.opensSection := by
  rw [opensSection, opensSection, has_exchange, has_exchange]
  split
  · exact Bool.or_comm _ _
  · rfl

@[simp] theorem standsAlone_exchange : (t.exchange key).standsAlone = t.standsAlone := by
  rw [standsAlone, standsAlone, modifiers_exchange]
  split
  · rw [List.any_map]
    exact congrArg _ (funext Modifier.standsAlone_dual)
  · rfl

@[simp] theorem closesSection_exchange : (t.exchange key).closesSection = t.closesSection := by
  rw [closesSection, closesSection, isLiteral_exchange, isComment_exchange,
    has_exchange_of_dual_eq key t rfl]

@[simp] theorem depthChange_exchange : (t.exchange key).depthChange = t.depthChange := by
  rw [depthChange, depthChange, isLiteral_exchange, isComment_exchange, opensSection_exchange,
    has_exchange_of_dual_eq key t rfl]

theorem exchange_of_isLiteral (h : t.isLiteral = true) : t.exchange key = t := by
  have hnot : ¬ IsExchanged key t.text := by
    rintro ⟨hkind, -, -⟩
    have hliteral : kindOf t.text = .literal := of_decide_eq_true h
    rw [hliteral] at hkind
    cases hkind
  rw [exchange, exchangeText, if_neg hnot]
  rfl

theorem exchangeText_eq_break_iff : exchangeText key t.text = ['\n'] ↔ t.text = ['\n'] := by
  have hbreak {u : Token} (h : u.text = ['\n']) : u.isLiteral = true := by
    rw [isLiteral, kind, h]
    rfl
  constructor
  · intro h
    have hliteral : (t.exchange key).isLiteral = true := hbreak h
    rw [isLiteral_exchange] at hliteral
    rw [← h, ← text_exchange, exchange_of_isLiteral key t hliteral]
  · intro h
    rw [← text_exchange, exchange_of_isLiteral key t (hbreak h), h]

/-- The lexer cannot tell an exchanged token from the token. -/
theorem rename_exchange :
    (t.exchange key).rename unifyPolarity = t.rename unifyPolarity := by
  rw [rename, rename, Fragment.rename, Fragment.rename]
  exact congrArg (fun u => Token.mk ⟨u, t.fragment.span⟩)
    (map_unifyPolarity_exchangeText key t.text)

end Exchange

end Token

/-! ## Sources -/

def Piece.exchange (key : Text) : Piece → Text
  | run t => t
  | tag t => Token.exchangeText key t

namespace Source

/-- The source from its beginning, with `#` and `^` exchanged in the tags with a key: in those that
the lexer cuts out, and in those that are left if it stops before the end. -/
def exchange (limits : Limits) (key : Text) (s : Source) : Source :=
  let lexing := Token.lex limits s.rewind
  let left := Scan.ofText lexing.source.after
  { s with
    before := []
    after := lexing.tokens.flatMap (fun t => (t.exchange key).text) ++
      (left.pieces.flatMap (Piece.exchange key) ++ left.unclosed.getD []) }

variable (limits : Limits) (key : Text) (s : Source)

/-- Both polarities are written in the same way in both sources. -/
theorem rename_rewind_exchange :
    (s.exchange limits key).rewind.rename Token.unifyPolarity =
      s.rewind.rename Token.unifyPolarity := by
  obtain ⟨-, hread, -⟩ := Token.lexWithin_cuts limits limits.maxLoops s.rewind
  have htext := Token.text_source_lexWithin limits limits.maxLoops s.rewind
  rw [← Token.lex] at hread htext
  have hleft := Scan.read_append_unclosed (Token.lex limits s.rewind).source.after
  have hpiece (p : Piece) :
      (p.exchange key).map Token.unifyPolarity = p.text.map Token.unifyPolarity := by
    cases p with
    | run t => rfl
    | tag t => exact Token.map_unifyPolarity_exchangeText key t
  have hsame : (s.exchange limits key).text.map Token.unifyPolarity =
      s.text.map Token.unifyPolarity := by
    rw [text_rewind, text, hread, ← hleft, Scan.read] at htext
    rw [← htext]
    simp only [exchange, text, rewind, List.nil_append, List.map_append, List.map_flatMap, hpiece,
      Token.text_exchange, Token.map_unifyPolarity_exchangeText]
  exact congrArg (fun t => Source.mk s.name [] t) hsame

end Source

theorem Token.lex_exchange (limits : Limits) (key : Text) (s : Source) :
    (lex limits (s.exchange limits key).rewind).tokens =
        (lex limits s.rewind).tokens.map (Token.exchange key) ∧
      (lex limits (s.exchange limits key).rewind).failure = (lex limits s.rewind).failure := by
  have hrename : (lex limits (s.exchange limits key).rewind).rename unifyPolarity =
      (lex limits s.rewind).rename unifyPolarity := by
    rw [lex, lex, ← isRenaming_unifyPolarity.lexWithin_rename,
      ← isRenaming_unifyPolarity.lexWithin_rename, s.rename_rewind_exchange]
  have hfailure := congrArg Lexing.failure hrename
  have htokens := congrArg Lexing.tokens hrename
  refine ⟨?_, hfailure⟩
  obtain ⟨-, hread, -⟩ := lexWithin_cuts limits limits.maxLoops (s.exchange limits key).rewind
  have htext := text_source_lexWithin limits limits.maxLoops (s.exchange limits key).rewind
  rw [← lex] at hread htext
  rw [Source.text, hread] at htext
  have hexchange : ((lex limits s.rewind).tokens.map (Token.exchange key)).map
      (rename unifyPolarity) = (lex limits s.rewind).tokens.map (rename unifyPolarity) := by
    rw [List.map_map]
    exact List.map_congr_left fun t _ => rename_exchange key t
  have hcut : ∃ rest, (lex limits (s.exchange limits key).rewind).tokens.flatMap Token.text ++
      (lex limits (s.exchange limits key).rewind).source.after =
        ((lex limits s.rewind).tokens.map (Token.exchange key)).flatMap Token.text ++ rest := by
    rw [List.flatMap_map]
    exact ⟨_, htext⟩
  obtain ⟨rest, hcut⟩ := hcut
  exact eq_of_rename (htokens.trans hexchange.symm) hcut

end Mustache
