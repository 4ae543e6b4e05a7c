import Mustache.Proofs.Lexing.Cutting
import Mustache.Proofs.Rendering.Recut
import Mustache.Proofs.Text.Trimming

namespace Mustache

open Outline (isBreak)

namespace Token

theorem modifiers_congr {t u : Token} (h : t.text = u.text) : t.modifiers = u.modifiers := by
  rw [modifiers, modifiers, parts, parts, h]

theorem standsAlone_congr {t u : Token} (h : t.text = u.text) : t.standsAlone = u.standsAlone := by
  rw [standsAlone, standsAlone, modifiers_congr h]

theorem isLiteral_congr {t u : Token} (h : t.text = u.text) : t.isLiteral = u.isLiteral := by
  rw [isLiteral_eq, isLiteral_eq, h]

theorem closesSection_congr {t u : Token} (h : t.text = u.text) :
    t.closesSection = u.closesSection := by
  rw [closesSection, closesSection, isComment, isComment, has, has, has, has, isLiteral_congr h,
    modifiers_congr h]

theorem standsAlone_of_closesSection {t : Token} (h : t.closesSection = true) :
    t.standsAlone = true := by
  have hcloser : .closer ∈ t.modifiers := List.contains_iff_mem.1 (Bool.and_eq_true_iff.1 h).2
  exact List.any_eq_true.2 ⟨.closer, hcloser, rfl⟩

theorem line_behind_append (before : Text) {t : Text} (hne : t ≠ []) (u : Text) :
    (behind before (t ++ u)).line = (behind before t).line := by
  obtain ⟨c, t, rfl⟩ := List.exists_cons_of_ne_nil hne
  rfl

/-- Two bytes tell whether a tag begins. -/
theorem opensTag_append_of_two_le {t : Text} (h : 2 ≤ t.byteCount) (u : Text) :
    opensTag (t ++ u) = opensTag t := by
  match t with
  | [] => exact absurd h (by decide)
  | [c] =>
    have hc : c ≠ '{' := by
      rintro rfl
      exact absurd h (by decide)
    have hnot (v : Text) : opensTag (c :: v) = false := by
      unfold opensTag
      split
      next heq => exact absurd (List.cons.inj heq).1 hc
      next => rfl
    rw [List.singleton_append, hnot, hnot]
  | c :: d :: t =>
    have hlength : 2 ≤ (c :: d :: t).length := Nat.le_add_left 2 t.length
    exact opensTag_append hlength u

end Token

/-! ## Trimming of cut runs -/

namespace Placed

def between (before after : Option Token) : List Token → List Placed
  | [] => []
  | t :: ts => ⟨before, t, ts.head?.or after⟩ :: between (some t) after ts

theorem map_token_between (before after : Option Token) (ts : List Token) :
    (between before after ts).map token = ts := by
  induction ts generalizing before with
  | nil => rfl
  | cons t ts ih => rw [between, List.map_cons, ih]

theorem ofTokens_append (before : Option Token) (front rest : List Token) :
    ofTokens before (front ++ rest) =
      between before rest.head? front ++ ofTokens (front.getLast?.or before) rest := by
  induction front generalizing before with
  | nil => rfl
  | cons t front ih =>
    have hlast : front.getLast?.or (some t) = (t :: front).getLast?.or before := by
      rw [List.getLast?_cons]
      cases front.getLast? <;> rfl
    rw [List.cons_append, ofTokens, ih, between, List.cons_append, List.head?_append, hlast]

theorem next_ofTokens (before : Option Token) (ts : List Token) :
    next none (ofTokens before ts) = ts.head? := by
  cases ts <;> rfl

def startTrimmed (p : Placed) : Text :=
  if p.trimsStart then (Text.stripPrefix? ['\n'] p.token.text).getD p.token.text else p.token.text

/-- A literal keeps its end if no tag that stands alone is behind it, or if no space is at its
end. -/
theorem trimmed_eq_startTrimmed {p : Placed}
    (h : ∀ t ∈ p.after, t.standsAlone = true → p.startTrimmed.getLast? ≠ some ' ') :
    p.trimmed = p.startTrimmed := by
  change (if p.trimsEnd then p.startTrimmed.dropEndWhile (· = ' ') else p.startTrimmed) = _
  split
  next hend =>
    unfold trimsEnd at hend
    cases hafter : p.after with
    | none => simp [hafter] at hend
    | some t =>
      rw [hafter] at hend
      have hlast := h t hafter (Bool.and_eq_true_iff.1 hend).1
      rw [Text.dropEndWhile_eq_self_iff]
      intro c hc
      exact decide_eq_false fun hspace => hlast (hspace ▸ hc)
  next => rfl

theorem startTrimmed_eq_text {p : Placed} (h : ∀ t ∈ p.before, t.standsAlone = false) :
    p.startTrimmed = p.token.text := by
  have hstart : p.trimsStart = false := by
    unfold trimsStart
    cases hbefore : p.before with
    | none => rfl
    | some t => simp [h t hbefore]
  rw [startTrimmed, hstart, if_neg Bool.false_ne_true]

/-- The parts of a run behind its first are written as they are. -/
theorem flatMap_trimmed_between {before : Token} {next : Option Token} {ts : List Token}
    (hbefore : before.isLiteral = true) (hts : ∀ t ∈ ts, t.isLiteral = true)
    (hend : ∀ t ∈ next, t.standsAlone = true → (ts.flatMap Token.text).getLast? ≠ some ' ') :
    (between (some before) next ts).flatMap trimmed = ts.flatMap Token.text := by
  induction ts generalizing before with
  | nil => rfl
  | cons t ts ih =>
    have hstart : startTrimmed ⟨some before, t, ts.head?.or next⟩ = t.text := by
      apply startTrimmed_eq_text
      rintro u ⟨⟩
      exact Token.standsAlone_of_isLiteral hbefore
    have hts' : ∀ u ∈ ts, u.isLiteral = true := fun u hu => hts u (List.mem_cons_of_mem t hu)
    rw [List.flatMap_cons] at hend ⊢
    -- Only the last part stands in front of something else than plain text.
    have htrimmed : trimmed ⟨some before, t, ts.head?.or next⟩ = t.text := by
      rw [← hstart]
      apply trimmed_eq_startTrimmed
      rw [hstart]
      cases ts with
      | nil => simpa using hend
      | cons u ts =>
        rintro v ⟨⟩ halone
        have hliteral := Token.standsAlone_of_isLiteral (hts' u List.mem_cons_self)
        exact absurd (halone.symm.trans hliteral) (by decide)
    have hend' : ∀ u ∈ next, u.standsAlone = true →
        (ts.flatMap Token.text).getLast? ≠ some ' ' := by
      intro u hu halone hlast
      apply hend u hu halone
      rw [List.getLast?_append, hlast, Option.some_or]
    rw [between, List.flatMap_cons, htrimmed, ih (hts t List.mem_cons_self) hts' hend']

theorem startTrimmed_append {before after after' : Option Token} {t whole : Token} {rest : Text}
    (htext : whole.text = t.text ++ rest) (hline : whole.line = t.line)
    (hbytes : 2 ≤ t.text.byteCount) :
    startTrimmed ⟨before, whole, after⟩ = startTrimmed ⟨before, t, after'⟩ ++ rest := by
  obtain ⟨c, text, ht⟩ : ∃ c text, t.text = c :: text := by
    apply List.exists_cons_of_ne_nil
    intro hnil
    rw [hnil] at hbytes
    exact absurd hbytes (by decide)
  have hstart : trimsStart ⟨before, whole, after⟩ = trimsStart ⟨before, t, after'⟩ := by
    unfold trimsStart
    cases before with
    | none => rfl
    | some u =>
      dsimp only
      rw [hline, htext, ht, List.cons_append, List.head?_cons, List.head?_cons]
      by_cases hc : c = '\n'
      · -- Two bytes are more than a line break.
        subst hc
        have hmore : text ≠ [] := by
          rintro rfl
          rw [ht] at hbytes
          exact absurd hbytes (by decide)
        have hlength : 0 < text.length := List.length_pos_iff.2 hmore
        simp [hlength, Nat.add_pos_left hlength]
      · simp [hc]
  rw [startTrimmed, startTrimmed, hstart, htext]
  dsimp only
  split
  · rw [ht, List.cons_append]
    simp only [Text.stripPrefix?]
    by_cases hc : '\n' = c
    · rw [if_pos hc, if_pos hc]
      rfl
    · rw [if_neg hc, if_neg hc]
      rfl
  · rfl

/-- A run is trimmed like its first part at its start, and like its last part at its end. -/
theorem trimmed_eq_flatMap_between {before next : Option Token} {whole t : Token} {ts : List Token}
    (ht : t.isLiteral = true) (hts : ∀ u ∈ ts, u.isLiteral = true) (hbytes : 2 ≤ t.text.byteCount)
    (hrest : ts.flatMap Token.text ≠ []) (htext : whole.text = t.text ++ ts.flatMap Token.text)
    (hline : whole.line = t.line)
    (hspace : ∀ u ∈ next, u.standsAlone = true → whole.text.getLast? ≠ some ' ') :
    (between before next (t :: ts)).flatMap trimmed = trimmed ⟨before, whole, next⟩ := by
  have hend (front : Text) :
      (front ++ ts.flatMap Token.text).getLast? = (ts.flatMap Token.text).getLast? := by
    rw [List.getLast?_append, List.getLast?_eq_some_getLast hrest, Option.some_or]
  have hlast : (ts.flatMap Token.text).getLast? = whole.text.getLast? := by rw [htext, hend]
  have hwhole : startTrimmed ⟨before, whole, next⟩ =
      startTrimmed ⟨before, t, ts.head?.or next⟩ ++ ts.flatMap Token.text :=
    startTrimmed_append htext hline hbytes
  have hstart : trimmed ⟨before, t, ts.head?.or next⟩ =
      startTrimmed ⟨before, t, ts.head?.or next⟩ := by
    apply trimmed_eq_startTrimmed
    obtain ⟨u, ts, rfl⟩ : ∃ u us, ts = u :: us := by
      apply List.exists_cons_of_ne_nil
      rintro rfl
      exact hrest rfl
    rintro v ⟨⟩ halone
    have hplain := Token.standsAlone_of_isLiteral (hts u List.mem_cons_self)
    exact absurd (halone.symm.trans hplain) (by decide)
  rw [between, List.flatMap_cons, hstart, flatMap_trimmed_between ht hts (by rwa [hlast]), ← hwhole]
  apply (trimmed_eq_startTrimmed _).symm
  intro u hu halone
  rw [hwhole, hend, hlast]
  exact hspace u hu halone

theorem getLast?_flatMap_of_isBreak {before next : Option Token} {ts : List Token} {l : Placed}
    (hl : (between before next ts).getLast? = some l) (hbare : isBreak l = true) :
    (ts.flatMap Token.text).getLast? = some '\n' := by
  have htoken : ts.getLast? = some l.token := by
    rw [← map_token_between before next ts, List.getLast?_map, hl, Option.map_some]
  have hbare' : l.token.text = ['\n'] := of_decide_eq_true hbare
  obtain ⟨front, rfl⟩ := List.getLast?_eq_some_iff.1 htoken
  simp [List.flatMap_append, hbare']

/-- A run may be cut behind two bytes or more, unless a tag that stands alone takes spaces from its
end or the end of a section a line break. -/
theorem cuts_between {before next : Option Token} {whole t : Token} {ts : List Token}
    (ht : t.isLiteral = true) (hts : ∀ u ∈ ts, u.isLiteral = true) (hbytes : 2 ≤ t.text.byteCount)
    (hrest : ts.flatMap Token.text ≠ []) (htext : whole.text = t.text ++ ts.flatMap Token.text)
    (hline : whole.line = t.line)
    (hspace : ∀ u ∈ next, u.standsAlone = true → whole.text.getLast? ≠ some ' ')
    (hbreak : next.any Token.closesSection = true → whole.text.getLast? ≠ some '\n') :
    Cuts next (between before next (t :: ts)) ⟨before, whole, next⟩ := by
  have hall : ∀ u ∈ t :: ts, u.isLiteral = true := List.forall_mem_cons.2 ⟨ht, hts⟩
  have hfirst : t.text ≠ ['\n'] := by
    intro hbare
    rw [hbare] at hbytes
    exact absurd hbytes (by decide)
  constructor
  case ne_nil => exact List.cons_ne_nil _ _
  case literals =>
    intro l hl
    apply hall
    rw [← map_token_between before next (t :: ts)]
    exact List.mem_map_of_mem hl
  case whole =>
    rw [Token.isLiteral_eq, htext, Token.opensTag_append_of_two_le hbytes, ← Token.isLiteral_eq]
    exact ht
  case trimmed => exact trimmed_eq_flatMap_between ht hts hbytes hrest htext hline hspace
  case single =>
    -- Two parts are more than the one byte of a line break.
    intro hbare
    have hshort : ['\n'] = t.text ++ ts.flatMap Token.text := by
      rw [← htext]
      exact (of_decide_eq_true hbare).symm
    have hone : t.text.byteCount + Text.byteCount (ts.flatMap Token.text) = 1 := by
      rw [← Text.byteCount_append, ← hshort]
      rfl
    omega
  case first =>
    rintro l ⟨⟩ hbare
    exact absurd (of_decide_eq_true hbare) hfirst
  case last =>
    intro hcloses l hl hbare
    have hends := getLast?_flatMap_of_isBreak hl hbare
    rw [List.flatMap_cons, ← htext] at hends
    exact absurd hends (hbreak hcloses)

theorem cuts_self {q : Placed} (h : q.token.isLiteral = true) (next : Option Token) :
    Cuts next [q] q := by
  constructor
  case ne_nil => exact List.cons_ne_nil q []
  case literals => simpa using h
  case whole => exact h
  case trimmed => simp
  case single => exact fun hbare => ⟨q, rfl, hbare⟩
  case first =>
    rintro l ⟨⟩ hbare
    exact hbare
  case last =>
    rintro - l ⟨⟩ hbare
    exact hbare

end Placed

/-! ## Cuts that cannot be seen -/

/-- Whether it cannot be seen where a window cuts runs: a run in front of a tag that may stand alone
is not cut, or it does not end in a space, nor in a line break if the tag closes a section. -/
def Piece.HidesCuts (window : Nat) (ps : List Piece) : Prop :=
  ∀ r u, [.run r, .tag u] <:+: ps → (Token.behind [] u).standsAlone = true →
    Text.byteCount r < window ∨
      r.getLast? ≠ some ' ' ∧
        ((Token.behind [] u).closesSection = true → r.getLast? ≠ some '\n')

theorem Piece.HidesCuts.of_cons {window : Nat} {p : Piece} {ps : List Piece}
    (h : HidesCuts window (p :: ps)) : HidesCuts window ps := by
  intro r u hadjacent
  exact h r u (hadjacent.trans (List.suffix_cons p ps).isInfix)

theorem Piece.HidesCuts.mono {window window' : Nat} {ps : List Piece} (h : HidesCuts window ps)
    (hle : window ≤ window') : HidesCuts window' ps := by
  intro r u hadjacent halone
  exact (h r u hadjacent halone).imp_left fun hshort => Nat.lt_of_lt_of_le hshort hle

namespace Token.Successive

variable {window : Nat} {before : Text} {ts : List Token} {ps : List Piece}

theorem head?_eq (h : Successive window before ts) (hmerge : Piece.merge (ts.map piece) = ps)
    (htag : ∀ r, ps.head? ≠ some (.run r)) :
    ts.head? = (Piece.tokens before ps).head? ∧ ∀ t ∈ ts.head?, t.isLiteral = false := by
  cases ps with
  | nil =>
    rw [List.map_eq_nil_iff.1 (Piece.eq_nil_of_merge hmerge)]
    exact ⟨rfl, nofun⟩
  | cons p ps =>
    cases p with
    | run r => exact absurd rfl (htag r)
    | tag u =>
      obtain ⟨t, rest, rfl, ht, rfl, -⟩ := Piece.of_merge_eq_tag hmerge
      refine ⟨congrArg some h.1, ?_⟩
      rintro v ⟨⟩
      exact ht

theorem cuts_front {front rest : List Token} {prev next : Option Token} (hw : 3 ≤ window)
    (h : Successive window before (front ++ rest)) (hne : front ≠ [])
    (hliteral : ∀ t ∈ front, t.isLiteral = true)
    (hhides : ∀ u ∈ next, u.standsAlone = true → Text.byteCount (front.flatMap text) < window ∨
      (front.flatMap text).getLast? ≠ some ' ' ∧
        (u.closesSection = true → (front.flatMap text).getLast? ≠ some '\n')) :
    Placed.Cuts next (Placed.between prev next front)
      ⟨prev, behind before (front.flatMap text), next⟩ := by
  match front, hne with
  | [t], _ =>
    have hwhole : [t].flatMap text = t.text := by simp
    rw [hwhole, ← h.1]
    exact Placed.cuts_self (hliteral t List.mem_cons_self) next
  | t :: v :: front, _ =>
    have hv : v.isLiteral = true := hliteral v (by simp)
    -- The first part of a run that is cut fills the window, so that the run does not fit into it.
    have hfull : window ≤ t.text.byteCount + 1 := h.2.2.1 (hliteral t List.mem_cons_self) v rfl hv
    have hmore : v.text ≠ [] := h.2.2.2.2.1
    have hvbytes : v.text.byteCount ≠ 0 := mt Text.byteCount_eq_zero_iff.1 hmore
    have hlong : ¬ Text.byteCount ((t :: v :: front).flatMap text) < window := by
      simp only [List.flatMap_cons, Text.byteCount_append]
      omega
    apply Placed.cuts_between (hliteral t List.mem_cons_self)
      (fun u hu => hliteral u (List.mem_cons_of_mem t hu))
    · omega
    · rw [List.flatMap_cons]
      exact List.append_ne_nil_of_left_ne_nil hmore _
    · rw [text_behind, List.flatMap_cons]
    · rw [List.flatMap_cons, line_behind_append before h.2.1, ← h.1]
    · intro u hu halone
      rw [text_behind]
      exact ((hhides u hu halone).resolve_left hlong).1
    · intro hcloses
      rw [text_behind]
      cases hnext : next with
      | none => simp [hnext] at hcloses
      | some u =>
        rw [hnext, Option.any_some] at hcloses
        exact ((hhides u hnext (standsAlone_of_closesSection hcloses)).resolve_left hlong).2 hcloses

end Token.Successive

theorem Piece.eq_tag_of_mem_head?_tokens {before : Text} {ps : List Piece}
    (htag : ∀ r, ps.head? ≠ some (.run r)) {u : Token} (hu : u ∈ (Piece.tokens before ps).head?) :
    ∃ v qs, ps = .tag v :: qs ∧ u.text = v := by
  cases ps with
  | nil => cases hu
  | cons p ps =>
    cases p with
    | run r => exact absurd rfl (htag r)
    | tag v =>
      cases hu
      exact ⟨v, ps, rfl, Token.text_behind before v⟩

/-- The tokens into which a window cuts a text do what the pieces of the text do. -/
theorem Recut.of_successive {window : Nat} {before : Text} {ts : List Token} {ps : List Piece}
    (hw : 3 ≤ window) (h : Token.Successive window before ts)
    (hmerge : Piece.merge (ts.map Token.piece) = ps) (hhides : Piece.HidesCuts window ps)
    {prev prev' : Option Token} (hprev : prev = prev' ∨ ∀ r, ps.head? ≠ some (.run r)) :
    Recut none (Placed.ofTokens prev ts) (Placed.ofTokens prev' (Piece.tokens before ps)) := by
  induction ps generalizing before ts prev prev' with
  | nil =>
    rw [List.map_eq_nil_iff.1 (Piece.eq_nil_of_merge hmerge)]
    exact .nil
  | cons p ps ih =>
    cases p with
    | tag u =>
      obtain ⟨t, rest, rfl, ht, rfl, hrest⟩ := Piece.of_merge_eq_tag hmerge
      have htoken : Token.behind before t.text = t := h.1.symm
      change Recut none (⟨prev, t, rest.head?⟩ :: Placed.ofTokens (some t) rest)
        (⟨prev', Token.behind before t.text, _⟩ ::
          Placed.ofTokens (some (Token.behind before t.text)) (Piece.tokens (before ++ t.text) ps))
      rw [htoken]
      exact .tag rfl ht (ih h.2.2.2 hrest hhides.of_cons (Or.inl rfl))
    | run r =>
      -- Runs do not follow each other, so that what is in front of a run is a tag in both lists.
      obtain rfl : prev = prev' := hprev.resolve_right fun hnot => hnot r rfl
      have htag := Piece.head?_of_merge_eq_run hmerge
      obtain ⟨front, rest, rfl, hne, hliteral, rfl, hrest⟩ := Piece.of_merge_eq_run hmerge
      have hbehind : Token.Successive window (before ++ front.flatMap Token.text) rest := h.append
      obtain ⟨hnext, hnext'⟩ := hbehind.head?_eq hrest htag
      have hwhole : Placed.ofTokens prev
          (Piece.tokens before (.run (front.flatMap Token.text) :: ps)) =
            ⟨prev, Token.behind before (front.flatMap Token.text), rest.head?⟩ ::
              Placed.ofTokens (some (Token.behind before (front.flatMap Token.text)))
                (Piece.tokens (before ++ front.flatMap Token.text) ps) := by
        rw [hnext]
        rfl
      rw [Placed.ofTokens_append, hwhole]
      apply Recut.run
      · rw [Placed.next_ofTokens, ← hnext]
        apply h.cuts_front hw hne hliteral
        intro u hu halone
        rw [hnext] at hu
        obtain ⟨v, qs, rfl, htext⟩ := Piece.eq_tag_of_mem_head?_tokens htag hu
        have htext' : u.text = (Token.behind [] v).text := htext.trans (Token.text_behind [] v).symm
        rw [Token.standsAlone_congr htext'] at halone
        rw [Token.closesSection_congr htext']
        exact hhides _ v ⟨[], qs, rfl⟩ halone
      · rw [Placed.next_ofTokens, ← hnext]
        exact hnext'
      · exact ih hbehind hrest hhides.of_cons (Or.inr htag)

/-! ## Renderers -/

/-- Whether limits let the lexer look often enough, and far enough for each closed tag of a text. -/
structure Limits.Suffice (limits : Limits) (t : Text) : Prop where
  loops : t.byteCount < limits.maxLoops
  fits : ∀ u ∈ (Scan.ofText t).tags, u.byteCount ≤ limits.window

theorem Scan.byteCount_le_of_infix {t : Text} {ps : List Piece} (h : ps <:+: (ofText t).pieces) :
    Text.byteCount (ps.flatMap Piece.text) ≤ t.byteCount := by
  obtain ⟨before, behind, hpieces⟩ := h
  have hread : (ofText t).read.byteCount ≤ t.byteCount := by
    apply Text.byteCount_le_of_sublist
    exact List.IsPrefix.sublist ⟨_, read_append_unclosed t⟩
  rw [read, ← hpieces, List.flatMap_append, List.flatMap_append, Text.byteCount_append,
    Text.byteCount_append] at hread
  omega

theorem Limits.suffice_of_byteCount_le {limits : Limits} {t : Text}
    (hloops : t.byteCount < limits.maxLoops) (hfit : t.byteCount ≤ limits.window) :
    limits.Suffice t := by
  refine ⟨hloops, fun u hu => ?_⟩
  obtain ⟨before, behind, hsplit⟩ := List.append_of_mem (Scan.mem_tags.1 hu)
  have hpiece : [Piece.tag u] <:+: (Scan.ofText t).pieces :=
    ⟨before, behind, by rw [hsplit, List.append_assoc, List.singleton_append]⟩
  have hle := Scan.byteCount_le_of_infix hpiece
  rw [List.flatMap_singleton] at hle
  exact Nat.le_trans hle hfit

theorem Piece.hidesCuts_of_byteCount_le {window : Nat} {t : Text} (hfit : t.byteCount ≤ window) :
    HidesCuts window (Scan.ofText t).pieces := by
  intro r u hadjacent halone
  left
  have hle := Scan.byteCount_le_of_infix hadjacent
  have hu : Text.byteCount u ≠ 0 := by
    rw [ne_eq, Text.byteCount_eq_zero_iff]
    rintro rfl
    exact absurd halone (by decide)
  have htext : [run r, tag u].flatMap text = r ++ u := by simp [text]
  rw [htext, Text.byteCount_append] at hle
  omega

theorem Template.run_ofTokens_lex {limits : Limits} {s : Source} (h : limits.Suffice s.after)
    (hhides : Piece.HidesCuts limits.window (Scan.ofText s.after).pieces) :
    (ofTokens (Token.lex limits s).tokens).run =
      (ofTokens (Piece.tokens s.before (Scan.ofText s.after).pieces)).run := by
  have hlex := Token.lexWithin_follows limits limits.maxLoops s h.loops h.fits
  have hsuccessive := Token.lexWithin_successive limits limits.maxLoops s
  exact (Recut.of_successive limits.three_le_window hsuccessive hlex.pieces hhides
    (Or.inl rfl)).run_eq

theorem Token.run_lex_eq {limits limits' : Limits} {s : Source} (h : limits.Suffice s.after)
    (h' : limits'.Suffice s.after)
    (hhides : Piece.HidesCuts (min limits.window limits'.window) (Scan.ofText s.after).pieces) :
    (lex limits s).run = (lex limits' s).run ∧ (lex limits s).source = (lex limits' s).source := by
  have hlex := lexWithin_follows limits limits.maxLoops s h.loops h.fits
  have hlex' := lexWithin_follows limits' limits'.maxLoops s h'.loops h'.fits
  have hrun := Template.run_ofTokens_lex h (hhides.mono (Nat.min_le_left _ _))
  have hrun' := Template.run_ofTokens_lex h' (hhides.mono (Nat.min_le_right _ _))
  constructor
  · funext session
    have hfailure : (lex limits s).failure = (lex limits' s).failure :=
      hlex.failure.trans hlex'.failure.symm
    rw [Lexing.run, Lexing.run, hfailure, hrun, hrun']
  · exact hlex.source.trans hlex'.source.symm

/-- Trimming looks at single tokens. It shows where a run was cut only in front of a tag that may
stand alone, if spaces or a line break are cut off there. -/
theorem Renderer.render_withLimits (r : Renderer) (limits : Limits) (name : Text) (source : Source)
    (context : Context) (hsource : r.sources.get? name = some source)
    (h : r.limits.Suffice source.text) (h' : limits.Suffice source.text)
    (hhides : Piece.HidesCuts (min r.limits.window limits.window)
      (Scan.ofText source.text).pieces) :
    { r with limits }.render name context =
      { r.render name context with
        renderer := { (r.render name context).renderer with limits } } := by
  obtain ⟨hrun, hleft⟩ := Token.run_lex_eq (s := source.rewind) h h' hhides
  obtain ⟨sink, sources, limits₀⟩ := r
  cases sink with
  | none => rfl
  | some sink =>
    dsimp only at hsource hrun hleft
    simp only [render, hsource, hrun, hleft]

def Renderer.ofTemplate (template : Text) (limits : Limits) : Renderer :=
  ⟨some .unlimited, [(['t'], .ofText template)], limits⟩

def longLine : Text := "123 456 789.".toList ++ "{{!}}".toList ++ "\n  another ".toList

theorem scan_longLine : Scan.ofText longLine =
    ⟨[.run "123 456 789.".toList, .tag "{{!}}".toList, .run "\n  another ".toList], none⟩ := by
  decide +kernel

theorem render_longLine :
    Limits.Suffice ⟨500, 5⟩ longLine ∧ Limits.Suffice {} longLine ∧
      Piece.HidesCuts 5 (Scan.ofText longLine).pieces ∧
      ((Renderer.ofTemplate longLine {}).render ['t'] []).renderer.sink =
        ((Renderer.ofTemplate longLine ⟨500, 5⟩).render ['t'] []).renderer.sink := by
  have hfirst : Limits.Suffice ⟨500, 5⟩ longLine := ⟨by decide, by decide +kernel⟩
  have hsecond : Limits.Suffice {} longLine := ⟨by decide, by decide +kernel⟩
  have hhides : Piece.HidesCuts 5 (Scan.ofText longLine).pieces := by
    rw [scan_longLine]
    intro r u hadjacent halone
    obtain ⟨rfl, rfl⟩ : r = "123 456 789.".toList ∧ u = "{{!}}".toList := by
      simpa [List.infix_cons_iff, List.cons_prefix_cons] using hadjacent
    exact Or.inr ⟨by decide, fun _ => by decide⟩
  refine ⟨hfirst, hsecond, hhides, ?_⟩
  have h := Renderer.render_withLimits (.ofTemplate longLine ⟨500, 5⟩) {} ['t'] (.ofText longLine)
    [] rfl hfirst hsecond hhides
  exact congrArg (fun rendering => rendering.renderer.sink) h

/-- A comment on a line of its own, behind a line that a window of six bytes cuts at its end. -/
def cutIndentation : Text :=
  ['a', 'b', 'c', 'd', '\n', ' ', ' ', '{', '{', '!', '}', '}', '\n', 'x']

/-- All closed tags fit into both windows, but the smaller one cuts the indentation off, so that
part of it is rendered. -/
theorem render_cutIndentation_ne :
    Limits.Suffice ⟨500, 6⟩ cutIndentation ∧ Limits.Suffice {} cutIndentation ∧
      ((Renderer.ofTemplate cutIndentation ⟨500, 6⟩).render ['t'] []).renderer.sink.map
        Sink.contents = some (Text.encode ['a', 'b', 'c', 'd', '\n', ' ', 'x']) ∧
      ((Renderer.ofTemplate cutIndentation {}).render ['t'] []).renderer.sink.map
        Sink.contents = some (Text.encode ['a', 'b', 'c', 'd', '\n', 'x']) := by
  refine ⟨⟨?_, ?_⟩, ⟨?_, ?_⟩, ?_, ?_⟩
  all_goals decide +kernel

-- A line break at the end of a section is left out where a window makes it a token of its own.
example :
    let template : Text := ['{', '{', '#', 'a', '}', '}'] ++ "123456123456\n".toList ++
      ['{', '{', '/', 'a', '}', '}']
    let context : Context := [.ofValues [(['a'], .bool true)]]
    ((Renderer.ofTemplate template ⟨500, 6⟩).render ['t'] context).renderer.sink.map
        Sink.contents = some (Text.encode "123456123456".toList) ∧
      ((Renderer.ofTemplate template {}).render ['t'] context).renderer.sink.map
        Sink.contents = some (Text.encode "123456123456\n".toList) := by
  decide +kernel

end Mustache
