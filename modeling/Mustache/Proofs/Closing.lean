import Mustache.Proofs.Outline
import Mustache.Proofs.Template
import Mustache.Renderer

namespace Mustache

namespace Template

/-- How many tokens stand in front of the tag that closes a section with the key, of those that
follow a place of the given depth in it. Behind the opening tag the depth is one. -/
def closerIndex? (key : Text) (depth : Int) (tokens : List Token) : Option Nat :=
  (splitAtCloser? key depth (Placed.ofTokens none tokens)).map fun (body, _) => body.length

/-- The neighbours of tokens have no part in the search. -/
theorem map_length_splitAtCloser?_congr {ps qs : List Placed}
    (h : ps.map Placed.token = qs.map Placed.token) (key : Text) (depth : Int) :
    ((splitAtCloser? key depth ps).map fun (body, _) => body.length) =
      (splitAtCloser? key depth qs).map fun (body, _) => body.length := by
  have hasked (p q : Placed) (hpq : p.token = q.token) :
      p.token.depthChange = q.token.depthChange ∧ ∀ key,
        (p.token.closesSection = true ∧ p.token.key = key ↔
          q.token.closesSection = true ∧ q.token.key = key) := by
    rw [hpq]
    exact ⟨rfl, fun key => Iff.rfl⟩
  have hparts := map_splitAtCloser?_congr hasked h key depth
  have hlength := congrArg (Option.map fun parts => parts.1.length) hparts
  simpa [Option.map_map, Function.comp_def] using hlength

theorem closerIndex?_cons (key : Text) (depth : Int) (t : Token) (ts : List Token) :
    closerIndex? key depth (t :: ts) =
      if t.closesSection ∧ depth + t.depthChange = 0 ∧ t.key = key then some 0
      else (closerIndex? key (depth + t.depthChange) ts).map (· + 1) := by
  have hsame : (Placed.ofTokens (some t) ts).map Placed.token =
      (Placed.ofTokens none ts).map Placed.token := by
    rw [Placed.map_token_ofTokens, Placed.map_token_ofTokens]
  rw [closerIndex?, closerIndex?, Placed.ofTokens, splitAtCloser?]
  dsimp only
  split
  · rfl
  · rw [← map_length_splitAtCloser?_congr hsame]
    simp [Option.map_map, Function.comp_def]

theorem of_closerIndex? {key : Text} {depth : Int} {front back : List Token} {t : Token}
    (h : closerIndex? key depth (front ++ t :: back) = some front.length) :
    t.closesSection = true ∧ t.key = key := by
  induction front generalizing depth with
  | nil =>
    rw [List.nil_append, closerIndex?_cons] at h
    split at h
    next hfound => exact ⟨hfound.1, hfound.2.2⟩
    next => simp at h
  | cons s front ih =>
    rw [List.cons_append, closerIndex?_cons] at h
    split at h
    next => simp at h
    next =>
      have hrest : closerIndex? key (depth + s.depthChange) (front ++ t :: back) =
          some front.length := by simpa using h
      exact ih hrest

/-- Tags that move the depth alike, and that close the same sections or none, are not told apart. -/
theorem closerIndex?_congr {t u : Token} (hdepth : t.depthChange = u.depthChange)
    (hcloses : t.closesSection = u.closesSection) (hkey : t.closesSection = true → t.key = u.key)
    (key : Text) (depth : Int) (front back : List Token) :
    closerIndex? key depth (front ++ t :: back) = closerIndex? key depth (front ++ u :: back) := by
  induction front generalizing depth with
  | nil =>
    rw [List.nil_append, List.nil_append, closerIndex?_cons, closerIndex?_cons, hdepth, hcloses]
    cases hc : u.closesSection with
    | false => simp
    | true => rw [hkey (hcloses.trans hc)]
  | cons s front ih =>
    rw [List.cons_append, List.cons_append, closerIndex?_cons, closerIndex?_cons, ih]

end Template

namespace Token

def plainTag (span : Span) : Token := ⟨['{', '{', 'x', '}', '}'], span⟩

def closingTag (c : Char) : Token := ⟨['{', '{', '/', c, '}', '}'], .unknown⟩

theorem isLeaf_plainTag (span : Span) : (plainTag span).isLeaf = true := rfl

theorem closesSection_iff {t : Token} (h : t.isLiteral = false) :
    t.closesSection = true ↔ t.isComment = false ∧ t.has .closer = true := by
  simp [closesSection, h]

theorem depthChange_of_not_isComment {t : Token} (h : t.isLiteral = false)
    (hcomment : t.isComment = false) :
    t.depthChange = (if t.opensSection then 1 else 0) - if t.has .closer then 1 else 0 := by
  simp [depthChange, h, hcomment]

theorem isLiteral_of_kind_tripleTag {t : Token} (h : t.kind = .tripleTag) :
    t.isLiteral = false := by
  simp [isLiteral, h]

end Token

namespace Template

theorem closerIndex?_of_isLeaf {t u : Token} (ht : t.isLeaf = true) (hu : u.isLeaf = true)
    (key : Text) (depth : Int) (front back : List Token) :
    closerIndex? key depth (front ++ t :: back) = closerIndex? key depth (front ++ u :: back) := by
  have hcloses := Outline.closesSection_of_isLeaf ht
  apply closerIndex?_congr
  · rw [Outline.depthChange_of_isLeaf ht, Outline.depthChange_of_isLeaf hu]
  · rw [hcloses, Outline.closesSection_of_isLeaf hu]
  · exact fun h => nomatch hcloses.symm.trans h

theorem exists_closerIndex? {t : Token} (h : t.closesSection = true) :
    ∃ key front, ∀ back, closerIndex? key 1 (front ++ t :: back) = some front.length := by
  have hliteral : t.isLiteral = false := by
    rw [← Bool.not_eq_true]
    intro hliteral
    simp [Token.closesSection, hliteral] at h
  obtain ⟨hcomment, hcloser⟩ := (Token.closesSection_iff hliteral).1 h
  have hdepth := Token.depthChange_of_not_isComment hliteral hcomment
  rw [if_pos hcloser] at hdepth
  cases hopens : t.opensSection with
  | false =>
    have hdown : 1 + t.depthChange = 0 := by
      rw [hdepth, hopens]
      rfl
    refine ⟨t.key, [], fun back => ?_⟩
    rw [List.nil_append, closerIndex?_cons, if_pos ⟨h, hdown, rfl⟩]
    rfl
  | true =>
    -- The tag leaves the depth as it is, so that a tag with another key has to lower it before.
    obtain ⟨other, hother, hlowers⟩ :
        ∃ other : Token, other.key ≠ t.key ∧ other.depthChange = -1 := by
      by_cases hkey : t.key = ['a']
      · exact ⟨.closingTag 'b', by rw [hkey]; decide, by decide⟩
      · exact ⟨.closingTag 'a', fun heq => hkey (heq.symm.trans (by decide)), by decide⟩
    have hzero : 1 + other.depthChange + t.depthChange = 0 := by
      rw [hdepth, hopens, hlowers]
      rfl
    refine ⟨t.key, [other], fun back => ?_⟩
    rw [List.singleton_append, closerIndex?_cons, if_neg (fun hfound => hother hfound.2.2),
      closerIndex?_cons, if_pos ⟨h, hzero, rfl⟩]
    rfl

/-- A tag that opens a section, and closes none, hides the tag that closes the section around it. -/
theorem closerIndex?_of_opensSection {t : Token} (hliteral : t.isLiteral = false)
    (hcomment : t.isComment = false) (hopens : t.opensSection = true)
    (hcloser : t.has .closer = false) :
    closerIndex? ['a'] 1 [t, .closingTag 'a'] = none := by
  have hcloses : t.closesSection = false := by
    rw [← Bool.not_eq_true, Token.closesSection_iff hliteral, hcloser]
    exact fun h => Bool.false_ne_true h.2
  have hdepth : t.depthChange = 1 := by
    rw [Token.depthChange_of_not_isComment hliteral hcomment, hopens, hcloser]
    rfl
  rw [closerIndex?_cons, hcloses, if_neg (fun h => Bool.false_ne_true h.1), hdepth]
  decide

/-- Braces are not asked for. -/
theorem closerIndex?_of_parts {t u : Token} (ht : t.isLiteral = false) (hu : u.isLiteral = false)
    (hparts : u.parts = t.parts) (key : Text) (depth : Int) (front back : List Token) :
    closerIndex? key depth (front ++ t :: back) = closerIndex? key depth (front ++ u :: back) := by
  have hkey : u.key = t.key := congrArg Prod.snd hparts
  have hmodifiers : u.modifiers = t.modifiers := congrArg Prod.fst hparts
  have hhas (m : Modifier) : u.has m = t.has m := by rw [Token.has, Token.has, hmodifiers]
  apply closerIndex?_congr
  · simp [Token.depthChange, Token.opensSection, Token.isComment, ht, hu, hhas]
  · simp [Token.closesSection, Token.isComment, ht, hu, hhas]
  · exact fun _ => hkey.symm

theorem closerIndex?_eq_plainTag_iff {t : Token} (ht : t.isLiteral = false) :
    (∀ span key front back, closerIndex? key 1 (front ++ t :: back) =
        closerIndex? key 1 (front ++ .plainTag span :: back)) ↔
      t.isComment = true ∨ t.opensSection = false ∧ t.has .closer = false := by
  constructor
  · -- A tag of any other kind is told from a tag for a value by what stands around it.
    intro hpasses
    cases hcomment : t.isComment with
    | true => exact Or.inl rfl
    | false =>
      cases hcloser : t.has .closer with
      | true =>
        have hcloses := (Token.closesSection_iff ht).2 ⟨hcomment, hcloser⟩
        obtain ⟨key, front, hfound⟩ := exists_closerIndex? hcloses
        have hplain := (hpasses .unknown key front []).symm.trans (hfound [])
        exact absurd (of_closerIndex? hplain).1 (by decide)
      | false =>
        cases hopens : t.opensSection with
        | true =>
          have hhidden := closerIndex?_of_opensSection ht hcomment hopens hcloser
          have hplain := (hpasses .unknown ['a'] [] [.closingTag 'a']).symm.trans hhidden
          exact absurd hplain (by decide)
        | false => exact Or.inr ⟨rfl, rfl⟩
  · intro hleaf span key front back
    apply closerIndex?_of_isLeaf _ (Token.isLeaf_plainTag span)
    rcases hleaf with hcomment | ⟨hopens, hcloser⟩
    · exact Token.isLeaf_of_isComment hcomment
    · have hopens' := Bool.or_eq_false_iff.1 hopens
      simp [Token.isLeaf, hopens', hcloser]

theorem exists_closerIndex?_iff {t : Token} :
    (∃ key front back, closerIndex? key 1 (front ++ t :: back) = some front.length) ↔
      t.closesSection = true := by
  constructor
  · rintro ⟨key, front, back, hfound⟩
    exact (of_closerIndex? hfound).1
  · intro hcloses
    obtain ⟨key, front, hfound⟩ := exists_closerIndex? hcloses
    exact ⟨key, front, [], hfound []⟩

/-- The search asks for modifiers and the key alone, so that a tag in three braces can close a
section, and hide the tag that would close one, although it is never rendered as part of a section.
-/
theorem closerIndex?_tripleTag (t : Token) (ht : t.kind = .tripleTag) :
    (∀ u : Token, u.kind = .tag → u.parts = t.parts → ∀ key front back,
        closerIndex? key 1 (front ++ t :: back) = closerIndex? key 1 (front ++ u :: back)) ∧
      ((∀ span key front back, closerIndex? key 1 (front ++ t :: back) =
          closerIndex? key 1 (front ++ .plainTag span :: back)) ↔
        t.isComment = true ∨ t.opensSection = false ∧ t.has .closer = false) ∧
      ((∃ key front back, closerIndex? key 1 (front ++ t :: back) = some front.length) ↔
        t.isComment = false ∧ t.has .closer = true) := by
  have hliteral := Token.isLiteral_of_kind_tripleTag ht
  refine ⟨?_, closerIndex?_eq_plainTag_iff hliteral, ?_⟩
  · intro u hu hparts key
    exact closerIndex?_of_parts hliteral (Outline.isLiteral_of_kind_tag hu) hparts key 1
  · rw [exists_closerIndex?_iff, Token.closesSection_iff hliteral]

end Template

namespace Token

/-- A tag in three braces whose key seems to begin with a slash. -/
def tripleCloser : Token := ⟨['{', '{', '{', '/', 'a', '}', '}', '}'], .unknown⟩

end Token

def tripleClosed : Text :=
  ['{', '{', '#', 'a', '}', '}', 'x'] ++ Token.tripleCloser.text

theorem Template.closerIndex?_tripleCloser :
    Token.tripleCloser.kind = .tripleTag ∧ (Token.closingTag 'a').parts = Token.tripleCloser.parts ∧
      (∀ back, closerIndex? ['a'] 1 (Token.tripleCloser :: back) = some 0) ∧
      ¬ ∀ span key front back, closerIndex? key 1 (front ++ Token.tripleCloser :: back) =
        closerIndex? key 1 (front ++ .plainTag span :: back) := by
  have hparts : (Token.closingTag 'a').parts = Token.tripleCloser.parts := by decide
  obtain ⟨hbraces, hpasses, -⟩ := closerIndex?_tripleTag .tripleCloser rfl
  refine ⟨rfl, hparts, fun back => ?_, fun h => absurd (hpasses.1 h) (by decide)⟩
  have hsame := hbraces (.closingTag 'a') rfl hparts ['a'] [] back
  rw [List.nil_append, List.nil_append] at hsame
  rw [hsame, closerIndex?_cons, if_pos (by decide)]

/-- With a tag for a value in its place the section is not closed. -/
theorem render_tripleClosed_ne :
    (render tripleClosed [(['a'], .bool true)]).toOption = some ['x'] ∧
      Template.closerIndex? ['a'] 1
        [⟨['x'], .unknown⟩, .tripleCloser] = some 1 ∧
      Template.closerIndex? ['a'] 1 [⟨['x'], .unknown⟩, .plainTag .unknown] = none := by
  decide +kernel

end Mustache
