import Mathlib.Order.Bounds.Defs
import Mustache.Proofs.Closing
import Mustache.Proofs.Lookup.Root
import Mustache.Proofs.Outline.Evaluation

namespace Mustache

namespace Token

def opensInside (t : Token) : Bool := !t.isLiteral && !t.isComment && t.opensSection

theorem depthChange_eq (t : Token) : t.depthChange =
    (if t.opensInside then 1 else 0) - if t.closesSection then 1 else 0 := by
  unfold depthChange opensInside closesSection
  cases t.isLiteral <;> cases t.isComment <;> simp

end Token

namespace Template

def balance (tokens : List Token) : Int :=
  tokens.countP Token.opensInside - tokens.countP Token.closesSection

@[simp] theorem balance_nil : balance [] = 0 := rfl

@[simp] theorem balance_cons (t : Token) (tokens : List Token) :
    balance (t :: tokens) = t.depthChange + balance tokens := by
  rw [balance, balance, Token.depthChange_eq, List.countP_cons, List.countP_cons]
  split <;> split <;> omega

theorem balance_append (front back : List Token) :
    balance (front ++ back) = balance front + balance back := by
  rw [balance, balance, balance, List.countP_append, List.countP_append]
  omega

/-- Whether the token with a number closes sections with a key, and the depth behind it is zero. -/
def ClosesAt (key : Text) (depth : Int) (tokens : List Token) (j : Nat) : Prop :=
  ∃ t, tokens[j]? = some t ∧ t.closesSection = true ∧ t.key = key ∧
    depth + balance (tokens.take (j + 1)) = 0

/-- Whether the tokens up to the one with a number, this included, close more sections than they
open. -/
def OverclosesAt (tokens : List Token) (i : Nat) : Prop :=
  i < tokens.length ∧
    (tokens.take (i + 1)).countP Token.opensInside <
      (tokens.take (i + 1)).countP Token.closesSection

instance (tokens : List Token) (i : Nat) : Decidable (OverclosesAt tokens i) :=
  inferInstanceAs (Decidable (_ ∧ _))

theorem overclosesAt_iff {tokens : List Token} {i : Nat} :
    OverclosesAt tokens i ↔ i < tokens.length ∧ balance (tokens.take (i + 1)) < 0 := by
  rw [OverclosesAt, balance]
  omega

/-! ## What the search finds -/

theorem closesAt_zero_iff {key : Text} {depth : Int} {t : Token} {tokens : List Token} :
    ClosesAt key depth (t :: tokens) 0 ↔
      t.closesSection = true ∧ depth + t.depthChange = 0 ∧ t.key = key := by
  simp [ClosesAt, and_comm]

theorem closesAt_succ_iff {key : Text} {depth : Int} {t : Token} {tokens : List Token} {j : Nat} :
    ClosesAt key depth (t :: tokens) (j + 1) ↔
      ClosesAt key (depth + t.depthChange) tokens j := by
  simp [ClosesAt, Int.add_assoc]

theorem closerIndex?_eq_some_iff {key : Text} {depth : Int} {tokens : List Token} {j : Nat} :
    closerIndex? key depth tokens = some j ↔ IsLeast {i | ClosesAt key depth tokens i} j := by
  -- The first token moves the depth for those behind it, which are numbered from one.
  induction tokens generalizing depth j with
  | nil =>
    constructor
    · exact nofun
    · rintro ⟨⟨t, ht, -⟩, -⟩
      cases ht
  | cons t tokens ih =>
    rw [closerIndex?_cons]
    split
    next hcloses =>
      have hfirst : ClosesAt key depth (t :: tokens) 0 := closesAt_zero_iff.2 hcloses
      rw [Option.some.injEq]
      constructor
      · rintro rfl
        exact ⟨hfirst, fun i _ => Nat.zero_le i⟩
      · exact fun hleast => (Nat.le_zero.1 (hleast.2 hfirst)).symm
    next hcloses =>
      have hfirst : ¬ ClosesAt key depth (t :: tokens) 0 := mt closesAt_zero_iff.1 hcloses
      cases j with
      | zero =>
        constructor
        · simp
        · exact fun hleast => absurd hleast.1 hfirst
      | succ j =>
        have hmap : (closerIndex? key (depth + t.depthChange) tokens).map (· + 1) = some (j + 1) ↔
            closerIndex? key (depth + t.depthChange) tokens = some j := by
          simp
        rw [hmap, ih]
        constructor
        · rintro ⟨hj, hleast⟩
          refine ⟨closesAt_succ_iff.2 hj, fun i hi => ?_⟩
          cases i with
          | zero => exact absurd hi hfirst
          | succ i => exact Nat.succ_le_succ (hleast (closesAt_succ_iff.1 hi))
        · rintro ⟨hj, hleast⟩
          exact ⟨closesAt_succ_iff.1 hj,
            fun i hi => Nat.le_of_succ_le_succ (hleast (closesAt_succ_iff.2 hi))⟩

/-! ## The first tag with which more sections are closed than opened -/

theorem ClosesAt.overclosesAt {key : Text} {tokens : List Token} {j : Nat}
    (h : ClosesAt key 1 tokens j) : OverclosesAt tokens j := by
  obtain ⟨t, ht, -, -, hdepth⟩ := h
  rw [overclosesAt_iff]
  exact ⟨(List.getElem?_eq_some_iff.1 ht).1, by omega⟩

/-- In front of the first such tag no more sections are closed than opened. -/
theorem balance_take_nonneg {tokens : List Token} {i : Nat} (hi : i ≤ tokens.length)
    (h : ∀ k < i, ¬ OverclosesAt tokens k) : 0 ≤ balance (tokens.take i) := by
  cases i with
  | zero => exact Int.le_refl 0
  | succ k =>
    have hk := h k (Nat.lt_succ_self k)
    rw [overclosesAt_iff, not_and] at hk
    exact Int.not_lt.1 (hk hi)

/-- The sections in front of the first such tag are all closed. -/
theorem of_isLeast_overclosesAt {tokens : List Token} {i : Nat} {t : Token}
    (h : IsLeast {i | OverclosesAt tokens i} i) (ht : tokens[i]? = some t) :
    t.closesSection = true ∧ balance (tokens.take i) = 0 ∧ balance (tokens.take (i + 1)) = -1 := by
  obtain ⟨hlength, hnegative⟩ := overclosesAt_iff.1 h.1
  have hbefore : 0 ≤ balance (tokens.take i) :=
    balance_take_nonneg (Nat.le_of_lt hlength) fun k hk hover => Nat.not_lt.2 (h.2 hover) hk
  have hstep : balance (tokens.take (i + 1)) = balance (tokens.take i) + t.depthChange := by
    rw [List.take_add_one, ht, balance_append]
    simp
  have hchange := Token.depthChange_eq t
  cases hcloses : t.closesSection with
  | false =>
    rw [hcloses] at hchange
    split at hchange <;> simp at hchange <;> omega
  | true =>
    rw [hcloses] at hchange
    refine ⟨rfl, ?_⟩
    split at hchange <;> simp at hchange <;> omega

theorem closesAt_of_isLeast_overclosesAt {tokens : List Token} {i : Nat} {t : Token}
    (h : IsLeast {i | OverclosesAt tokens i} i) (ht : tokens[i]? = some t) :
    ClosesAt t.key 1 tokens i := by
  obtain ⟨hcloses, -, hbalance⟩ := of_isLeast_overclosesAt h ht
  exact ⟨t, ht, hcloses, rfl, by rw [hbalance]; rfl⟩

/-- Where the first such tag has the key it closes the section, and otherwise one behind it or
none. -/
theorem closerIndex?_of_isLeast_overclosesAt {key : Text} {tokens : List Token} {i : Nat}
    {t : Token} (h : IsLeast {i | OverclosesAt tokens i} i) (ht : tokens[i]? = some t) :
    (t.key = key → closerIndex? key 1 tokens = some i) ∧
      (t.key ≠ key → ∀ j, closerIndex? key 1 tokens = some j → i < j) := by
  constructor
  · rintro rfl
    rw [closerIndex?_eq_some_iff]
    exact ⟨closesAt_of_isLeast_overclosesAt h ht, fun j hj => h.2 hj.overclosesAt⟩
  · intro hkey j hj
    rw [closerIndex?_eq_some_iff] at hj
    obtain ⟨u, hu, -, hukey, -⟩ := hj.1
    apply Nat.lt_of_le_of_ne (h.2 hj.1.overclosesAt)
    rintro rfl
    rw [ht, Option.some.injEq] at hu
    exact hkey (hu ▸ hukey)

/-! ## Sections that are rendered or not -/

theorem closerIndex?_map_token (key : Text) (depth : Int) (ps : List Placed) :
    closerIndex? key depth (ps.map Placed.token) =
      (splitAtCloser? key depth ps).map fun (body, _) => body.length :=
  map_length_splitAtCloser?_congr (Placed.map_token_ofTokens none _) key depth

theorem eq_append_of_splitAtCloser? {key : Text} {depth : Int} {ps body rest : List Placed}
    (h : splitAtCloser? key depth ps = some (body, rest)) :
    ∃ closer, ps = body ++ closer :: rest := by
  induction ps generalizing depth body with
  | nil => cases h
  | cons p ps ih =>
    rw [splitAtCloser?] at h
    dsimp only at h
    split at h
    · cases h
      exact ⟨p, rfl⟩
    · obtain ⟨⟨inner, _⟩, hs, he⟩ := Option.map_eq_some_iff.1 h
      cases he
      obtain ⟨closer, rfl⟩ := ih hs
      exact ⟨closer, rfl⟩

end Template

def SectionTag.Skips (tag : SectionTag) (v : Value) : Prop :=
  (tag.direct = true → v.passes = []) ∧ (tag.inverted = true → v.isEmpty = .ok false)

theorem Session.runSection_of_skips {s : Session} {tag : SectionTag} {v : Value}
    (hv : (s.lookup tag.key).1 = some v) (hskips : tag.Skips v) (body : Session → Outcome) :
    s.runSection tag body = ⟨(s.lookup tag.key).2, none⟩ := by
  have hpasses : (if tag.direct = true then v.passes else []) = [] := by
    split
    next hdirect => exact hskips.1 hdirect
    next => rfl
  rw [runSection]
  dsimp only
  rw [hv]
  dsimp only
  rw [hpasses, Outcome.each, Outcome.return_andThen]
  split
  next hinverted => rw [hskips.2 hinverted]
  next => rfl

namespace Template

/-- Sections are matched by counting tags, whatever their keys. So a section whose body is out of
balance may still be closed by a tag further on, and nothing is reported of it where its body is
left out. -/
theorem closerIndex?_opener (p : Placed) (ps : List Placed) (hkind : p.token.kind = .tag)
    (hcomment : p.token.isComment = false) (hinclusion : p.token.has .inclusion = false)
    (hopens : p.token.opensSection = true) :
    let key := p.token.key
    let tokens := ps.map Placed.token
    (∀ j, closerIndex? key 1 tokens = some j ↔ IsLeast {i | ClosesAt key 1 tokens i} j) ∧
    (∀ i t, IsLeast {i | OverclosesAt tokens i} i → tokens[i]? = some t →
      (t.key = key → closerIndex? key 1 tokens = some i) ∧
        (t.key ≠ key → ∀ j, closerIndex? key 1 tokens = some j → i < j)) ∧
    ((∀ i, ¬ OverclosesAt tokens i) → closerIndex? key 1 tokens = none) ∧
    (closerIndex? key 1 tokens = none → ∀ s,
      (ofPlaced (p :: ps)).run s = s.fail (.unmatchedSection key p.token.place)) ∧
    ∀ j s v, closerIndex? key 1 tokens = some j → key ≠ ['i', 'f'] →
      (s.lookup key).1 = some v → p.token.sectionTag.Skips v →
        (ofPlaced (p :: ps)).run s = (ofPlaced (ps.drop (j + 1))).run (s.lookup key).2 := by
  intro key tokens
  have htemplate := ofPlaced_cons p ps
  simp only [hkind, hcomment, hinclusion, hopens, Bool.false_eq_true, if_false, if_true]
    at htemplate
  have hindex : closerIndex? key 1 tokens =
      (splitAtCloser? key 1 ps).map fun (body, _) => body.length := closerIndex?_map_token key 1 ps
  refine ⟨fun j => closerIndex?_eq_some_iff,
    fun i t hi ht => closerIndex?_of_isLeast_overclosesAt hi ht, fun hnone => ?_, fun hnone s => ?_,
    fun j s v hfound hif hv hskips => ?_⟩
  · rw [Option.eq_none_iff_forall_ne_some]
    intro j hj
    exact hnone j (closerIndex?_eq_some_iff.1 hj).1.overclosesAt
  · rw [hindex, Option.map_eq_none_iff] at hnone
    rw [htemplate, hnone]
    rfl
  · rw [hindex, Option.map_eq_some_iff] at hfound
    obtain ⟨⟨body, rest⟩, hsplit, rfl⟩ := hfound
    obtain ⟨closer, hps⟩ := eq_append_of_splitAtCloser? hsplit
    have hrest : ps.drop (body.length + 1) = rest := by
      rw [hps, List.drop_append]
      simp
    rw [htemplate, hsplit]
    dsimp only
    rw [if_neg hif, run, Session.runSection_of_skips hv hskips, Outcome.return_andThen, hrest]
    rfl

end Template

/-! ## A section with an unbalanced body -/

namespace Token

def openingTag (c : Char) : Token := ⟨['{', '{', '#', c, '}', '}'], .unknown⟩

end Token

/-- What follows the opening tag of a section `a`: a tag that closes `b`, then one that opens `c`,
so that the last tag closes `a` at the depth zero. -/
def misnested : List Token :=
  [⟨['x'], .unknown⟩, .closingTag 'b', .openingTag 'c', ⟨['y'], .unknown⟩, .closingTag 'a']

theorem isLeast_overclosesAt_misnested :
    IsLeast {i | Template.OverclosesAt misnested i} 1 := by
  have hfirst : ¬ Template.OverclosesAt misnested 0 := by decide
  have hsecond : Template.OverclosesAt misnested 1 := by decide
  refine ⟨hsecond, fun i hi => ?_⟩
  cases i with
  | zero => exact absurd hi hfirst
  | succ i => exact Nat.succ_le_succ (Nat.zero_le i)

theorem Template.closerIndex?_misnested :
    let opener : Placed := ⟨none, .openingTag 'a', misnested.head?⟩
    let ps := Placed.ofTokens (some (.openingTag 'a')) misnested
    opener.token.kind = .tag ∧ opener.token.isComment = false ∧
      opener.token.has .inclusion = false ∧ opener.token.opensSection = true ∧
      IsLeast {i | ClosesAt ['a'] 1 misnested i} 4 ∧
      ∀ sink claimed, ((ofPlaced (opener :: ps)).run
        ⟨[⟨[(['a'], .bool false)], claimed⟩], sink⟩).failure = none := by
  intro opener ps
  obtain ⟨hfinds, -, -, -, hskips⟩ := closerIndex?_opener opener ps rfl rfl rfl rfl
  have hfound : closerIndex? ['a'] 1 misnested = some 4 := by decide
  refine ⟨rfl, rfl, rfl, rfl, (hfinds 4).1 hfound, fun sink claimed => ?_⟩
  let s : Session := ⟨[⟨[(['a'], .bool false)], claimed⟩], sink⟩
  have hvalue : (s.lookup opener.token.key).1 = some (.bool false) := by
    have hlookup := Context.lookup_single ['a'] ⟨[(['a'], .bool false)], claimed⟩
    rw [Mapping.resolve_of_no_dot (by decide) (by decide)] at hlookup
    exact congrArg Prod.fst hlookup
  have hrun := hskips 4 s (.bool false) hfound (by decide) hvalue ⟨fun _ => rfl, nofun⟩
  rw [hrun]
  exact congrArg Outcome.failure (Outline.run_ofPlaced_nil _)

/-- The tag behind the opening tag `a` closes `b`, and yet the section `a` is taken for closed. -/
theorem render_misnested_ne :
    IsLeast {i | Template.OverclosesAt misnested i} 1 ∧
      (misnested[1]?.map Token.key) = some ['b'] ∧
      Template.closerIndex? ['a'] 1 misnested = some 4 ∧
      (render ((.openingTag 'a' :: misnested).flatMap Token.text)
        [(['a'], .bool false)]).toOption = some [] := by
  exact ⟨isLeast_overclosesAt_misnested, by decide, by decide, by decide +kernel⟩

end Mustache
