import Mustache.Template

namespace Mustache

/-- Things in sequence, some of them around others. -/
inductive Outline (α : Type) where
  | done
  | leaf (a : α) (rest : Outline α)
  | sect (opener : α) (body : Outline α) (closer : α) (rest : Outline α)
deriving DecidableEq

namespace Outline

variable {α β : Type}

def flatten : Outline α → List α
  | done => []
  | leaf a rest => a :: rest.flatten
  | sect opener body closer rest => opener :: (body.flatten ++ closer :: rest.flatten)

def map (f : α → β) : Outline α → Outline β
  | done => done
  | leaf a rest => leaf (f a) (rest.map f)
  | sect opener body closer rest => sect (f opener) (body.map f) (f closer) (rest.map f)

/-- What is written first, if it is not what follows the outline. -/
def first (after : Option α) : Outline α → Option α
  | done => after
  | leaf a _ => some a
  | sect opener _ _ _ => some opener

/-- What is written last, if it is not what stands before the outline. -/
def last (before : Option α) : Outline α → Option α
  | done => before
  | leaf a rest => rest.last (some a)
  | sect _ _ closer rest => rest.last (some closer)

theorem head?_flatten_append (o : Outline α) (as : List α) :
    (o.flatten ++ as).head? = o.first as.head? := by
  cases o <;> rfl

/-- The tokens with their neighbours, where the given ones stand around the outline. -/
def place (before after : Option Token) : Outline Token → Outline Placed
  | done => done
  | leaf t rest => leaf ⟨before, t, rest.first after⟩ (rest.place (some t) after)
  | sect opener body closer rest =>
    sect ⟨before, opener, body.first (some closer)⟩
      (body.place (some opener) (some closer))
      ⟨body.last (some opener), closer, rest.first after⟩
      (rest.place (some closer) after)

theorem map_token_place (o : Outline Token) (before after : Option Token) :
    (o.place before after).map Placed.token = o := by
  induction o generalizing before after with
  | done => rfl
  | leaf t rest ih => simp [place, map, ih]
  | sect opener body closer rest ihb ihr => simp [place, map, ihb, ihr]

/-- The neighbours that a token of an outline gets are its neighbours in any list of tokens that
contains the flattened outline. -/
theorem ofTokens_flatten_append (o : Outline Token) (before : Option Token) (ts : List Token) :
    Placed.ofTokens before (o.flatten ++ ts) =
      (o.place before ts.head?).flatten ++ Placed.ofTokens (o.last before) ts := by
  induction o generalizing before ts with
  | done => rfl
  | leaf t rest ih =>
    simp only [flatten, place, last, List.cons_append, Placed.ofTokens, head?_flatten_append, ih]
  | sect opener body closer rest ihb ihr =>
    simp only [flatten, place, last, List.cons_append, List.append_assoc, Placed.ofTokens,
      head?_flatten_append, List.head?_cons, ihb, ihr]

theorem flatten_place (o : Outline Token) :
    (o.place none none).flatten = Placed.ofTokens none o.flatten := by
  have h := ofTokens_flatten_append o none []
  simp only [List.append_nil, List.head?_nil, Placed.ofTokens] at h
  exact h.symm

end Outline

namespace Token

/-- Whether a token stands for itself: plain text, a comment, or a tag that neither opens nor
closes a section. -/
def isLeaf (t : Token) : Bool :=
  t.isLiteral || t.isComment || !t.has .opener && !t.has .inverter && !t.has .closer

def isOpener (t : Token) : Bool :=
  t.kind = .tag && t.has .opener != t.has .inverter &&
    !t.has .closer && !t.has .inclusion && !t.has .comment

def isCloserOf (key : Text) (t : Token) : Bool :=
  t.kind = .tag && t.has .closer && t.key = key &&
    !t.has .opener && !t.has .inverter && !t.has .inclusion && !t.has .comment

theorem modifiers_of_isLiteral {t : Token} (h : t.isLiteral = true) : t.modifiers = [] := by
  have hkind : kindOf t.text = .literal := of_decide_eq_true h
  rw [modifiers, parts, partsOf, hkind]

theorem isComment_of_isLiteral {t : Token} (h : t.isLiteral = true) : t.isComment = false := by
  rw [isComment, has, modifiers_of_isLiteral h]
  rfl

theorem standsAlone_of_isLiteral {t : Token} (h : t.isLiteral = true) : t.standsAlone = false := by
  rw [standsAlone, modifiers_of_isLiteral h]
  rfl

theorem standsAlone_of_isComment {t : Token} (h : t.isComment = true) : t.standsAlone = true :=
  List.any_eq_true.2 ⟨.comment, List.contains_iff_mem.1 h, rfl⟩

theorem isLeaf_of_isLiteral {t : Token} (h : t.isLiteral = true) : t.isLeaf = true := by
  rw [isLeaf, h, Bool.true_or, Bool.true_or]

theorem isLeaf_of_isComment {t : Token} (h : t.isComment = true) : t.isLeaf = true := by
  rw [isLeaf, h, Bool.or_true, Bool.true_or]

end Token

namespace Outline

/-- Whether each section is opened by a tag and closed by one with the same key, and everything
else stands for itself. -/
def isWellNested : Outline Token → Bool
  | done => true
  | leaf t rest => t.isLeaf && rest.isWellNested
  | sect opener body closer rest =>
    opener.isOpener && body.isWellNested && closer.isCloserOf opener.key && rest.isWellNested

theorem depthChange_of_isLeaf {t : Token} (h : t.isLeaf = true) : t.depthChange = 0 := by
  simp only [Token.isLeaf, Bool.or_eq_true, Bool.and_eq_true, Bool.not_eq_true'] at h
  unfold Token.depthChange
  rcases h with (h | h) | ⟨⟨ho, hi⟩, hc⟩
  · rw [if_pos (Or.inl h)]
  · rw [if_pos (Or.inr h)]
  · simp [Token.opensSection, ho, hi, hc]

theorem closesSection_of_isLeaf {t : Token} (h : t.isLeaf = true) : t.closesSection = false := by
  simp only [Token.isLeaf, Bool.or_eq_true, Bool.and_eq_true, Bool.not_eq_true'] at h
  unfold Token.closesSection
  rcases h with (h | h) | ⟨-, hc⟩
  · simp [h]
  · simp [h]
  · simp [hc]

theorem isLiteral_of_kind_tag {t : Token} (h : t.kind = .tag) : t.isLiteral = false := by
  simp [Token.isLiteral, h]

theorem isOpener_iff {t : Token} :
    t.isOpener = true ↔ t.kind = .tag ∧ t.has .opener ≠ t.has .inverter ∧
      t.has .closer = false ∧ t.has .inclusion = false ∧ t.isComment = false := by
  simp [Token.isOpener, Token.isComment, and_assoc]

theorem isCloserOf_iff {key : Text} {t : Token} :
    t.isCloserOf key = true ↔ t.kind = .tag ∧ t.has .closer = true ∧ t.key = key ∧
      t.has .opener = false ∧ t.has .inverter = false ∧ t.has .inclusion = false ∧
      t.isComment = false := by
  simp [Token.isCloserOf, Token.isComment, and_assoc]

theorem opensSection_of_isOpener {t : Token} (h : t.isOpener = true) : t.opensSection = true := by
  obtain ⟨-, hpol, -⟩ := isOpener_iff.1 h
  unfold Token.opensSection
  cases ho : t.has .opener <;> cases hi : t.has .inverter <;> simp_all

theorem depthChange_of_isOpener {t : Token} (h : t.isOpener = true) : t.depthChange = 1 := by
  obtain ⟨hk, -, hc, -, hm⟩ := isOpener_iff.1 h
  simp [Token.depthChange, isLiteral_of_kind_tag hk, opensSection_of_isOpener h, hc, hm]

theorem closesSection_of_isOpener {t : Token} (h : t.isOpener = true) :
    t.closesSection = false := by
  obtain ⟨-, -, hc, -⟩ := isOpener_iff.1 h
  simp [Token.closesSection, hc]

theorem depthChange_of_isCloserOf {key : Text} {t : Token} (h : t.isCloserOf key = true) :
    t.depthChange = -1 := by
  obtain ⟨hk, hc, -, ho, hi, -, hm⟩ := isCloserOf_iff.1 h
  simp [Token.depthChange, isLiteral_of_kind_tag hk, Token.opensSection, hc, ho, hi, hm]

theorem closesSection_of_isCloserOf {key : Text} {t : Token} (h : t.isCloserOf key = true) :
    t.closesSection = true := by
  obtain ⟨hk, hc, -, -, -, -, hm⟩ := isCloserOf_iff.1 h
  simp [Token.closesSection, isLiteral_of_kind_tag hk, hc, hm]

/-- The search for a closing tag passes over a well-nested outline at any depth: the depth comes
back to what it was, and inside it is never lower. -/
theorem splitAtCloser?_flatten_append {key : Text} {o : Outline Placed} {ps : List Placed}
    (h : (o.map Placed.token).isWellNested = true) {depth : Int} (hd : 1 ≤ depth) :
    Template.splitAtCloser? key depth (o.flatten ++ ps) =
      (Template.splitAtCloser? key depth ps).map fun (body, rest) => (o.flatten ++ body, rest) := by
  induction o generalizing depth ps with
  | done => simp [flatten]
  | leaf p rest ih =>
    simp only [map, isWellNested, Bool.and_eq_true] at h
    simp [flatten, Template.splitAtCloser?, depthChange_of_isLeaf h.1,
      closesSection_of_isLeaf h.1, ih h.2 hd, Function.comp_def]
  | sect opener body closer rest ihb ihr =>
    simp only [map, isWellNested, Bool.and_eq_true] at h
    obtain ⟨⟨⟨ho, hb⟩, hc⟩, hr⟩ := h
    -- The body is searched one level deeper, where the depth is not zero at the closing tag.
    have hstep : depth + 1 + -1 = depth := by omega
    have hne : depth ≠ 0 := by omega
    simp [flatten, Template.splitAtCloser?, depthChange_of_isOpener ho,
      closesSection_of_isOpener ho, depthChange_of_isCloserOf hc, hstep, hne,
      ihb hb (show 1 ≤ depth + 1 by omega), ihr hr hd, Function.comp_def]

theorem splitAtCloser?_flatten {key : Text} {body : Outline Placed} {closer : Placed}
    {ps : List Placed} (h : (body.map Placed.token).isWellNested = true)
    (hc : closer.token.isCloserOf key = true) :
    Template.splitAtCloser? key 1 (body.flatten ++ closer :: ps) = some (body.flatten, ps) := by
  obtain ⟨-, -, hkey, -⟩ := isCloserOf_iff.1 hc
  simp [splitAtCloser?_flatten_append h, Template.splitAtCloser?, depthChange_of_isCloserOf hc,
    closesSection_of_isCloserOf hc, hkey]

end Outline

end Mustache
