import Mustache.Template

namespace Mustache

theorem Placed.map_token_ofTokens (before : Option Token) (ts : List Token) :
    (ofTokens before ts).map token = ts := by
  induction ts generalizing before with
  | nil => rfl
  | cons t ts ih => rw [ofTokens, List.map_cons, ih]

theorem Placed.mem_token_ofTokens {p : Placed} {before : Option Token} {tokens : List Token}
    (h : p ∈ ofTokens before tokens) : p.token ∈ tokens := by
  have hmem : p.token ∈ (ofTokens before tokens).map token := List.mem_map_of_mem h
  rwa [map_token_ofTokens] at hmem

/-- The errors that a tag can be the cause of, be it through its place or through the value of its
key. -/
inductive Token.Causes (t : Token) : Error → Prop where
  | unmatched (hkind : t.kind = .tag) (hcomment : t.isComment = false)
      (hsection : t.opensSection = true ∨ t.has .closer = true) :
      Causes t (.unmatchedSection t.key t.place)
  | partials (hkind : t.kind = .tag) (hcomment : t.isComment = false)
      (hinclusion : t.has .inclusion = true) : Causes t (.unsupported .partials t.place)
  | ifSections (hkind : t.kind = .tag) (hcomment : t.isComment = false)
      (hopens : t.opensSection = true) (hif : t.key = ['i', 'f']) :
      Causes t (.unsupported .ifSections t.place)
  | missing (hkind : t.kind = .tag) (hcomment : t.isComment = false)
      (hopens : t.opensSection = true) : Causes t (.missingSectionVariable t.key t.place)
  | untestable (kind : Kind) : Causes t (.untestableKind t.key kind)
  | unwritable (kind : Kind) : Causes t (.unwritableKind kind)

def Token.sectionTag (t : Token) : SectionTag :=
  ⟨t.key, t.has .opener, t.has .inverter, t.place⟩

/-- Whether what a tag can put into a template has properties: a value with its key, a section that
it opens, and an error. -/
structure Token.Allows (onValue : Text → Prop) (onSection : SectionTag → Prop)
    (onStop : Error → Prop) (t : Token) : Prop where
  value : onValue t.key
  sect : t.kind = .tag → t.isComment = false → t.opensSection = true → onSection t.sectionTag
  stop (e : Error) : t.Causes e → onStop e

namespace Template

theorem sectionBody_sublist (ps : List Placed) : (sectionBody ps).Sublist ps := by
  unfold sectionBody
  dsimp only
  repeat' split
  · exact (List.dropLast_sublist _).trans (List.tail_sublist ps)
  · exact List.tail_sublist ps
  · exact List.dropLast_sublist ps
  · exact List.Sublist.refl ps

theorem mem_of_splitAtCloser? {key : Text} {depth : Int} {ps body rest : List Placed}
    (h : splitAtCloser? key depth ps = some (body, rest)) {p : Placed}
    (hp : p ∈ body ∨ p ∈ rest) : p ∈ ps := by
  induction ps generalizing depth body with
  | nil => cases h
  | cons q ps ih =>
    simp only [splitAtCloser?] at h
    split at h
    · cases h
      exact List.mem_cons_of_mem q (hp.resolve_left List.not_mem_nil)
    · obtain ⟨⟨inner, rest'⟩, hs, he⟩ := Option.map_eq_some_iff.1 h
      cases he
      rcases hp with hbody | hrest
      · rcases List.mem_cons.1 hbody with rfl | hinner
        · exact List.mem_cons_self
        · exact List.mem_cons_of_mem q (ih hs (Or.inl hinner))
      · exact List.mem_cons_of_mem q (ih hs (Or.inr hrest))

theorem map_sectionBody {α : Type} (f : Placed → α) (isBreak : α → Bool)
    (h : ∀ p, isBreak (f p) = decide (p.token.text = ['\n'])) (ps : List Placed) :
    (sectionBody ps).map f =
      let front := if (ps.map f).head?.any isBreak then (ps.map f).tail else ps.map f
      if 2 < front.length ∧ front.getLast?.any isBreak then front.dropLast else front := by
  have hany (p : Option Placed) :
      (p.map f).any isBreak = p.any fun p => decide (p.token.text = ['\n']) := by
    cases p with
    | none => rfl
    | some p => exact h p
  unfold sectionBody
  dsimp only
  rw [List.head?_map, hany, ← List.map_tail, ← apply_ite (List.map f)]
  generalize (if ps.head?.any _ then ps.tail else ps) = front
  rw [List.length_map, List.getLast?_map, hany, ← List.map_dropLast, ← apply_ite (List.map f)]

/-- What the search for a closing tag finds, through a function that tells all that it asks for. -/
theorem map_splitAtCloser?_congr {α : Type} {f : Placed → α}
    (hf : ∀ p q, f p = f q → p.token.depthChange = q.token.depthChange ∧ ∀ key,
      (p.token.closesSection = true ∧ p.token.key = key ↔
        q.token.closesSection = true ∧ q.token.key = key))
    {ps qs : List Placed} (h : ps.map f = qs.map f) (key : Text) (depth : Int) :
    (splitAtCloser? key depth ps).map (Prod.map (List.map f) (List.map f)) =
      (splitAtCloser? key depth qs).map (Prod.map (List.map f) (List.map f)) := by
  induction ps generalizing qs depth with
  | nil =>
    obtain rfl := List.map_eq_nil_iff.1 h.symm
    rfl
  | cons p ps ih =>
    obtain ⟨q, qs, rfl, hfirst, htail⟩ := List.map_eq_cons_iff.1 h.symm
    obtain ⟨hdepth, hcloses⟩ := hf p q hfirst.symm
    have hfound : (p.token.closesSection = true ∧ depth + p.token.depthChange = 0 ∧
        p.token.key = key) ↔ (q.token.closesSection = true ∧ depth + q.token.depthChange = 0 ∧
          q.token.key = key) := by
      rw [and_left_comm, hcloses, hdepth, ← and_left_comm]
    rw [splitAtCloser?, splitAtCloser?]
    dsimp only
    simp only [hfound]
    split
    · exact congrArg (fun rest => some ([], rest)) htail.symm
    · have hrest := congrArg (Option.map (Prod.map (f p :: ·) id))
        (ih htail.symm (depth + p.token.depthChange))
      rw [← hdepth, Option.map_map, Option.map_map]
      rw [Option.map_map, Option.map_map] at hrest
      refine hrest.trans ?_
      rw [← hfirst]
      rfl

theorem ofPlaced_cons (p : Placed) (ps : List Placed) :
    ofPlaced (p :: ps) =
      if p.token.isComment then ofPlaced ps
      else
        match p.token.kind with
        | .literal => text p.trimmed (ofPlaced ps)
        | .tripleTag => value p.token.key false (ofPlaced ps)
        | .tag =>
          if p.token.has .inclusion then stop (.unsupported .partials p.token.place)
          else if p.token.opensSection then
            match splitAtCloser? p.token.key 1 ps with
            | none => stop (.unmatchedSection p.token.key p.token.place)
            | some (body, rest) =>
              if p.token.key = ['i', 'f'] then stop (.unsupported .ifSections p.token.place)
              else sect p.token.sectionTag (ofPlaced (sectionBody body)) (ofPlaced rest)
          else if p.token.has .closer then stop (.unmatchedSection p.token.key p.token.place)
          else value p.token.key (!p.token.has .raw) (ofPlaced ps) := by
  rw [ofPlaced]
  congr 1
  cases p.token.kind with
  | literal => rfl
  | tripleTag => rfl
  | tag =>
    dsimp only
    congr 2
    cases splitAtCloser? p.token.key 1 ps <;> rfl

def All (onValue : Text → Prop) (onSection : SectionTag → Prop) (onStop : Error → Prop) :
    Template → Prop
  | done => True
  | text _ rest => rest.All onValue onSection onStop
  | value key _ rest => onValue key ∧ rest.All onValue onSection onStop
  | sect tag body rest =>
    onSection tag ∧ body.All onValue onSection onStop ∧ rest.All onValue onSection onStop
  | stop failure => onStop failure

section All

variable {onValue : Text → Prop} {onSection : SectionTag → Prop} {onStop : Error → Prop}

theorem all_of_forall (hvalue : ∀ key, onValue key) (hsection : ∀ tag, onSection tag)
    (hstop : ∀ e, onStop e) (t : Template) : t.All onValue onSection onStop := by
  induction t with
  | done => trivial
  | text t rest ih => exact ih
  | value key escaped rest ih => exact ⟨hvalue key, ih⟩
  | sect tag body rest ihbody ih => exact ⟨hsection tag, ihbody, ih⟩
  | stop failure => exact hstop failure

/-- What is in a template comes from the tags among its tokens. -/
theorem all_ofPlaced {ps : List Placed}
    (h : ∀ p ∈ ps, p.token.isLiteral = false → p.token.Allows onValue onSection onStop) :
    (ofPlaced ps).All onValue onSection onStop := by
  have hnot {t : Token} {kind : TokenKind} (hkind : t.kind = kind) (hne : kind ≠ .literal) :
      t.isLiteral = false := decide_eq_false (hkind ▸ hne)
  -- One case for each thing that a tag can be; those that stop are among the causes of errors.
  fun_induction ofPlaced ps with
  | case1 => trivial
  | case2 p ps hcomment ih => exact ih fun q hq => h q (List.mem_cons_of_mem p hq)
  | case3 p ps hcomment hkind ih => exact ih fun q hq => h q (List.mem_cons_of_mem p hq)
  | case4 p ps key hcomment hkind ih =>
    have hp := h p List.mem_cons_self (hnot hkind (by decide))
    exact ⟨hp.value, ih fun q hq => h q (List.mem_cons_of_mem p hq)⟩
  | case5 p ps place hcomment hkind hinclusion =>
    have hp := h p List.mem_cons_self (hnot hkind (by decide))
    exact hp.stop _ (.partials hkind (Bool.eq_false_iff.2 hcomment) hinclusion)
  | case6 p ps key place hcomment hkind hinclusion hopens hsplit =>
    have hp := h p List.mem_cons_self (hnot hkind (by decide))
    exact hp.stop _ (.unmatched hkind (Bool.eq_false_iff.2 hcomment) (Or.inl hopens))
  | case7 p ps key place hcomment hkind hinclusion hopens body rest hsplit hif =>
    have hp := h p List.mem_cons_self (hnot hkind (by decide))
    exact hp.stop _ (.ifSections hkind (Bool.eq_false_iff.2 hcomment) hopens hif)
  | case8 p ps key place hcomment hkind hinclusion hopens body rest hsplit hif ihb ihr =>
    have hp := h p List.mem_cons_self (hnot hkind (by decide))
    have hinside (q : Placed) (hq : q ∈ body ∨ q ∈ rest) : q ∈ p :: ps :=
      List.mem_cons_of_mem p (mem_of_splitAtCloser? hsplit hq)
    exact ⟨hp.sect hkind (Bool.eq_false_iff.2 hcomment) hopens,
      ihb fun q hq => h q (hinside q (Or.inl ((sectionBody_sublist body).subset hq))),
      ihr fun q hq => h q (hinside q (Or.inr hq))⟩
  | case9 p ps key place hcomment hkind hinclusion hopens hcloses =>
    have hp := h p List.mem_cons_self (hnot hkind (by decide))
    exact hp.stop _ (.unmatched hkind (Bool.eq_false_iff.2 hcomment) (Or.inr hcloses))
  | case10 p ps key hcomment hkind hinclusion hopens hcloses ih =>
    have hp := h p List.mem_cons_self (hnot hkind (by decide))
    exact ⟨hp.value, ih fun q hq => h q (List.mem_cons_of_mem p hq)⟩

theorem all_ofTokens {tokens : List Token}
    (h : ∀ t ∈ tokens, t.isLiteral = false → t.Allows onValue onSection onStop) :
    (ofTokens tokens).All onValue onSection onStop :=
  all_ofPlaced fun p hp => h p.token (Placed.mem_token_ofTokens hp)

end All

/-- Whether the keys that a template looks up and the errors with which it stops, those of the sink
apart, are among the given ones. -/
def UsesOnly (keys : Text → Prop) (errors : Error → Prop) (t : Template) : Prop :=
  t.All (fun key => keys key ∧ ∀ kind, errors (.unwritableKind kind))
    (fun tag => keys tag.key ∧ errors (.missingSectionVariable tag.key tag.place) ∧
      ∀ kind, errors (.untestableKind tag.key kind))
    errors

theorem usesOnly_of_forall {keys : Text → Prop} {errors : Error → Prop} (hkeys : ∀ key, keys key)
    (herrors : ∀ e, errors e) (t : Template) : t.UsesOnly keys errors :=
  t.all_of_forall (fun key => ⟨hkeys key, fun _ => herrors _⟩)
    (fun tag => ⟨hkeys tag.key, herrors _, fun _ => herrors _⟩) herrors

theorem usesOnly_ofTokens (tokens : List Token) :
    (ofTokens tokens).UsesOnly (fun key => ∃ t ∈ tokens, t.isLiteral = false ∧ t.key = key)
      (fun e => ∃ t ∈ tokens, t.isLiteral = false ∧ t.Causes e) := by
  apply all_ofTokens
  intro t ht htag
  have hcauses (e : Error) (he : t.Causes e) : ∃ u ∈ tokens, u.isLiteral = false ∧ u.Causes e :=
    ⟨t, ht, htag, he⟩
  exact {
    value := ⟨⟨t, ht, htag, rfl⟩, fun kind => hcauses _ (.unwritable kind)⟩
    sect := fun hkind hcomment hopens => ⟨⟨t, ht, htag, rfl⟩,
      hcauses _ (.missing hkind hcomment hopens), fun kind => hcauses _ (.untestable kind)⟩
    stop := hcauses }

end Template

end Mustache
