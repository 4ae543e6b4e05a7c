import Mustache.Proofs.Outline
import Mustache.Proofs.Template

namespace Mustache

def Location.dropColumn (l : Location) : Location := ⟨l.line, 0⟩

def Error.dropColumn : Error → Error
  | unclosedTag place => unclosedTag place.dropColumn
  | unmatchedSection name place => unmatchedSection name place.dropColumn
  | missingSectionVariable name place => missingSectionVariable name place.dropColumn
  | unsupported feature place => unsupported feature place.dropColumn
  | e => e

def SectionTag.dropColumn (tag : SectionTag) : SectionTag :=
  { tag with place := tag.place.dropColumn }

def Template.dropColumns : Template → Template
  | done => done
  | text t rest => text t rest.dropColumns
  | value key escaped rest => value key escaped rest.dropColumns
  | sect tag body rest => sect tag.dropColumn body.dropColumns rest.dropColumns
  | stop failure => stop failure.dropColumn

namespace Token

inductive Action where
  | skip
  | write (t : Text)
  | value (key : Text) (escaped : Bool)
  | enter (tag : SectionTag)
  | stop (failure : Error)
deriving DecidableEq

def action (t : Token) : Action :=
  if t.isComment then .skip
  else
    match t.kind with
    | .literal => .write t.text
    | .tripleTag => .value t.key false
    | .tag =>
      if t.has .inclusion then .stop (.unsupported .partials t.place.dropColumn)
      else if t.opensSection then .enter t.sectionTag.dropColumn
      else if t.has .closer then .stop (.unmatchedSection t.key t.place.dropColumn)
      else .value t.key (!t.has .raw)

/-- All that a template takes from a token, apart from columns. -/
structure Aspect where
  action : Action
  depthChange : Int
  /-- The key of the sections that the token closes, if it does close sections. -/
  closes : Option Text
  line : Nat
  standsAlone : Bool

def aspect (t : Token) : Aspect where
  action := t.action
  depthChange := t.depthChange
  closes := if t.closesSection then some t.key else none
  line := t.line
  standsAlone := t.standsAlone

theorem closes_eq_some_iff (t : Token) (key : Text) :
    t.aspect.closes = some key ↔ t.closesSection = true ∧ t.key = key := by
  simp [aspect]

theorem action_eq_write_iff (t : Token) (u : Text) :
    t.action = .write u ↔ t.isLiteral = true ∧ t.text = u := by
  cases hliteral : t.isLiteral with
  | true =>
    have hkind : t.kind = .literal := of_decide_eq_true hliteral
    rw [action, isComment_of_isLiteral hliteral, hkind]
    simp
  | false =>
    have hkind : t.kind ≠ .literal := of_decide_eq_false hliteral
    unfold action
    split
    · simp
    · cases hk : t.kind with
      | literal => exact absurd hk hkind
      | tripleTag => simp
      | tag =>
        dsimp only
        repeat' split
        all_goals simp

theorem aspect_congr {t u : Token} (htext : t.text = u.text) (hline : t.line = u.line) :
    t.aspect = u.aspect := by
  have hparts : t.parts = u.parts := congrArg partsOf htext
  have hkind : t.kind = u.kind := congrArg kindOf htext
  have hkey : t.key = u.key := congrArg Prod.snd hparts
  have hmodifiers : t.modifiers = u.modifiers := congrArg Prod.fst hparts
  have hhas (m : Modifier) : t.has m = u.has m := by rw [has, has, hmodifiers]
  have hplace : t.place.dropColumn = u.place.dropColumn := by
    rw [Location.dropColumn, Location.dropColumn]
    exact congrArg (Location.mk · 0) hline
  simp [aspect, action, depthChange, closesSection, isLiteral, isComment, opensSection,
    standsAlone, sectionTag, SectionTag.dropColumn, htext, hkind, hkey, hmodifiers, hhas, hplace,
    hline]

/-- Of a comment only the line matters. -/
theorem aspect_of_isComment {t : Token} (h : t.isComment = true) :
    t.aspect = ⟨.skip, 0, none, t.line, true⟩ := by
  have hleaf := isLeaf_of_isComment h
  rw [aspect, action, if_pos h, Outline.depthChange_of_isLeaf hleaf,
    Outline.closesSection_of_isLeaf hleaf, standsAlone_of_isComment h, if_neg Bool.false_ne_true]

end Token

namespace Placed

def aspect (p : Placed) : Option Token.Aspect × Token.Aspect × Option Token.Aspect :=
  (p.before.map Token.aspect, p.token.aspect, p.after.map Token.aspect)

theorem aspect_ofTokens_congr {before before' : Option Token} {ts us : List Token}
    (hbefore : before.map Token.aspect = before'.map Token.aspect)
    (h : ts.map Token.aspect = us.map Token.aspect) :
    (ofTokens before ts).map aspect = (ofTokens before' us).map aspect := by
  induction ts generalizing before before' us with
  | nil =>
    obtain rfl := List.map_eq_nil_iff.1 h.symm
    rfl
  | cons t ts ih =>
    obtain ⟨u, us, rfl, htoken, hrest⟩ := List.map_eq_cons_iff.1 h.symm
    have hafter : ts.head?.map Token.aspect = us.head?.map Token.aspect := by
      rw [← List.head?_map, ← List.head?_map, hrest]
    have htail := @ih (some t) (some u) us (congrArg some htoken.symm) hrest.symm
    rw [ofTokens, ofTokens, List.map_cons, List.map_cons, htail, aspect, aspect, hbefore, htoken,
      hafter]

theorem trimsStart_eq (p : Placed) : p.trimsStart =
    (p.before.map Token.aspect).any fun a => a.standsAlone && (a.line ≠ p.token.line ||
      p.token.text.head? = some '\n' && 1 < p.token.text.length) := by
  unfold trimsStart
  cases p.before <;> rfl

theorem trimsEnd_eq (p : Placed) : p.trimsEnd =
    (p.after.map Token.aspect).any fun a =>
      a.standsAlone && (a.line ≠ p.token.line || p.token.text.trim.isEmpty) := by
  unfold trimsEnd
  cases p.after <;> rfl

theorem trimmed_congr {p q : Placed} (h : p.aspect = q.aspect) {t : Text}
    (ht : p.token.action = .write t) : p.trimmed = q.trimmed := by
  have hbefore : p.before.map Token.aspect = q.before.map Token.aspect := congrArg Prod.fst h
  have htoken : p.token.aspect = q.token.aspect := congrArg (fun a => a.2.1) h
  have hafter : p.after.map Token.aspect = q.after.map Token.aspect := congrArg (fun a => a.2.2) h
  have hline : p.token.line = q.token.line := congrArg Token.Aspect.line htoken
  have haction : p.token.action = q.token.action := congrArg Token.Aspect.action htoken
  have htext : p.token.text = q.token.text := by
    rw [((p.token.action_eq_write_iff t).1 ht).2,
      ((q.token.action_eq_write_iff t).1 (haction ▸ ht)).2]
  rw [trimmed, trimmed, trimsStart_eq, trimsEnd_eq, trimsStart_eq, trimsEnd_eq, htext, hline,
    hbefore, hafter]

/-- A bare line break is told by what its token says to do. -/
theorem writesBreak_eq (p : Placed) :
    decide (p.aspect.2.1.action = .write ['\n']) = decide (p.token.text = ['\n']) := by
  apply decide_eq_decide.2
  have haction : p.aspect.2.1.action = p.token.action := rfl
  rw [haction, Token.action_eq_write_iff]
  constructor
  · exact fun hwrite => hwrite.2
  · intro htext
    refine ⟨?_, htext⟩
    rw [Token.isLiteral, Token.kind, htext]
    rfl

end Placed

namespace Template

theorem dropColumns_ofPlaced_cons (p : Placed) (ps : List Placed) :
    (ofPlaced (p :: ps)).dropColumns =
      match p.token.action with
      | .skip => (ofPlaced ps).dropColumns
      | .write _ => text p.trimmed (ofPlaced ps).dropColumns
      | .value key escaped => value key escaped (ofPlaced ps).dropColumns
      | .stop failure => stop failure
      | .enter tag =>
        match splitAtCloser? tag.key 1 ps with
        | none => stop (.unmatchedSection tag.key tag.place)
        | some (body, rest) =>
          if tag.key = ['i', 'f'] then stop (.unsupported .ifSections tag.place)
          else sect tag (ofPlaced (sectionBody body)).dropColumns (ofPlaced rest).dropColumns := by
  rw [ofPlaced_cons, Token.action]
  split
  · rfl
  · cases p.token.kind with
    | literal => rfl
    | tripleTag => rfl
    | tag =>
      dsimp only
      split
      · rfl
      · split
        · have hkey : p.token.sectionTag.dropColumn.key = p.token.key := rfl
          dsimp only
          rw [hkey]
          rcases splitAtCloser? p.token.key 1 ps with _ | ⟨body, rest⟩
          · rfl
          · dsimp only
            split <;> rfl
        · split <;> rfl

theorem sectionBody_congr {ps qs : List Placed} (h : ps.map Placed.aspect = qs.map Placed.aspect) :
    (sectionBody ps).map Placed.aspect = (sectionBody qs).map Placed.aspect := by
  have hbody (ps : List Placed) := map_sectionBody Placed.aspect
    (fun a => decide (a.2.1.action = .write ['\n'])) Placed.writesBreak_eq ps
  rw [hbody, hbody, h]

theorem splitAtCloser?_congr {ps qs : List Placed}
    (h : ps.map Placed.aspect = qs.map Placed.aspect) (key : Text) (depth : Int) :
    (splitAtCloser? key depth ps).map (Prod.map (List.map Placed.aspect) (List.map Placed.aspect)) =
      (splitAtCloser? key depth qs).map
        (Prod.map (List.map Placed.aspect) (List.map Placed.aspect)) := by
  apply map_splitAtCloser?_congr _ h
  intro p q hpq
  have htoken : p.token.aspect = q.token.aspect := congrArg (fun a => a.2.1) hpq
  refine ⟨congrArg Token.Aspect.depthChange htoken, fun key => ?_⟩
  rw [← Token.closes_eq_some_iff, ← Token.closes_eq_some_iff, htoken]

theorem dropColumns_ofPlaced_congr {ps qs : List Placed}
    (h : ps.map Placed.aspect = qs.map Placed.aspect) :
    (ofPlaced ps).dropColumns = (ofPlaced qs).dropColumns := by
  -- Bodies of sections are no parts of the lists, but shorter.
  generalize hlength : ps.length = n
  induction n using Nat.strongRecOn generalizing ps qs with
  | ind n ih =>
    subst hlength
    cases ps with
    | nil =>
      obtain rfl := List.map_eq_nil_iff.1 h.symm
      rfl
    | cons p ps =>
      obtain ⟨q, qs, rfl, hfirst, htail⟩ := List.map_eq_cons_iff.1 h.symm
      have hrest := ih ps.length (Nat.lt_succ_self _) htail.symm rfl
      have htoken : p.token.aspect = q.token.aspect := congrArg (fun a => a.2.1) hfirst.symm
      have haction : q.token.action = p.token.action := congrArg Token.Aspect.action htoken.symm
      rw [dropColumns_ofPlaced_cons, dropColumns_ofPlaced_cons, haction]
      cases hp : p.token.action with
      | skip => exact hrest
      | write t =>
        dsimp only
        rw [Placed.trimmed_congr hfirst.symm hp, hrest]
      | value key escaped => exact congrArg (value key escaped) hrest
      | stop failure => rfl
      | enter tag =>
        have hsplit := splitAtCloser?_congr htail.symm tag.key 1
        dsimp only
        cases hps : splitAtCloser? tag.key 1 ps with
        | none =>
          rw [hps] at hsplit
          rw [Option.map_eq_none_iff.1 hsplit.symm]
        | some parts =>
          obtain ⟨body, rest⟩ := parts
          have hless := length_of_splitAtCloser? hps
          have hshort := length_sectionBody_le body
          rw [hps] at hsplit
          obtain ⟨⟨body', rest'⟩, hqs, hparts⟩ := Option.map_eq_some_iff.1 hsplit.symm
          obtain ⟨hbody, hafter⟩ := Prod.mk.inj hparts
          have hinner := ih (sectionBody body).length (by simp only [List.length_cons]; omega)
            (sectionBody_congr hbody.symm) rfl
          have houter := ih rest.length (by simp only [List.length_cons]; omega) hafter.symm rfl
          rw [hqs]
          dsimp only
          rw [hinner, houter]

theorem dropColumns_ofTokens_congr {ts us : List Token}
    (h : ts.map Token.aspect = us.map Token.aspect) :
    (ofTokens ts).dropColumns = (ofTokens us).dropColumns :=
  dropColumns_ofPlaced_congr (Placed.aspect_ofTokens_congr rfl h)

end Template

end Mustache
