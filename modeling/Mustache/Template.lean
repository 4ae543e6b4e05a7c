import Mustache.Token

namespace Mustache

/-- How the tag moves the depth of nesting when sections are matched. -/
def Token.depthChange (t : Token) : Int :=
  if t.isLiteral ∨ t.isComment then 0
  else (if t.opensSection then 1 else 0) - (if t.has .closer then 1 else 0)

def Token.closesSection (t : Token) : Bool := !t.isLiteral && !t.isComment && t.has .closer

structure Placed where
  before : Option Token
  token : Token
  after : Option Token
deriving DecidableEq

namespace Placed

/-- The tokens of a list with their neighbours, the given one standing before the list. -/
def ofTokens : Option Token → List Token → List Placed
  | _, [] => []
  | before, t :: ts => ⟨before, t, ts.head?⟩ :: ofTokens (some t) ts

/-- Whether a literal loses the line break at its start: behind a tag that stands alone, if that is
on another line or if more than the line break follows it. -/
def trimsStart (p : Placed) : Bool :=
  match p.before with
  | none => false
  | some t => t.standsAlone && (t.line ≠ p.token.line ||
      p.token.text.head? = some '\n' && 1 < p.token.text.length)

/-- Whether a literal loses the spaces at its end: in front of a tag that stands alone, if that is
on another line or if the literal is blank. -/
def trimsEnd (p : Placed) : Bool :=
  match p.after with
  | none => false
  | some t => t.standsAlone && (t.line ≠ p.token.line || p.token.text.trim.isEmpty)

def trimmed (p : Placed) : Text :=
  let t := p.token.text
  let t := if p.trimsStart then (Text.stripPrefix? ['\n'] t).getD t else t
  if p.trimsEnd then t.dropEndWhile (· = ' ') else t

end Placed

/-- The tag that opens a section. With both modifiers the body is rendered for what the value holds
and then once more if the value is empty. -/
structure SectionTag where
  key : Text
  /-- The body is rendered for what the value holds. -/
  direct : Bool
  /-- The body is rendered if the value is empty. -/
  inverted : Bool
  place : Location
deriving DecidableEq

inductive Template where
  | done
  | text (t : Text) (rest : Template)
  | value (key : Text) (escaped : Bool) (rest : Template)
  | sect (tag : SectionTag) (body rest : Template)
  | stop (failure : Error)
deriving DecidableEq

namespace Template

/-- The tokens between the tags of a section, without a bare line break at the front, and without
one at the end if more than two tokens are there. -/
def sectionBody (tokens : List Placed) : List Placed :=
  let isBreak (p : Placed) : Bool := p.token.text = ['\n']
  let tokens := if tokens.head?.any isBreak then tokens.tail else tokens
  if 2 < tokens.length ∧ tokens.getLast?.any isBreak then tokens.dropLast else tokens

/-- What stands between an opening tag with the given key and the tag that closes it, and what
stands behind that one. Sections may be nested; the depth counts opening tags less closing tags,
whatever their keys, and the closing tag is the first that brings it to zero and has the key. -/
def splitAtCloser? (key : Text) : Int → List Placed → Option (List Placed × List Placed)
  | _, [] => none
  | depth, p :: ps =>
    let depth := depth + p.token.depthChange
    if p.token.closesSection ∧ depth = 0 ∧ p.token.key = key then some ([], ps)
    else (splitAtCloser? key depth ps).map fun (body, rest) => (p :: body, rest)

theorem length_sectionBody_le (ps : List Placed) : (sectionBody ps).length ≤ ps.length := by
  unfold sectionBody
  simp only
  repeat' split
  all_goals simp
  all_goals omega

theorem length_of_splitAtCloser? {key : Text} {depth : Int} {ps body rest : List Placed}
    (h : splitAtCloser? key depth ps = some (body, rest)) :
    body.length + rest.length < ps.length := by
  induction ps generalizing depth body rest with
  | nil => simp [splitAtCloser?] at h
  | cons p ps ih =>
    simp only [splitAtCloser?] at h
    split at h
    · simp only [Option.some.injEq, Prod.mk.injEq] at h
      simp [← h.1, ← h.2]
    · obtain ⟨⟨b, r⟩, hs, he⟩ := Option.map_eq_some_iff.1 h
      simp only [Prod.mk.injEq] at he
      have := ih hs
      simp only [← he.1, ← he.2, List.length_cons]
      omega

def ofPlaced : List Placed → Template
  | [] => done
  | p :: ps =>
    let key := p.token.key
    let place := p.token.place
    if p.token.isComment then ofPlaced ps
    else
      match p.token.kind with
      | .literal => text p.trimmed (ofPlaced ps)
      | .tripleTag => value key false (ofPlaced ps)
      | .tag =>
        if p.token.has .inclusion then stop (.unsupported .partials place)
        else if p.token.opensSection then
          match _h : splitAtCloser? key 1 ps with
          | none => stop (.unmatchedSection key place)
          | some (body, rest) =>
            if key = ['i', 'f'] then stop (.unsupported .ifSections place)
            else
              sect ⟨key, p.token.has .opener, p.token.has .inverter, place⟩
                (ofPlaced (sectionBody body)) (ofPlaced rest)
        else if p.token.has .closer then stop (.unmatchedSection key place)
        else value key (!p.token.has .raw) (ofPlaced ps)
termination_by ps => ps.length
decreasing_by
  all_goals simp_wf
  · have hs := length_of_splitAtCloser? ‹_›
    have hb := length_sectionBody_le body
    omega
  · have hs := length_of_splitAtCloser? ‹_›
    omega

def ofTokens (tokens : List Token) : Template := ofPlaced (Placed.ofTokens none tokens)

end Template

end Mustache
