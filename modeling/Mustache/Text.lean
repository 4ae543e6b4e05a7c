namespace Mustache

abbrev Text := List Char

namespace Text

def byteCount : Text → Nat
  | [] => 0
  | c :: cs => c.utf8Size + byteCount cs

/-- The shortest prefix of at least `n` bytes, or the whole text if it has fewer. -/
def takeBytes : Nat → Text → Text
  | _, [] => []
  | 0, _ :: _ => []
  | n + 1, c :: cs => c :: takeBytes (n + 1 - c.utf8Size) cs

def dropBytes : Nat → Text → Text
  | _, [] => []
  | 0, c :: cs => c :: cs
  | n + 1, c :: cs => dropBytes (n + 1 - c.utf8Size) cs

@[simp] theorem byteCount_nil : byteCount [] = 0 := rfl

@[simp] theorem byteCount_cons (c : Char) (cs : Text) :
    byteCount (c :: cs) = c.utf8Size + byteCount cs := rfl

@[simp] theorem byteCount_append (s t : Text) :
    byteCount (s ++ t) = byteCount s + byteCount t := by
  induction s with
  | nil => simp
  | cons c cs ih => simp [ih, Nat.add_assoc]

theorem takeBytes_append_dropBytes (n : Nat) (t : Text) : takeBytes n t ++ dropBytes n t = t := by
  induction t generalizing n with
  | nil => rfl
  | cons c cs ih => cases n <;> simp [takeBytes, dropBytes, ih]

theorem takeBytes_cons {n : Nat} (hn : 0 < n) (c : Char) (t : Text) :
    takeBytes n (c :: t) = c :: takeBytes (n - c.utf8Size) t := by
  obtain ⟨m, rfl⟩ := Nat.exists_eq_succ_of_ne_zero (Nat.ne_of_gt hn)
  rfl

theorem dropBytes_cons {n : Nat} (hn : 0 < n) (c : Char) (t : Text) :
    dropBytes n (c :: t) = dropBytes (n - c.utf8Size) t := by
  obtain ⟨m, rfl⟩ := Nat.exists_eq_succ_of_ne_zero (Nat.ne_of_gt hn)
  rfl

@[simp] theorem dropBytes_zero (t : Text) : dropBytes 0 t = t := by cases t <;> rfl

theorem takeBytes_byteCount_append (s t : Text) : takeBytes (byteCount s) (s ++ t) = s := by
  induction s with
  | nil => cases t <;> rfl
  | cons c cs ih =>
    have hc := c.utf8Size_pos
    rw [byteCount_cons, List.cons_append, takeBytes_cons (by omega), Nat.add_sub_cancel_left, ih]

theorem dropBytes_byteCount_append (t u : Text) : dropBytes t.byteCount (t ++ u) = u := by
  induction t with
  | nil => exact dropBytes_zero u
  | cons c t ih =>
    have hc := c.utf8Size_pos
    rw [byteCount_cons, List.cons_append, dropBytes_cons (by omega), Nat.add_sub_cancel_left, ih]

def stripPrefix? : Text → Text → Option Text
  | [], t => some t
  | _ :: _, [] => none
  | p :: ps, c :: cs => if p = c then stripPrefix? ps cs else none

def stripSuffix? (ending t : Text) : Option Text :=
  (stripPrefix? ending.reverse t.reverse).map List.reverse

def join (separator : Text) : List Text → Text
  | [] => []
  | [t] => t
  | t :: ts => t ++ separator ++ join separator ts

/-- Order by code point, the shorter text first where one begins the other. -/
def compare : Text → Text → Ordering
  | [], [] => .eq
  | [], _ :: _ => .lt
  | _ :: _, [] => .gt
  | c :: cs, d :: ds => if c = d then compare cs ds else if c < d then .lt else .gt

theorem compare_eq_iff {s t : Text} : s.compare t = .eq ↔ s = t := by
  induction s generalizing t with
  | nil => cases t <;> simp [compare]
  | cons c s ih =>
    cases t with
    | nil => simp [compare]
    | cons d t =>
      rw [compare, List.cons.injEq, ← ih]
      split
      next h => simp [h]
      next h => split <;> simp [h]

theorem compare_cons_eq_lt_iff {c d : Char} {s t : Text} :
    compare (c :: s) (d :: t) = .lt ↔ c < d ∨ c = d ∧ s.compare t = .lt := by
  rw [compare]
  split
  next h => simp [h]
  next h => split <;> simp_all

theorem compare_eq_lt_of_gt {s t : Text} (h : s.compare t = .gt) : t.compare s = .lt := by
  induction s generalizing t with
  | nil => cases t <;> cases h
  | cons c s ih =>
    cases t with
    | nil => rfl
    | cons d t =>
      rw [compare] at h
      rw [compare_cons_eq_lt_iff]
      split at h
      next hcd => exact Or.inr ⟨hcd.symm, ih h⟩
      next hne =>
        split at h
        · cases h
        next hlt =>
          have hle : ¬ c ≤ d := fun hle => hne (Char.le_antisymm hle (Char.not_lt.1 hlt))
          exact Or.inl (Char.not_le.1 hle)

theorem compare_lt_trans {s t u : Text} (h : s.compare t = .lt) (h' : t.compare u = .lt) :
    s.compare u = .lt := by
  induction s generalizing t u with
  | nil =>
    cases u with
    | nil => cases t <;> cases h'
    | cons e u => rfl
  | cons c s ih =>
    cases t with
    | nil => cases h
    | cons d t =>
      cases u with
      | nil => cases h'
      | cons e u =>
        rw [compare_cons_eq_lt_iff] at h h' ⊢
        rcases h with hcd | ⟨rfl, hst⟩
        · rcases h' with hde | ⟨rfl, -⟩
          · exact Or.inl (Char.lt_trans hcd hde)
          · exact Or.inl hcd
        · rcases h' with hde | ⟨rfl, htu⟩
          · exact Or.inl hde
          · exact Or.inr ⟨rfl, ih hst htu⟩

def ofNat (n : Nat) : Text := Nat.toDigits 10 n

/-- The characters with the property `White_Space`. -/
def blankRanges : List (Nat × Nat) :=
  [(0x9, 0xd), (0x20, 0x20), (0x85, 0x85), (0xa0, 0xa0), (0x1680, 0x1680), (0x2000, 0x200a),
    (0x2028, 0x2029), (0x202f, 0x202f), (0x205f, 0x205f), (0x3000, 0x3000)]

def isBlank (c : Char) : Bool :=
  blankRanges.any fun (first, last) => first ≤ c.toNat && c.toNat ≤ last

def trimStart (t : Text) : Text := t.dropWhile isBlank

def dropEndWhile (p : Char → Bool) (t : Text) : Text := (t.reverse.dropWhile p).reverse

def trimEnd (t : Text) : Text := dropEndWhile isBlank t

def trim (t : Text) : Text := trimEnd (trimStart t)

theorem length_dropWhile_le (p : Char → Bool) (t : Text) : (t.dropWhile p).length ≤ t.length :=
  (List.dropWhile_suffix p).length_le

theorem length_trim_le (t : Text) : (trim t).length ≤ t.length := by
  simpa [trim, trimEnd, dropEndWhile] using
    Nat.le_trans (length_dropWhile_le _ (trimStart t).reverse)
      (by simpa [trimStart] using length_dropWhile_le isBlank t)

/-- The two characters in sequence are one line break. -/
def unifyLineBreaks : Text → Text
  | [] => []
  | '\r' :: '\n' :: cs => '\n' :: unifyLineBreaks cs
  | c :: cs => (if c = '\r' then '\n' else c) :: unifyLineBreaks cs

theorem unifyLineBreaks_eq_self {t : Text} (h : '\r' ∉ t) : unifyLineBreaks t = t := by
  fun_induction unifyLineBreaks t with
  | case1 => rfl
  | case2 => simp at h
  | case3 c cs _ ih =>
    have hc : c ≠ '\r' := fun e => h (by simp [e])
    simp [hc, ih (fun m => h (by simp [m]))]

def escapeHtmlChar : Char → Text
  | '&' => "&amp;".toList
  | '<' => "&lt;".toList
  | '>' => "&gt;".toList
  | '"' => "&quot;".toList
  | '\'' => "&#39;".toList
  | c => [c]

def escapeHtml (t : Text) : Text := t.flatMap escapeHtmlChar

@[simp] theorem escapeHtml_append (s t : Text) :
    escapeHtml (s ++ t) = escapeHtml s ++ escapeHtml t := by
  simp [escapeHtml]

def digit? (base : Nat) (c : Char) : Option Nat :=
  let n :=
    if '0' ≤ c ∧ c ≤ '9' then c.toNat - '0'.toNat
    else if 'a' ≤ c ∧ c ≤ 'f' then c.toNat - 'a'.toNat + 10
    else if 'A' ≤ c ∧ c ≤ 'F' then c.toNat - 'A'.toNat + 10
    else base
  if n < base then some n else none

def isDigit (base : Nat) (c : Char) : Bool := (digit? base c).isSome

def ofDigits (base : Nat) (digits : Text) : Nat :=
  digits.foldl (fun n c => base * n + (digit? base c).getD 0) 0

def fixedDigits? (base count : Nat) (t : Text) : Option (Nat × Text) :=
  let digits := t.take count
  if digits.length = count ∧ digits.all (isDigit base) then
    some (ofDigits base digits, t.drop count)
  else none

abbrev Bytes := List UInt8

def encode (t : Text) : Bytes := t.flatMap String.utf8EncodeChar

def decode? (bytes : Bytes) : Option Text := bytes.toByteArray.utf8Decode?.map Array.toList

@[simp] theorem encode_nil : encode [] = [] := rfl

@[simp] theorem encode_append (s t : Text) : encode (s ++ t) = encode s ++ encode t := by
  simp [encode]

@[simp] theorem decode?_encode (t : Text) : decode? (encode t) = some t := by
  have hdecode : (encode t).toByteArray.utf8Decode? = some t.toArray := List.utf8Decode?_utf8Encode
  rw [decode?, hdecode, Option.map_some]

theorem length_encode (t : Text) : (encode t).length = byteCount t := by
  induction t with
  | nil => rfl
  | cons c cs ih => simpa [encode] using ih

end Text

end Mustache
