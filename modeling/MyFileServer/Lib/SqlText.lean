import Mathlib.Tactic

/-!
# Reading a statement of SQL

The lexical rules of MySQL as far as one statement with string literals needs
them: blanks and comments, words, string literals with doubled quotes and
backslash escapes, and single symbols.  A literal decodes to no more bytes than
it has between its quotes; `Plain` values are those for which the two are the
same text.  Bytes are written as their numbers: 39 is the quote, 92 the
backslash.
-/

namespace SqlText

abbrev Text := List UInt8

inductive Token
  | word (name : Text)
  | literal (value : Text)
  | symbol (c : UInt8)
  deriving DecidableEq, Repr

def isBlank (c : UInt8) : Bool :=
  c == 32 || (9 ≤ c && c ≤ 13)

/-- Letters, digits, `_`, `$` and the bytes outside ASCII. -/
def isWordByte (c : UInt8) : Bool :=
  (48 ≤ c && c ≤ 57) || (65 ≤ c && c ≤ 90) || (97 ≤ c && c ≤ 122) ||
    c == 95 || c == 36 || 128 ≤ c

/-- What a backslash and the byte behind it stand for: `\0`, `\b`, `\n`, `\r`,
`\t` and `\Z`, the two that keep the backslash, `\%` and `\_`, and the byte
itself for all others. -/
def unescape (c : UInt8) : Text :=
  if c = 48 then [0]
  else if c = 98 then [8]
  else if c = 110 then [10]
  else if c = 114 then [13]
  else if c = 116 then [9]
  else if c = 90 then [26]
  else if c = 37 ∨ c = 95 then [92, c]
  else [c]

/-- The value of a literal behind its opening quote, and the text behind its
closing one.  A doubled quote stands for one. -/
def readLiteral (quote : UInt8) : Text → Option (Text × Text)
  | [] => none
  | [c] => if c = quote then some ([], []) else none
  | c :: d :: rest =>
      if c = 92 then
        (readLiteral quote rest).map fun r => (unescape d ++ r.1, r.2)
      else if c = quote then
        if d = quote then
          (readLiteral quote rest).map fun r => (quote :: r.1, r.2)
        else
          some ([], d :: rest)
      else
        (readLiteral quote (d :: rest)).map fun r => (c :: r.1, r.2)

/-- Behind the end of a comment in C style. -/
def skipComment : Text → Option Text
  | [] => none
  | [_] => none
  | c :: d :: rest => if c = 42 ∧ d = 47 then some rest else skipComment (d :: rest)

/-- `#`, or two dashes before a blank, a control character or the end. -/
def startsLineComment (c : UInt8) (rest : Text) : Bool :=
  c == 35 || (c == 45 && rest.head? == some 45 &&
    rest.tail.head?.all fun d => d ≤ 32 || d == 127)

/-- `/*`, but not the comment that MySQL executes. -/
def startsComment (c : UInt8) (rest : Text) : Bool :=
  c == 47 && rest.head? == some 42 && rest.tail.head? != some 33

/-- The first element of a text: no token for a blank and a comment. -/
def readElement (c : UInt8) (rest : Text) : Option (Option Token × Text) :=
  if isBlank c then some (none, rest)
  else if startsLineComment c rest then some (none, rest.dropWhile (· ≠ 10))
  else if startsComment c rest then (skipComment rest.tail).map fun more => (none, more)
  else if c = 39 ∨ c = 34 then
    (readLiteral c rest).map fun r => (some (.literal r.1), r.2)
  else if isWordByte c then
    some (some (.word (c :: rest.takeWhile isWordByte)), rest.dropWhile isWordByte)
  else some (some (.symbol c), rest)

def tokensFrom : ℕ → Text → Option (List Token)
  | _, [] => some []
  | 0, _ :: _ => none
  | fuel + 1, c :: rest =>
      (readElement c rest).bind fun r =>
        (tokensFrom fuel r.2).map (r.1.toList ++ ·)

/-- The tokens of a text; every element takes at least one byte of it. -/
def tokens (text : Text) : Option (List Token) :=
  tokensFrom text.length text

/-- Literals next to each other are one. -/
def joinLiterals : List Token → List Token
  | [] => []
  | token :: rest =>
      match token, joinLiterals rest with
      | .literal s, .literal t :: more => .literal (s ++ t) :: more
      | token, more => token :: more

/-! ## Literals -/

/-- Between quotes the text stands for itself: it has no quote, and a backslash
only before `%` and `_`. -/
inductive Plain (quote : UInt8) : Text → Prop
  | nil : Plain quote []
  | kept {c : UInt8} {rest : Text} :
      c = 37 ∨ c = 95 → Plain quote rest → Plain quote (92 :: c :: rest)
  | byte {c : UInt8} {rest : Text} :
      c ≠ 92 → c ≠ quote → Plain quote rest → Plain quote (c :: rest)

theorem length_unescape_le (c : UInt8) : (unescape c).length ≤ 2 := by
  unfold unescape
  split_ifs <;> simp

theorem unescape_eq_of_length {c : UInt8} (hlength : (unescape c).length = 2) :
    (c = 37 ∨ c = 95) ∧ unescape c = [92, c] := by
  unfold unescape at hlength ⊢
  split_ifs at hlength ⊢ with h₁ h₂ h₃ h₄ h₅ h₆ hkept <;> simp at hlength
  exact ⟨hkept, rfl⟩

/-- The bytes between the quotes are at least as many as those of the value,
and as many only when they are the value. -/
theorem readLiteral_spec {quote : UInt8} {text value more : Text}
    (hread : readLiteral quote text = some (value, more)) :
    ∃ raw, text = raw ++ quote :: more ∧ value.length ≤ raw.length ∧
      (value.length = raw.length → raw = value ∧ Plain quote value) := by
  induction text using readLiteral.induct quote generalizing value with
  | case1 => cases hread
  | case2 =>
      unfold readLiteral at hread
      rw [if_pos rfl] at hread
      cases hread
      exact ⟨[], rfl, le_rfl, fun _ => ⟨rfl, .nil⟩⟩
  | case3 c hc =>
      unfold readLiteral at hread
      rw [if_neg hc] at hread
      cases hread
  | case4 d rest ih =>
      unfold readLiteral at hread
      rw [if_pos rfl] at hread
      obtain ⟨⟨value, more⟩, hrest, heq⟩ := Option.map_eq_some_iff.mp hread
      cases heq
      obtain ⟨raw, rfl, hshort, hsame⟩ := ih hrest
      have hescape := length_unescape_le d
      refine ⟨92 :: d :: raw, rfl, ?_, fun hlength => ?_⟩
      · simp only [List.length_append, List.length_cons]
        omega
      · simp only [List.length_append, List.length_cons] at hlength
        obtain ⟨hkept, hpair⟩ := unescape_eq_of_length (c := d) (by omega)
        obtain ⟨rfl, hplain⟩ := hsame (by omega)
        rw [hpair]
        exact ⟨rfl, .kept hkept hplain⟩
  | case5 rest hquote ih =>
      unfold readLiteral at hread
      rw [if_neg hquote, if_pos rfl, if_pos rfl] at hread
      obtain ⟨⟨value, more⟩, hrest, heq⟩ := Option.map_eq_some_iff.mp hread
      cases heq
      obtain ⟨raw, rfl, hshort, _⟩ := ih hrest
      refine ⟨quote :: quote :: raw, rfl, ?_, fun hlength => ?_⟩
      · simp only [List.length_cons]
        omega
      · simp only [List.length_cons] at hlength
        omega
  | case6 d rest hquote hd =>
      unfold readLiteral at hread
      rw [if_neg hquote, if_pos rfl, if_neg hd] at hread
      cases hread
      exact ⟨[], rfl, le_rfl, fun _ => ⟨rfl, .nil⟩⟩
  | case7 c d rest hescape hquote ih =>
      unfold readLiteral at hread
      rw [if_neg hescape, if_neg hquote] at hread
      obtain ⟨⟨value, more⟩, hrest, heq⟩ := Option.map_eq_some_iff.mp hread
      cases heq
      obtain ⟨raw, hsplit, hshort, hsame⟩ := ih hrest
      refine ⟨c :: raw, congrArg (c :: ·) hsplit, ?_, fun hlength => ?_⟩
      · simp only [List.length_cons]
        omega
      · simp only [List.length_cons] at hlength
        obtain ⟨rfl, hplain⟩ := hsame (by omega)
        exact ⟨rfl, .byte hescape hquote hplain⟩

theorem readLiteral_of_plain {quote : UInt8} (hquote : quote ≠ 92) {value : Text}
    (hplain : Plain quote value) {more : Text} (hmore : more.head? ≠ some quote) :
    readLiteral quote (value ++ quote :: more) = some (value, more) := by
  induction hplain with
  | nil =>
      cases more with
      | nil =>
          unfold readLiteral
          exact if_pos rfl
      | cons c more =>
          have hc : c ≠ quote := fun hc => hmore (congrArg some hc)
          rw [List.nil_append]
          unfold readLiteral
          rw [if_neg hquote, if_pos rfl, if_neg hc]
  | @kept c rest hkept _ ih =>
      have hpair : unescape c = [92, c] := by
        rcases hkept with rfl | rfl <;> rfl
      rw [List.cons_append, List.cons_append]
      unfold readLiteral
      rw [if_pos rfl, ih, Option.map_some, hpair]
      rfl
  | @byte c rest hescape hc _ ih =>
      rw [List.cons_append]
      cases hrest : rest ++ quote :: more with
      | nil => simp at hrest
      | cons d text =>
          rw [hrest] at ih
          unfold readLiteral
          rw [if_neg hescape, if_neg hc, ih]
          rfl

theorem plain_iff {quote : UInt8} (hquote : quote ≠ 92) (hother : quote ≠ 37 ∧ quote ≠ 95)
    {value : Text} :
    Plain quote value ↔
      quote ∉ value ∧ ∀ front back, value = front ++ 92 :: back →
        back.head? = some 37 ∨ back.head? = some 95 := by
  constructor
  · intro hplain
    induction hplain with
    | nil => simp
    | @kept c rest hkept _ ih =>
        constructor
        · have hc : quote ≠ c := by
            rcases hkept with rfl | rfl
            · exact hother.1
            · exact hother.2
          simp [hquote, hc, ih.1]
        · intro front back hsplit
          match front with
          | [] =>
              obtain rfl := (List.cons.inj hsplit).2
              simpa using hkept
          | [_] =>
              have hc : c = 92 := (List.cons.inj (List.cons.inj hsplit).2).1
              rw [hc] at hkept
              exact absurd hkept (by decide)
          | _ :: _ :: front =>
              exact ih.2 front back (List.cons.inj (List.cons.inj hsplit).2).2
    | @byte c rest hescape hc _ ih =>
        constructor
        · simp [Ne.symm hc, ih.1]
        · intro front back hsplit
          match front with
          | [] => exact absurd (List.cons.inj hsplit).1 hescape
          | _ :: front => exact ih.2 front back (List.cons.inj hsplit).2
  · intro h
    induction hlength : value.length using Nat.strong_induction_on generalizing value with
    | _ n ih =>
        obtain ⟨hfree, hkept⟩ := h
        match value with
        | [] => exact .nil
        | c :: rest =>
            rw [List.length_cons] at hlength
            by_cases hescape : c = 92
            · subst hescape
              have hnext := hkept [] rest rfl
              match rest with
              | [] => simp at hnext
              | d :: rest =>
                  rw [List.length_cons] at hlength
                  refine .kept (by simpa using hnext) (ih rest.length (by omega) ⟨?_, ?_⟩ rfl)
                  · exact fun hmem => hfree (by simp [hmem])
                  · intro front back hsplit
                    exact hkept (92 :: d :: front) back (by rw [hsplit]; rfl)
            · have hc : c ≠ quote := fun hc => hfree (by simp [hc])
              refine .byte hescape hc (ih rest.length (by omega) ⟨?_, ?_⟩ rfl)
              · exact fun hmem => hfree (by simp [hmem])
              · intro front back hsplit
                exact hkept (c :: front) back (by rw [hsplit]; rfl)

/-! ## Tokens -/

namespace Token

/-- The least number of bytes that a token takes. -/
def weight : Token → ℕ
  | word name => name.length
  | literal value => value.length + 2
  | symbol _ => 1

end Token

def weight (list : List Token) : ℕ :=
  (list.map Token.weight).sum

@[simp] theorem weight_nil : weight [] = 0 := rfl

@[simp] theorem weight_cons (token : Token) (list : List Token) :
    weight (token :: list) = token.weight + weight list := by
  simp [weight]

@[simp] theorem weight_append (list list' : List Token) :
    weight (list ++ list') = weight list + weight list' := by
  simp [weight]

theorem length_skipComment {text more : Text} (hskip : skipComment text = some more) :
    more.length ≤ text.length := by
  induction text using skipComment.induct with
  | case1 => cases hskip
  | case2 => cases hskip
  | case3 c d rest hend =>
      unfold skipComment at hskip
      rw [if_pos hend] at hskip
      cases hskip
      simp only [List.length_cons]
      omega
  | case4 c d rest hgo ih =>
      unfold skipComment at hskip
      rw [if_neg hgo] at hskip
      have hrest := ih hskip
      simp only [List.length_cons] at hrest ⊢
      omega

theorem readElement_length {c : UInt8} {rest more : Text} {token : Option Token}
    (hread : readElement c rest = some (token, more)) :
    weight token.toList + more.length ≤ rest.length + 1 ∧ more.length ≤ rest.length := by
  have hline := (List.dropWhile_suffix (fun b : UInt8 => decide (b ≠ 10)) (l := rest)).length_le
  unfold readElement at hread
  split_ifs at hread with hblank hlinec hcomment hquote hword
  · cases hread
    simp
  · cases hread
    simp
    simp at hline
    omega
  · obtain ⟨text, hskip, heq⟩ := Option.map_eq_some_iff.mp hread
    cases heq
    have hlength := length_skipComment hskip
    have htail : rest.tail.length ≤ rest.length := by simp
    simp
    omega
  · obtain ⟨⟨value, text⟩, hliteral, heq⟩ := Option.map_eq_some_iff.mp hread
    cases heq
    obtain ⟨raw, rfl, hshort, _⟩ := readLiteral_spec hliteral
    simp [Token.weight]
    omega
  · cases hread
    have hsplit : (rest.takeWhile isWordByte).length +
        (rest.dropWhile isWordByte).length = rest.length := by
      rw [← List.length_append, List.takeWhile_append_dropWhile]
    simp [Token.weight]
    omega
  · cases hread
    simp [Token.weight]
    omega

theorem tokensFrom_succ {fuel : ℕ} {text : Text} (hfuel : text.length ≤ fuel) :
    tokensFrom (fuel + 1) text = tokensFrom fuel text := by
  induction fuel generalizing text with
  | zero =>
      obtain rfl : text = [] := List.length_eq_zero_iff.mp (Nat.le_zero.mp hfuel)
      rfl
  | succ fuel ih =>
      cases text with
      | nil => rfl
      | cons c rest =>
          unfold tokensFrom
          cases hread : readElement c rest with
          | none => rfl
          | some r =>
              obtain ⟨token, more⟩ := r
              have hshort := (readElement_length hread).2
              rw [List.length_cons] at hfuel
              simp only [Option.bind_some]
              rw [ih (by omega)]

theorem tokensFrom_eq {fuel : ℕ} {text : Text} (hfuel : text.length ≤ fuel) :
    tokensFrom fuel text = tokens text := by
  induction fuel, hfuel using Nat.le_induction with
  | base => rfl
  | succ fuel hfuel ih => rw [tokensFrom_succ hfuel, ih]

@[simp] theorem tokens_nil : tokens [] = some [] := rfl

theorem tokens_cons (c : UInt8) (rest : Text) :
    tokens (c :: rest) =
      (readElement c rest).bind fun r => (tokens r.2).map (r.1.toList ++ ·) := by
  unfold tokens
  rw [List.length_cons]
  conv_lhs => unfold tokensFrom
  cases hread : readElement c rest with
  | none => rfl
  | some r =>
      obtain ⟨token, more⟩ := r
      have hshort := (readElement_length hread).2
      simp only [Option.bind_some]
      rw [tokensFrom_eq hshort]
      rfl

theorem weight_tokens_le {text : Text} {list : List Token}
    (htokens : tokens text = some list) : weight list ≤ text.length := by
  induction hlength : text.length using Nat.strong_induction_on generalizing text list with
  | _ n ih =>
      cases text with
      | nil =>
          rw [tokens_nil] at htokens
          cases htokens
          simp
      | cons c rest =>
          rw [tokens_cons] at htokens
          obtain ⟨⟨token, more⟩, hread, hrest⟩ := Option.bind_eq_some_iff.mp htokens
          obtain ⟨later, hlater, rfl⟩ := Option.map_eq_some_iff.mp hrest
          have hshort := readElement_length hread
          rw [List.length_cons] at hlength
          have htail := ih more.length (by omega) hlater rfl
          rw [weight_append]
          simp only at hshort ⊢
          omega

/-! ## Single elements -/

theorem tokens_blank {c : UInt8} (hc : isBlank c) (rest : Text) :
    tokens (c :: rest) = tokens rest := by
  rw [tokens_cons]
  unfold readElement
  rw [if_pos hc, Option.bind_some]
  simp

theorem tokens_symbol {c : UInt8} {rest : Text}
    (hread : readElement c rest = some (some (.symbol c), rest)) :
    tokens (c :: rest) = (tokens rest).map (.symbol c :: ·) := by
  rw [tokens_cons, hread]
  rfl

theorem takeWhile_stop {p : UInt8 → Bool} {word rest : Text} (hword : ∀ c ∈ word, p c)
    (hrest : rest.head?.all fun c => !p c) :
    (word ++ rest).takeWhile p = word ∧ (word ++ rest).dropWhile p = rest := by
  rw [List.takeWhile_append_of_pos hword, List.dropWhile_append_of_pos hword]
  cases rest with
  | nil => simp
  | cons c rest =>
      have hc : p c = false := by simpa using hrest
      simp [hc]

theorem isWordByte_facts {c : UInt8} (hc : isWordByte c) :
    isBlank c = false ∧ (c ≠ 35 ∧ c ≠ 45) ∧ c ≠ 47 ∧ c ≠ 39 ∧ c ≠ 34 := by
  refine ⟨?_, ⟨?_, ?_⟩, ?_, ?_, ?_⟩
  · cases hblank : isBlank c with
    | false => rfl
    | true =>
        simp [isBlank, isWordByte, UInt8.le_iff_toNat_le, ← UInt8.toNat_inj] at hblank hc
        omega
  all_goals
    rintro rfl
    exact absurd hc (by decide)

theorem tokens_word {word rest : Text} (hne : word ≠ [])
    (hword : word.all isWordByte) (hrest : rest.head?.all fun c => !isWordByte c) :
    tokens (word ++ rest) = (tokens rest).map (.word word :: ·) := by
  obtain ⟨c, word, rfl⟩ := List.exists_cons_of_ne_nil hne
  have hsplit := List.forall_mem_cons.mp (List.all_eq_true.mp hword)
  obtain ⟨hblank, hline, hslash, hquote, hdouble⟩ := isWordByte_facts hsplit.1
  have hstop := takeWhile_stop hsplit.2 hrest
  have hnoline : startsLineComment c (word ++ rest) = false := by
    simp [startsLineComment, hline]
  have hnocomment : startsComment c (word ++ rest) = false := by
    simp [startsComment, hslash]
  rw [List.cons_append, tokens_cons]
  unfold readElement
  rw [hblank, hnoline, hnocomment, if_neg Bool.false_ne_true, if_neg Bool.false_ne_true,
    if_neg Bool.false_ne_true, if_neg (by simp [hquote, hdouble]), if_pos hsplit.1,
    hstop.1, hstop.2]
  rfl

theorem tokens_literal {quote : UInt8} (hquote : quote = 39 ∨ quote = 34) (rest : Text) :
    tokens (quote :: rest) =
      (readLiteral quote rest).bind fun r =>
        (tokens r.2).map (.literal r.1 :: ·) := by
  have hread : readElement quote rest =
      (readLiteral quote rest).map fun r => (some (.literal r.1), r.2) := by
    unfold readElement
    rcases hquote with rfl | rfl <;> rfl
  rw [tokens_cons, hread]
  cases readLiteral quote rest <;> rfl

/-! ## Joined literals -/

theorem weight_joinLiterals_le (list : List Token) :
    weight (joinLiterals list) ≤ weight list := by
  induction list with
  | nil => exact le_rfl
  | cons token rest ih =>
      unfold joinLiterals
      split
      next s t more hjoin =>
        rw [hjoin] at ih
        simp only [weight_cons, Token.weight, List.length_append] at ih ⊢
        omega
      next =>
        rw [weight_cons, weight_cons]
        omega

theorem joinLiterals_cons {token : Token} (htoken : ∀ value, token ≠ .literal value)
    (rest : List Token) : joinLiterals (token :: rest) = token :: joinLiterals rest := by
  cases token with
  | literal value => exact absurd rfl (htoken value)
  | word name => rfl
  | symbol c => rfl

theorem joinLiterals_append {front : List Token}
    (hfront : ∀ token ∈ front, ∀ value, token ≠ .literal value) (list : List Token) :
    joinLiterals (front ++ list) = front ++ joinLiterals list := by
  induction front with
  | nil => rfl
  | cons token front ih =>
      have hsplit := List.forall_mem_cons.mp hfront
      rw [List.cons_append, joinLiterals_cons hsplit.1, ih hsplit.2, List.cons_append]

/-- The literal at the start takes in those behind it. -/
theorem joinLiterals_literal {value joined : Text} {rest list : List Token}
    (hjoin : joinLiterals (.literal value :: rest) = .literal joined :: list) :
    (joined = value ∧ joinLiterals rest = list) ∨
      ∃ later, joined = value ++ later ∧ joinLiterals rest = .literal later :: list := by
  unfold joinLiterals at hjoin
  split at hjoin
  next s later more heq hrest =>
    cases heq
    cases hjoin
    exact .inr ⟨later, rfl, hrest⟩
  next =>
    cases hjoin
    exact .inl ⟨rfl, rfl⟩

/-- Where the text has no room for a second pair of quotes, the value comes from
the literal at the start alone. -/
theorem literal_of_joined {quote : UInt8} (hquote : quote = 39 ∨ quote = 34)
    {text value : Text} {list more : List Token}
    (htokens : tokens (quote :: text) = some list)
    (hjoin : joinLiterals list = .literal value :: more)
    (hroom : text.length < value.length + 3 + weight more) :
    ∃ raw rest later, text = raw ++ quote :: rest ∧ value.length ≤ raw.length ∧
      (value.length = raw.length → raw = value ∧ Plain quote value) ∧
      tokens rest = some later ∧ joinLiterals later = more ∧
      weight more ≤ rest.length := by
  rw [tokens_literal hquote] at htokens
  obtain ⟨⟨first, rest⟩, hread, hrest⟩ := Option.bind_eq_some_iff.mp htokens
  obtain ⟨later, hlater, rfl⟩ := Option.map_eq_some_iff.mp hrest
  obtain ⟨raw, rfl, hshort, hsame⟩ := readLiteral_spec hread
  have hweight := (weight_joinLiterals_le later).trans (weight_tokens_le hlater)
  simp only [List.length_append, List.length_cons] at hroom
  rcases joinLiterals_literal hjoin with ⟨rfl, hmore⟩ | ⟨joined, rfl, hmore⟩
  · rw [hmore] at hweight
    exact ⟨raw, rest, later, rfl, hshort, hsame, hlater, hmore, hweight⟩
  · rw [hmore, weight_cons] at hweight
    simp only [Token.weight] at hweight
    rw [List.length_append] at hroom
    simp only at hroom hweight hshort
    omega

end SqlText
