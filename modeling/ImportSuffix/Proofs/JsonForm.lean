import ImportSuffix.Proofs.JsonGrammar

/-!
# The form of JSON values

A value that nobody wants is skipped, and then only its form counts. The form is said by a grammar
of its own (`Json.Forms`), which is wider than the one that gives values: numbers may have a
fraction and an exponent and be of any size, and an escape in a text need not encode a character.

Skipping passes exactly over what has the form of a value (`Json.Forms.skipValue_eq`). The machine
that does it takes at most two steps for each character, so its bound is never reached.
-/

namespace ImportSuffix.Json

/-! ### Numbers -/

/-- Digits, of which there is one at least. -/
structure IsDigits (digits : List Char) : Prop where
  ne_nil : digits ≠ []
  digit : ∀ c ∈ digits, c.isDigit = true

/-- What may follow the digits before the point: nothing, or the point and more digits. -/
inductive IsFraction : List Char → Prop
  | none : IsFraction []
  | point {digits : List Char} (h : IsDigits digits) : IsFraction ('.' :: digits)

/-- What may end a number: nothing, or an exponent with a sign or none. -/
inductive IsExponent : List Char → Prop
  | none : IsExponent []
  | unsigned {e : Char} {digits : List Char} (he : e = 'e' ∨ e = 'E') (h : IsDigits digits) :
      IsExponent (e :: digits)
  | signed {e sign : Char} {digits : List Char} (he : e = 'e' ∨ e = 'E')
      (hsign : sign = '+' ∨ sign = '-') (h : IsDigits digits) : IsExponent (e :: sign :: digits)

/-- A number without a sign. -/
inductive IsUnsigned : List Char → Prop
  | mk {whole fraction exponent : List Char} (hwhole : IsNumeral whole)
      (hfraction : IsFraction fraction) (hexponent : IsExponent exponent) :
      IsUnsigned (whole ++ (fraction ++ exponent))

/-- A number, with a minus in front of it or none. -/
inductive IsNumber : List Char → Prop
  | nonneg {text : List Char} (h : IsUnsigned text) : IsNumber text
  | neg {text : List Char} (h : IsUnsigned text) : IsNumber ('-' :: text)

/-! ### Values -/

/-- The characters of a text in quotes, after the opening quote, whatever they encode. -/
inductive FormsText : List Char → List Char → Prop
  | close {rest : List Char} : FormsText ('"' :: rest) rest
  | plain {c : Char} {text rest : List Char} (hquote : c ≠ '"') (hbackslash : c ≠ '\\')
      (hcontrol : 0x20 ≤ c.toNat) (h : FormsText text rest) : FormsText (c :: text) rest
  | letter {l : Char} {text rest : List Char} (hletter : (escapedChar? l).isSome)
      (h : FormsText text rest) : FormsText ('\\' :: l :: text) rest
  | unit {a b c d : Char} {text rest : List Char} (ha : (hexValue? a).isSome)
      (hb : (hexValue? b).isSome) (hc : (hexValue? c).isSome) (hd : (hexValue? d).isSome)
      (h : FormsText text rest) : FormsText ('\\' :: 'u' :: a :: b :: c :: d :: text) rest

/-- The character that opens a bracket. -/
def Bracket.opening : Bracket → Char
  | array => '['
  | object => '\x7b'

/-- A kind of piece that the form of a value is made of. -/
inductive Part
  /-- A value. -/
  | value
  /-- An entry of a bracket: in an array a value, in an object a key with its value. -/
  | entry (bracket : Bracket)
  /-- The entries of a bracket up to its end, of which there is one at least. -/
  | entries (bracket : Bracket)
  deriving Repr, DecidableEq

/-- That a text begins with a piece of some kind, and what is left of the text after it. -/
inductive Forms : Part → List Char → List Char → Prop
  | word {word rest : List Char}
      (h : word = "null".toList ∨ word = "true".toList ∨ word = "false".toList) :
      Forms .value (word ++ rest) rest
  | number {number rest : List Char} (h : IsNumber number) : Forms .value (number ++ rest) rest
  | text {text rest : List Char} (h : FormsText text rest) : Forms .value ('"' :: text) rest
  | empty {bracket : Bracket} {text rest : List Char}
      (hclose : AfterGap text (bracket.close :: rest)) :
      Forms .value (bracket.opening :: text) rest
  | filled {bracket : Bracket} {text first rest : List Char} (hgap : AfterGap text first)
      (h : Forms (.entries bracket) first rest) : Forms .value (bracket.opening :: text) rest
  | item {text rest : List Char} (h : Forms .value text rest) : Forms (.entry .array) text rest
  | member {text after behind value rest : List Char} (hkey : FormsText text after)
      (hcolon : AfterGap after (':' :: behind)) (hgap : AfterGap behind value)
      (h : Forms .value value rest) : Forms (.entry .object) ('"' :: text) rest
  | last {bracket : Bracket} {text after rest : List Char} (h : Forms (.entry bracket) text after)
      (hclose : AfterGap after (bracket.close :: rest)) : Forms (.entries bracket) text rest
  | more {bracket : Bracket} {text after behind next rest : List Char}
      (h : Forms (.entry bracket) text after) (hcomma : AfterGap after (',' :: behind))
      (hgap : AfterGap behind next) (hmore : Forms (.entries bracket) next rest) :
      Forms (.entries bracket) text rest

/-! ### What follows a value -/

/-- That a number would end in front of a text: it goes on neither with a digit nor with a point or
an exponent. -/
def EndsNumber (rest : List Char) : Prop :=
  ∀ c ∈ rest.head?, c.isDigit = false ∧ c ≠ '.' ∧ c ≠ 'e' ∧ c ≠ 'E'

theorem endsNumber_cons {c : Char} {rest : List Char} (hdigit : c.isDigit = false)
    (hpoint : c ≠ '.') (hlower : c ≠ 'e') (hupper : c ≠ 'E') : EndsNumber (c :: rest) :=
  fun _ hd => Option.some.inj hd ▸ ⟨hdigit, hpoint, hlower, hupper⟩

/-- White space ends a number, and where there is none, what would follow it has to. -/
theorem AfterGap.endsNumber {rest next : List Char} (h : AfterGap rest next)
    (hnext : EndsNumber next) : EndsNumber rest := by
  obtain ⟨gap, hgap, rfl⟩ := h
  cases gap with
  | nil => exact hnext
  | cons c gap =>
    have hc := hgap c List.mem_cons_self
    simp only [isGap, Bool.or_eq_true, beq_iff_eq] at hc
    rcases hc with ((rfl | rfl) | rfl) | rfl <;>
      exact endsNumber_cons rfl (by decide) (by decide) (by decide)

theorem endsNumber_close (bracket : Bracket) (rest : List Char) :
    EndsNumber (bracket.close :: rest) := by
  cases bracket <;> exact endsNumber_cons rfl (by decide) (by decide) (by decide)

theorem endsNumber_comma (rest : List Char) : EndsNumber (',' :: rest) :=
  endsNumber_cons rfl (by decide) (by decide) (by decide)

/-! ### Skipping a number -/

section

variable {digits text fraction exponent rest : List Char}

theorem dropWhile_isDigit_append (h : ∀ c ∈ digits, c.isDigit = true)
    (hrest : ∀ c ∈ rest.head?, c.isDigit = false) :
    (digits ++ rest).dropWhile Char.isDigit = rest := by
  rw [List.dropWhile_append_of_pos h]
  cases rest with
  | nil => rfl
  | cons c rest => exact List.dropWhile_cons_of_neg (by simp [hrest c rfl])

theorem skipDigits_append (h : IsDigits digits) (hrest : ∀ c ∈ rest.head?, c.isDigit = false) :
    skipDigits (digits ++ rest) = .ok rest := by
  obtain ⟨c, digits, rfl⟩ := List.exists_cons_of_ne_nil h.ne_nil
  obtain ⟨hc, hdigits⟩ := List.forall_mem_cons.1 h.digit
  rw [List.cons_append, skipDigits, if_pos hc, dropWhile_isDigit_append hdigits hrest]

/-- After the letter of an exponent, its sign is passed over. -/
theorem skipExponent_cons {e : Char} (he : e = 'e' ∨ e = 'E') (text : List Char) :
    skipExponent (e :: text) =
      match text with
      | '+' :: digits => skipDigits digits
      | '-' :: digits => skipDigits digits
      | digits => skipDigits digits :=
  if_pos (by simpa using he)

theorem skipExponent_append (h : IsExponent exponent) (hrest : EndsNumber rest) :
    skipExponent (exponent ++ rest) = .ok rest := by
  have hdigit : ∀ c ∈ rest.head?, c.isDigit = false := fun c hc => (hrest c hc).1
  cases h with
  | none =>
    cases rest with
    | nil => rfl
    | cons c rest =>
      obtain ⟨-, -, hlower, hupper⟩ := hrest c rfl
      exact if_neg (by simp [hlower, hupper])
  | unsigned he hdigits =>
    have hskip := skipDigits_append hdigits hdigit
    obtain ⟨d, digits, rfl⟩ := List.exists_cons_of_ne_nil hdigits.ne_nil
    have hd := hdigits.digit d List.mem_cons_self
    rw [List.cons_append, skipExponent_cons he]
    split
    · next heq => cases heq; cases hd
    · next heq => cases heq; cases hd
    · exact hskip
  | signed he hsign hdigits =>
    have hskip := skipDigits_append hdigits hdigit
    rw [List.cons_append, List.cons_append, skipExponent_cons he]
    rcases hsign with rfl | rfl <;> exact hskip

theorem endsNumber_append (h : IsExponent exponent) (hrest : EndsNumber rest) :
    ∀ c ∈ (exponent ++ rest).head?, c.isDigit = false ∧ c ≠ '.' := by
  have hletter : ∀ e, e = 'e' ∨ e = 'E' → e.isDigit = false ∧ e ≠ '.' := by
    rintro e (rfl | rfl) <;> decide
  cases h with
  | none => exact fun c hc => ⟨(hrest c hc).1, (hrest c hc).2.1⟩
  | unsigned he | signed he => exact fun c hc => Option.some.inj hc ▸ hletter _ he

theorem skipFraction_append (h : IsFraction fraction) (hexponent : IsExponent exponent)
    (hrest : EndsNumber rest) : skipFraction (fraction ++ (exponent ++ rest)) = .ok rest := by
  have hnext := endsNumber_append hexponent hrest
  have hskip := skipExponent_append hexponent hrest
  cases h with
  | none =>
    rw [List.nil_append]
    generalize exponent ++ rest = text at hnext hskip ⊢
    unfold skipFraction
    split
    · exact absurd rfl (hnext '.' rfl).2
    · exact hskip
  | point hdigits =>
    rw [List.cons_append, skipFraction, skipDigits_append hdigits fun c hc => (hnext c hc).1]
    exact hskip

theorem isDigit_eq_false_of_fraction (h : IsFraction fraction) (hexponent : IsExponent exponent)
    (hrest : EndsNumber rest) :
    ∀ c ∈ (fraction ++ (exponent ++ rest)).head?, c.isDigit = false := by
  cases h with
  | none => exact fun c hc => (endsNumber_append hexponent hrest c hc).1
  | point => exact fun c hc => Option.some.inj hc ▸ rfl

theorem skipUnsigned_append (h : IsUnsigned text) (hrest : EndsNumber rest) :
    skipUnsigned (text ++ rest) = .ok rest := by
  obtain @⟨whole, fraction, exponent, hwhole, hfraction, hexponent⟩ := h
  have hdigit := isDigit_eq_false_of_fraction hfraction hexponent hrest
  have hskip := skipFraction_append hfraction hexponent hrest
  rw [List.append_assoc, List.append_assoc]
  generalize fraction ++ (exponent ++ rest) = behind at hdigit hskip ⊢
  obtain ⟨d, digits, rfl⟩ := List.exists_cons_of_ne_nil hwhole.ne_nil
  obtain ⟨hd, hdigits⟩ := List.forall_mem_cons.1 hwhole.digit
  by_cases hzero : d = '0'
  · -- A zero in front is the only digit before the point.
    subst hzero
    obtain rfl : digits = [] := List.cons_inj_right '0' |>.1 (hwhole.zero rfl)
    cases behind with
    | nil => exact hskip
    | cons c behind => exact (if_neg (by simp [hdigit c rfl])).trans hskip
  · rw [List.cons_append]
    unfold skipUnsigned
    split
    · next heq => cases heq
    · next heq => exact absurd (List.cons_eq_cons.1 heq).1 hzero
    · next heq =>
      obtain ⟨rfl, rfl⟩ := List.cons_eq_cons.1 heq
      rw [if_pos hd, dropWhile_isDigit_append hdigits hdigit]
      exact hskip

end

/-! ### Skipping a text -/

theorem skipEscape_letter {l : Char} (h : (escapedChar? l).isSome) (text : List Char) :
    skipEscape (l :: text) = .ok text := by
  unfold skipEscape
  split
  · next heq => cases heq
  · next heq =>
    obtain ⟨rfl, -⟩ := List.cons_eq_cons.1 heq
    cases h
  · next heq =>
    obtain ⟨rfl, rfl⟩ := List.cons_eq_cons.1 heq
    exact if_pos h

theorem skipEscape_unit {a b c d : Char} (ha : (hexValue? a).isSome) (hb : (hexValue? b).isSome)
    (hc : (hexValue? c).isSome) (hd : (hexValue? d).isSome) (text : List Char) :
    skipEscape ('u' :: a :: b :: c :: d :: text) = .ok text := by
  obtain ⟨i, hi⟩ := Option.isSome_iff_exists.1 ha
  obtain ⟨j, hj⟩ := Option.isSome_iff_exists.1 hb
  obtain ⟨k, hk⟩ := Option.isSome_iff_exists.1 hc
  obtain ⟨l, hl⟩ := Option.isSome_iff_exists.1 hd
  have hread : readHex (a :: b :: c :: d :: text) =
      .ok (((i * 16 + j) * 16 + k) * 16 + l, text) := by
    simp only [readHex, hi, hj, hk, hl]
  exact congrArg (Except.map Prod.snd) hread

theorem FormsText.length_lt {text rest : List Char} (h : FormsText text rest) :
    rest.length < text.length := by
  induction h with
  | close => exact Nat.lt_succ_self _
  | plain | letter | unit => simp only [List.length_cons]; omega

/-- The bound of the recursion is not reached. -/
theorem FormsText.skipChars_eq {text rest : List Char} (h : FormsText text rest) {fuel : Nat}
    (hfuel : text.length ≤ fuel) : skipChars fuel text = .ok rest := by
  induction h generalizing fuel with
  | close =>
    obtain ⟨fuel, rfl⟩ := Nat.exists_eq_succ_of_ne_zero (Nat.ne_of_gt (Nat.zero_lt_of_lt hfuel))
    exact if_pos rfl
  | plain hquote hbackslash hcontrol _ ih =>
    obtain ⟨fuel, rfl⟩ := Nat.exists_eq_succ_of_ne_zero (Nat.ne_of_gt (Nat.zero_lt_of_lt hfuel))
    rw [skipChars, if_neg hquote, if_neg hbackslash, if_neg (Nat.not_lt.2 hcontrol)]
    exact ih (Nat.le_of_succ_le_succ hfuel)
  | letter hletter _ ih =>
    obtain ⟨fuel, rfl⟩ := Nat.exists_eq_succ_of_ne_zero (Nat.ne_of_gt (Nat.zero_lt_of_lt hfuel))
    rw [skipChars, if_neg (by decide), if_pos rfl, skipEscape_letter hletter]
    simp only [List.length_cons] at hfuel
    exact ih (by omega)
  | unit ha hb hc hd _ ih =>
    obtain ⟨fuel, rfl⟩ := Nat.exists_eq_succ_of_ne_zero (Nat.ne_of_gt (Nat.zero_lt_of_lt hfuel))
    rw [skipChars, if_neg (by decide), if_pos rfl, skipEscape_unit ha hb hc hd]
    simp only [List.length_cons] at hfuel
    exact ih (by omega)

theorem FormsText.skipText_eq {text rest : List Char} (h : FormsText text rest) :
    skipText text = .ok rest :=
  h.skipChars_eq (Nat.le_refl _)

/-! ### Steps of the machine -/

theorem AfterGap.expect_eq {c : Char} {text rest : List Char} (h : AfterGap text (c :: rest))
    (hc : isGap c = false) : expect c text = .ok rest := by
  rw [expect, h.skipGap_eq (tight_cons hc)]
  exact if_pos rfl

/-- What the machine does at an entry of a bracket: after the key, if there has to be one, it awaits
a value. -/
def skipEntry (fuel : Nat) (bracket : Bracket) (open_ : List Bracket) (text : List Char) :
    Except Flaw (List Char) := do
  skipIn fuel .value (bracket :: open_) (← skipKey bracket text)

section

variable {fuel : Nat} {bracket : Bracket} {open_ : List Bracket} {text first rest : List Char}
  {c : Char}

theorem skipIn_value (hgap : AfterGap text first) (htight : Tight first)
    (h : skipScalar first = .ok (none, rest)) :
    skipIn (fuel + 1) .value open_ text = skipIn fuel .next open_ rest := by
  rw [skipIn, hgap.skipGap_eq htight, h]
  rfl

theorem skipIn_opening (hgap : AfterGap text (bracket.opening :: rest)) :
    skipIn (fuel + 1) .value open_ text = skipIn fuel .first (bracket :: open_) rest := by
  cases bracket <;> (rw [skipIn, hgap.skipGap_eq (tight_cons rfl)]; rfl)

theorem skipIn_first_close (hgap : AfterGap text (bracket.close :: rest)) :
    skipIn (fuel + 1) .first (bracket :: open_) text = skipIn fuel .next open_ rest := by
  have hclose : isGap bracket.close = false := by cases bracket <;> rfl
  rw [skipIn, hgap.skipGap_eq (tight_cons hclose)]
  exact if_pos rfl

theorem skipIn_first_entry (hgap : AfterGap text (c :: rest)) (hc : isGap c = false)
    (hne : c ≠ bracket.close) :
    skipIn (fuel + 1) .first (bracket :: open_) text =
      skipEntry fuel bracket open_ (c :: rest) := by
  rw [skipIn, hgap.skipGap_eq (tight_cons hc)]
  exact if_neg hne

theorem skipIn_next_close (hgap : AfterGap text (bracket.close :: rest)) :
    skipIn (fuel + 1) .next (bracket :: open_) text = skipIn fuel .next open_ rest := by
  have hclose : isGap bracket.close = false := by cases bracket <;> rfl
  rw [skipIn, hgap.skipGap_eq (tight_cons hclose)]
  exact if_pos rfl

theorem skipIn_next_comma (hgap : AfterGap text (',' :: rest)) :
    skipIn (fuel + 1) .next (bracket :: open_) text = skipEntry fuel bracket open_ rest := by
  have hclose : ',' ≠ bracket.close := by cases bracket <;> decide
  rw [skipIn, hgap.skipGap_eq (tight_cons rfl)]
  exact (if_neg hclose).trans (if_pos rfl)

end

/-! ### Skipping a value -/

theorem AfterGap.length_le {text rest : List Char} (h : AfterGap text rest) :
    rest.length ≤ text.length := by
  obtain ⟨gap, -, rfl⟩ := h
  rw [List.length_append]
  exact Nat.le_add_left _ _

theorem IsUnsigned.exists_cons {text : List Char} (h : IsUnsigned text) :
    ∃ c text', text = c :: text' ∧ c.isDigit = true := by
  obtain ⟨hwhole, -, -⟩ := h
  obtain ⟨c, digits, rfl⟩ := List.exists_cons_of_ne_nil hwhole.ne_nil
  exact ⟨c, _, rfl, hwhole.digit c List.mem_cons_self⟩

/-- A number begins with a digit or a minus. -/
theorem IsNumber.exists_cons {number : List Char} (h : IsNumber number) :
    ∃ c text, number = c :: text ∧ (c.isDigit || c == '-') = true := by
  cases h with
  | nonneg h =>
    obtain ⟨c, text, rfl, hc⟩ := h.exists_cons
    exact ⟨c, text, rfl, by rw [hc, Bool.true_or]⟩
  | neg => exact ⟨_, _, rfl, rfl⟩

theorem skipScalar_of_isDigit {c : Char} (hc : c.isDigit = true) (text : List Char) :
    skipScalar (c :: text) = (skipUnsigned (c :: text)).map (none, ·) := by
  unfold skipScalar
  split
  case h_9 heq =>
    obtain ⟨rfl, rfl⟩ := List.cons_eq_cons.1 heq
    exact if_pos hc
  case h_1 heq => cases heq
  -- None of the characters that begin another value is a digit.
  all_goals
    next heq =>
      obtain ⟨rfl, -⟩ := List.cons_eq_cons.1 heq
      cases hc

theorem skipScalar_number {number rest : List Char} (h : IsNumber number)
    (hrest : EndsNumber rest) : skipScalar (number ++ rest) = .ok (none, rest) := by
  cases h with
  | nonneg h =>
    have hskip := skipUnsigned_append h hrest
    obtain ⟨c, text, rfl, hc⟩ := h.exists_cons
    rw [List.cons_append] at hskip ⊢
    rw [skipScalar_of_isDigit hc, hskip]
    rfl
  | neg h => exact congrArg (Except.map (none, ·)) (skipUnsigned_append h hrest)

/-- The bracket whose end cannot stand at the beginning of a piece. -/
def Part.bracket : Part → Bracket
  | value => .array
  | entry bracket | entries bracket => bracket

theorem Forms.exists_cons {part : Part} {text rest : List Char} (h : Forms part text rest) :
    ∃ c text', text = c :: text' ∧ isGap c = false ∧ c ≠ part.bracket.close := by
  induction h with
  | word h => rcases h with rfl | rfl | rfl <;> exact ⟨_, _, rfl, rfl, by decide⟩
  | number h =>
    obtain ⟨c, text', rfl, hc⟩ := h.exists_cons
    exact ⟨c, _, rfl, isGap_eq_false_of_number hc⟩
  | text | member => exact ⟨_, _, rfl, rfl, by decide⟩
  | @empty bracket | @filled bracket => cases bracket <;> exact ⟨_, _, rfl, rfl, by decide⟩
  | item _ ih | last _ _ ih | more _ _ _ _ ih => exact ih

/-- The machine in front of a piece. -/
def Part.skip : Part → Nat → List Bracket → List Char → Except Flaw (List Char)
  | value, fuel, open_, text => skipIn fuel .value open_ text
  | entry bracket, fuel, open_, text | entries bracket, fuel, open_, text =>
    skipEntry fuel bracket open_ text

/-- The brackets that are open after a piece. -/
def Part.opened : Part → List Bracket → List Bracket
  | entry bracket, open_ => bracket :: open_
  | value, open_ | entries _, open_ => open_

/-- A value that is no bracket takes one step. -/
theorem exists_steps_of_skipScalar {text rest : List Char} (htight : Tight text)
    (hskip : skipScalar text = .ok (none, rest)) (hlen : rest.length < text.length) :
    ∃ steps, steps + 2 * rest.length ≤ 2 * text.length ∧
      ∀ fuel open_ start, AfterGap start text →
        skipIn (fuel + steps) .value open_ start = skipIn fuel .next open_ rest :=
  ⟨1, by omega, fun _ _ _ hgap => skipIn_value hgap htight hskip⟩

theorem skipKey_object {start text after behind : List Char} (hstart : AfterGap start ('"' :: text))
    (hkey : FormsText text after) (hcolon : AfterGap after (':' :: behind)) :
    skipKey .object start = .ok behind := by
  rw [skipKey, hstart.expect_eq rfl]
  change (do expect ':' (← skipText text)) = _
  rw [hkey.skipText_eq]
  exact hcolon.expect_eq rfl

/-- The machine passes over a piece, in at most two steps for each character. -/
theorem Forms.exists_steps {part : Part} {text rest : List Char} (h : Forms part text rest)
    (hrest : EndsNumber rest) : ∃ steps, steps + 2 * rest.length ≤ 2 * text.length ∧
      ∀ fuel open_ start, AfterGap start text →
        part.skip (fuel + steps) open_ start = skipIn fuel .next (part.opened open_) rest := by
  induction h with
  | @word word rest h =>
    have htight : Tight (word ++ rest) := by
      rcases h with rfl | rfl | rfl <;> exact tight_cons rfl
    have hskip : skipScalar (word ++ rest) = .ok (none, rest) := by
      rcases h with rfl | rfl | rfl <;> rfl
    have hlen : 0 < word.length := by rcases h with rfl | rfl | rfl <;> decide
    exact exists_steps_of_skipScalar htight hskip (by rw [List.length_append]; omega)
  | @number number rest h =>
    have hskip := skipScalar_number h hrest
    obtain ⟨c, text', rfl, hc⟩ := h.exists_cons
    exact exists_steps_of_skipScalar (tight_cons (isGap_eq_false_of_number hc).1) hskip
      (by simp only [List.length_append, List.length_cons]; omega)
  | @text text rest h =>
    have hskip : skipScalar ('"' :: text) = .ok (none, rest) :=
      congrArg (Except.map (none, ·)) h.skipText_eq
    exact exists_steps_of_skipScalar (tight_cons rfl) hskip (Nat.lt_succ_of_lt h.length_lt)
  | @empty bracket text rest hclose =>
    have hlen := hclose.length_le
    rw [List.length_cons] at hlen
    refine ⟨2, by rw [List.length_cons]; omega, fun fuel open_ start hgap => ?_⟩
    calc skipIn (fuel + 2) .value open_ start
      _ = skipIn (fuel + 1) .first (bracket :: open_) text := skipIn_opening hgap
      _ = skipIn fuel .next open_ rest := skipIn_first_close hclose
  | @filled bracket text first rest hgap h ih =>
    obtain ⟨steps, hsteps, hskip⟩ := ih hrest
    obtain ⟨c, tail, rfl, hc, hne⟩ := h.exists_cons
    have hlen := hgap.length_le
    refine ⟨steps + 2, by rw [List.length_cons]; omega, fun fuel open_ start hstart => ?_⟩
    calc skipIn (fuel + (steps + 2)) .value open_ start
      _ = skipIn (fuel + steps + 1) .first (bracket :: open_) text := skipIn_opening hstart
      _ = skipEntry (fuel + steps) bracket open_ (c :: tail) := skipIn_first_entry hgap hc hne
      _ = skipIn fuel .next open_ rest := hskip fuel open_ _ (afterGap_self _)
  | @item text rest h ih =>
    obtain ⟨steps, hsteps, hskip⟩ := ih hrest
    exact ⟨steps, hsteps, fun fuel open_ start hgap => hskip fuel (.array :: open_) start hgap⟩
  | @member text after behind value rest hkey hcolon hgap h ih =>
    obtain ⟨steps, hsteps, hskip⟩ := ih hrest
    have hlen := hkey.length_lt
    have hlen' := hcolon.length_le
    have hlen'' := hgap.length_le
    rw [List.length_cons] at hlen'
    refine ⟨steps, by rw [List.length_cons]; omega, fun fuel open_ start hstart => ?_⟩
    have hread : skipKey .object start = .ok behind := skipKey_object hstart hkey hcolon
    calc skipEntry (fuel + steps) .object open_ start
      _ = skipIn (fuel + steps) .value (.object :: open_) behind := by rw [skipEntry, hread]; rfl
      _ = skipIn fuel .next (.object :: open_) rest := hskip fuel _ _ hgap
  | @last bracket text after rest h hclose ih =>
    obtain ⟨steps, hsteps, hskip⟩ := ih (hclose.endsNumber (endsNumber_close bracket rest))
    have hlen := hclose.length_le
    rw [List.length_cons] at hlen
    refine ⟨steps + 1, by omega, fun fuel open_ start hgap => ?_⟩
    calc skipEntry (fuel + (steps + 1)) bracket open_ start
      _ = skipEntry (fuel + 1 + steps) bracket open_ start := by rw [Nat.add_right_comm]; rfl
      _ = skipIn (fuel + 1) .next (bracket :: open_) after := hskip (fuel + 1) open_ start hgap
      _ = skipIn fuel .next open_ rest := skipIn_next_close hclose
  | @more bracket text after behind next rest h hcomma hgap hmore ih ihmore =>
    obtain ⟨steps, hsteps, hskip⟩ := ih (hcomma.endsNumber (endsNumber_comma behind))
    obtain ⟨steps', hsteps', hskip'⟩ := ihmore hrest
    have hlen := hcomma.length_le
    have hlen' := hgap.length_le
    rw [List.length_cons] at hlen
    refine ⟨steps + 1 + steps', by omega, fun fuel open_ start hstart => ?_⟩
    have hsum : fuel + (steps + 1 + steps') = fuel + steps' + 1 + steps := by omega
    calc skipEntry (fuel + (steps + 1 + steps')) bracket open_ start
      _ = skipIn (fuel + steps' + 1) .next (bracket :: open_) after :=
        hsum ▸ hskip (fuel + steps' + 1) open_ start hstart
      _ = skipEntry (fuel + steps') bracket open_ behind := skipIn_next_comma hcomma
      _ = skipIn fuel .next open_ rest := hskip' fuel open_ behind hgap

theorem Forms.length_le {part : Part} {text rest : List Char} (h : Forms part text rest)
    (hrest : EndsNumber rest) : rest.length ≤ text.length := by
  obtain ⟨steps, hsteps, -⟩ := h.exists_steps hrest
  omega

/-- A value is skipped with the white space in front of it, whatever follows, if that ends
numbers. -/
theorem Forms.skipValue_eq {start text rest : List Char} (h : Forms .value text rest)
    (hgap : AfterGap start text) (hrest : EndsNumber rest) : skipValue start = .ok rest := by
  obtain ⟨steps, hsteps, hskip⟩ := h.exists_steps hrest
  have hlen := hgap.length_le
  have hfuel : 2 * start.length + 2 = 2 * start.length + 1 - steps + 1 + steps := by omega
  have hrun := hskip (2 * start.length + 1 - steps + 1) [] start hgap
  rw [← hfuel] at hrun
  exact hrun

/-! ### Values of which the grammar gives a value -/

theorem exists_of_readHex {text rest : List Char} {n : Nat} (h : readHex text = .ok (n, rest)) :
    ∃ a b c d, text = a :: b :: c :: d :: rest ∧ (hexValue? a).isSome ∧ (hexValue? b).isSome ∧
      (hexValue? c).isSome ∧ (hexValue? d).isSome := by
  unfold readHex at h
  split at h
  · next a b c d rest =>
    split at h
    · next ha hb hc hd =>
      cases h
      exact ⟨a, b, c, d, rfl, by rw [ha]; rfl, by rw [hb]; rfl, by rw [hc]; rfl, by rw [hd]; rfl⟩
    · cases h
  · cases h

theorem SpellsText.forms {text s rest : List Char} (h : SpellsText text s rest) :
    FormsText text rest := by
  induction h with
  | close => exact .close
  | char h _ ih =>
    cases h with
    | plain hquote hbackslash hcontrol => exact .plain hquote hbackslash hcontrol ih
    | letter h => exact .letter (by rw [h]; rfl) ih
    | unit h =>
      obtain ⟨a, b, c, d, rfl, ha, hb, hc, hd⟩ := exists_of_readHex h
      exact .unit ha hb hc hd ih
    | pair h _ h' =>
      -- Two escapes in a row encode one character.
      obtain ⟨a, b, c, d, rfl, ha, hb, hc, hd⟩ := exists_of_readHex h
      obtain ⟨a', b', c', d', rfl, ha', hb', hc', hd'⟩ := exists_of_readHex h'
      exact .unit ha hb hc hd (.unit ha' hb' hc' hd' ih)

theorem SpellsNatural.exists_isUnsigned {text rest : List Char} {n : Nat}
    (h : SpellsNatural text n rest) : ∃ digits, IsUnsigned digits ∧ text = digits ++ rest := by
  obtain ⟨digits, hnumeral, rfl, -⟩ := h
  have hdigits : IsUnsigned (digits ++ ([] ++ [])) := ⟨hnumeral, .none, .none⟩
  rw [List.append_nil, List.append_nil] at hdigits
  exact ⟨digits, hdigits, rfl⟩

theorem SpellsNumber.forms {text rest : List Char} {n : Int} (h : SpellsNumber text n rest) :
    Forms .value text rest := by
  cases h with
  | nonneg h =>
    obtain ⟨digits, hdigits, rfl⟩ := h.exists_isUnsigned
    exact .number (.nonneg hdigits)
  | neg h =>
    obtain ⟨digits, hdigits, rfl⟩ := h.exists_isUnsigned
    exact .number (.neg hdigits)

-- The recursion is on the value, as in the proof that the grammar is unambiguous.
mutual

/-- A text that begins with a value begins with the form of one. -/
theorem Spells.forms {text rest : List Char} {j : Json} (h : Spells text j rest) :
    Forms .value text rest := by
  cases h with
  | null => exact .word (.inl rfl)
  | yes => exact .word (.inr (.inl rfl))
  | no => exact .word (.inr (.inr rfl))
  | num h => exact h.forms
  | str h => exact .text h.forms
  | emptyArr hgap => exact @Forms.empty .array _ _ hgap
  | arr hgap h => exact @Forms.filled .array _ _ _ hgap h.forms
  | emptyObj hgap => exact @Forms.empty .object _ _ hgap
  | obj hgap h => exact @Forms.filled .object _ _ _ hgap h.forms
termination_by sizeOf j

theorem SpellsItems.forms {text rest : List Char} {items : List Json}
    (h : SpellsItems text items rest) : Forms (.entries .array) text rest := by
  cases h with
  | last h hclose => exact .last (.item h.forms) hclose
  | more h hcomma hgap hitems => exact .more (.item h.forms) hcomma hgap hitems.forms
termination_by sizeOf items

theorem SpellsMember.forms {text rest : List Char} {member : String × Json}
    (h : SpellsMember text member rest) : Forms (.entry .object) text rest := by
  obtain ⟨hkey, hcolon, hgap, h⟩ := h
  exact .member hkey.forms hcolon hgap h.forms
termination_by sizeOf member

theorem SpellsMembers.forms {text rest : List Char} {members : List (String × Json)}
    (h : SpellsMembers text members rest) : Forms (.entries .object) text rest := by
  cases h with
  | last h hclose => exact .last h.forms hclose
  | more h hcomma hgap hmembers => exact .more h.forms hcomma hgap hmembers.forms
termination_by sizeOf members

end

end ImportSuffix.Json
