import ImportSuffix.Json.Reader
import ImportSuffix.Json.Basic

/-!
# The grammar of JSON text

When a text is a JSON document, and of which value. Each relation here says that a text begins with
a piece of some kind, which value the piece has, and what is left of the text after it. White space
between the tokens is a piece without a value (`AfterGap`); a number goes on as long as there are
digits (`SpellsNatural`). Only numbers without fraction and exponent have a value.

The grammar is unambiguous: a text begins with one value at most, and it leaves one rest
(`Spells.unique`). So a document has one value (`IsDocument.unique`).
-/

namespace ImportSuffix.Json

/-! ### Pieces of a text -/

/-- That something is left of a text after white space, or after none. -/
def AfterGap (text rest : List Char) : Prop :=
  ∃ gap, (∀ c ∈ gap, isGap c = true) ∧ text = gap ++ rest

/-- A character in a text in quotes: plain, as a letter after a backslash, as the number of a
UTF-16 unit or as the numbers of a pair of them. -/
inductive SpellsChar : List Char → Char → List Char → Prop
  | plain {c : Char} {rest : List Char} (hquote : c ≠ '"') (hbackslash : c ≠ '\\')
      (hcontrol : 0x20 ≤ c.toNat) : SpellsChar (c :: rest) c rest
  | letter {l c : Char} {rest : List Char} (h : escapedChar? l = some c) :
      SpellsChar ('\\' :: l :: rest) c rest
  | unit {text rest : List Char} {n : Nat} (h : readHex text = .ok (n, rest))
      (hhigh : isHighSurrogate n = false) (hlow : isLowSurrogate n = false) :
      SpellsChar ('\\' :: 'u' :: text) (Char.ofNat n) rest
  | pair {text second rest : List Char} {high low : Nat}
      (h : readHex text = .ok (high, '\\' :: 'u' :: second)) (hhigh : isHighSurrogate high = true)
      (h' : readHex second = .ok (low, rest)) (hlow : isLowSurrogate low = true) :
      SpellsChar ('\\' :: 'u' :: text)
        (Char.ofNat (0x10000 + (high - 0xD800) * 0x400 + (low - 0xDC00))) rest

/-- The characters of a text in quotes, after the opening quote. -/
inductive SpellsText : List Char → List Char → List Char → Prop
  | close {rest : List Char} : SpellsText ('"' :: rest) [] rest
  | char {text after rest s : List Char} {c : Char} (h : SpellsChar text c after)
      (hs : SpellsText after s rest) : SpellsText text (c :: s) rest

/-- Digits that write a number: at least one, and no zero in front of others. -/
structure IsNumeral (digits : List Char) : Prop where
  ne_nil : digits ≠ []
  digit : ∀ c ∈ digits, c.isDigit = true
  zero : digits.head? = some '0' → digits = ['0']

/-- A number without a sign. All digits that follow each other belong to it. -/
def SpellsNatural (text : List Char) (n : Nat) (rest : List Char) : Prop :=
  ∃ digits, IsNumeral digits ∧ text = digits ++ rest ∧ (∀ c ∈ rest.head?, c.isDigit = false) ∧
    n = Nat.ofDigitChars 10 digits 0

/-- A number, with a minus in front of it or none. -/
inductive SpellsNumber : List Char → Int → List Char → Prop
  | nonneg {text rest : List Char} {n : Nat} (h : SpellsNatural text n rest) :
      SpellsNumber text n rest
  | neg {text rest : List Char} {n : Nat} (h : SpellsNatural text n rest) :
      SpellsNumber ('-' :: text) (-n) rest

mutual

/-- A value. -/
inductive Spells : List Char → Json → List Char → Prop
  | null {rest : List Char} : Spells ('n' :: 'u' :: 'l' :: 'l' :: rest) null rest
  | yes {rest : List Char} : Spells ('t' :: 'r' :: 'u' :: 'e' :: rest) (bool true) rest
  | no {rest : List Char} : Spells ('f' :: 'a' :: 'l' :: 's' :: 'e' :: rest) (bool false) rest
  | num {text rest : List Char} {n : Int} (h : SpellsNumber text n rest) : Spells text (num n) rest
  | str {text s rest : List Char} (h : SpellsText text s rest) :
      Spells ('"' :: text) (str (String.ofList s)) rest
  | emptyArr {text rest : List Char} (hgap : AfterGap text (']' :: rest)) :
      Spells ('[' :: text) (arr []) rest
  | arr {text first rest : List Char} {items : List Json} (hgap : AfterGap text first)
      (h : SpellsItems first items rest) : Spells ('[' :: text) (arr items) rest
  | emptyObj {text rest : List Char} (hgap : AfterGap text ('\x7d' :: rest)) :
      Spells ('\x7b' :: text) (obj []) rest
  | obj {text first rest : List Char} {members : List (String × Json)} (hgap : AfterGap text first)
      (h : SpellsMembers first members rest) : Spells ('\x7b' :: text) (obj members) rest

/-- The items of an array up to its end, of which there is one at least. -/
inductive SpellsItems : List Char → List Json → List Char → Prop
  | last {text after rest : List Char} {item : Json} (h : Spells text item after)
      (hclose : AfterGap after (']' :: rest)) : SpellsItems text [item] rest
  | more {text after behind next rest : List Char} {item : Json} {items : List Json}
      (h : Spells text item after) (hcomma : AfterGap after (',' :: behind))
      (hgap : AfterGap behind next) (hitems : SpellsItems next items rest) :
      SpellsItems text (item :: items) rest

/-- A key with its value. -/
inductive SpellsMember : List Char → String × Json → List Char → Prop
  | mk {text key after behind value rest : List Char} {j : Json} (hkey : SpellsText text key after)
      (hcolon : AfterGap after (':' :: behind)) (hgap : AfterGap behind value)
      (h : Spells value j rest) : SpellsMember ('"' :: text) (String.ofList key, j) rest

/-- The members of an object up to its end, of which there is one at least. -/
inductive SpellsMembers : List Char → List (String × Json) → List Char → Prop
  | last {text after rest : List Char} {member : String × Json} (h : SpellsMember text member after)
      (hclose : AfterGap after ('\x7d' :: rest)) : SpellsMembers text [member] rest
  | more {text after behind next rest : List Char} {member : String × Json}
      {members : List (String × Json)} (h : SpellsMember text member after)
      (hcomma : AfterGap after (',' :: behind)) (hgap : AfterGap behind next)
      (hmembers : SpellsMembers next members rest) : SpellsMembers text (member :: members) rest

end

/-- That a text is a single JSON document of this value, white space around it aside. -/
def IsDocument (text : String) (j : Json) : Prop :=
  ∃ first rest, AfterGap text.toList first ∧ Spells first j rest ∧ AfterGap rest []

/-! ### White space -/

/-- That a text does not begin with white space, which it also does not if it is empty. -/
def Tight (text : List Char) : Prop := ∀ c ∈ text.head?, isGap c = false

theorem tight_cons {c : Char} {text : List Char} (h : isGap c = false) : Tight (c :: text) :=
  fun _ hd => Option.some.inj hd ▸ h

@[simp] theorem afterGap_self (text : List Char) : AfterGap text text :=
  ⟨[], List.forall_mem_nil _, rfl⟩

theorem afterGap_cons {c : Char} (h : isGap c = true) (text : List Char) :
    AfterGap (c :: text) text :=
  ⟨[c], List.forall_mem_singleton.2 h, rfl⟩

section

variable {text rest rest' : List Char}

theorem AfterGap.skipGap_eq (h : AfterGap text rest) (hrest : Tight rest) :
    skipGap text = rest := by
  obtain ⟨gap, hgap, rfl⟩ := h
  rw [skipGap, List.dropWhile_append_of_pos hgap]
  cases rest with
  | nil => rfl
  | cons c rest => exact List.dropWhile_cons_of_neg (by simp [hrest c rfl])

/-- What is left after all the white space is determined. -/
theorem AfterGap.unique (h : AfterGap text rest) (h' : AfterGap text rest') (hrest : Tight rest)
    (hrest' : Tight rest') : rest = rest' :=
  (h.skipGap_eq hrest).symm.trans (h'.skipGap_eq hrest')

/-- The character after the white space and what is left after it are determined. -/
theorem AfterGap.unique_cons {c c' : Char} (h : AfterGap text (c :: rest))
    (h' : AfterGap text (c' :: rest')) (hc : isGap c = false) (hc' : isGap c' = false) :
    c = c' ∧ rest = rest' :=
  List.cons_eq_cons.1 (h.unique h' (tight_cons hc) (tight_cons hc'))

/-! ### Characters and numbers -/

theorem SpellsChar.unique {c c' : Char} (h : SpellsChar text c rest)
    (h' : SpellsChar text c' rest') : c = c' ∧ rest = rest' := by
  cases h with
  | plain _ hbackslash =>
    cases h' with
    | plain => exact ⟨rfl, rfl⟩
    | letter | unit | pair => exact absurd rfl hbackslash
  | letter h =>
    cases h' with
    | plain _ hbackslash => exact absurd rfl hbackslash
    | letter h' => exact ⟨Option.some.inj (h.symm.trans h'), rfl⟩
    | unit | pair => cases h
  | unit h hhigh =>
    cases h' with
    | plain _ hbackslash => exact absurd rfl hbackslash
    | letter h' => cases h'
    | unit h' =>
      cases h.symm.trans h'
      exact ⟨rfl, rfl⟩
    | pair h' hhigh' =>
      cases h.symm.trans h'
      cases hhigh.symm.trans hhigh'
  | pair h hhigh hsecond =>
    cases h' with
    | plain _ hbackslash => exact absurd rfl hbackslash
    | letter h' => cases h'
    | unit h' hhigh' =>
      cases h.symm.trans h'
      cases hhigh.symm.trans hhigh'
    | pair h' _ hsecond' =>
      cases h.symm.trans h'
      cases hsecond.symm.trans hsecond'
      exact ⟨rfl, rfl⟩

theorem SpellsText.unique {s s' : List Char} (h : SpellsText text s rest)
    (h' : SpellsText text s' rest') : s = s' ∧ rest = rest' := by
  induction h generalizing s' with
  | close =>
    cases h' with
    | close => exact ⟨rfl, rfl⟩
    | char h' =>
      cases h' with
      | plain hquote => exact absurd rfl hquote
  | char h _ ih =>
    cases h' with
    | close =>
      cases h with
      | plain hquote => exact absurd rfl hquote
    | char h' hs' =>
      obtain ⟨rfl, rfl⟩ := h.unique h'
      obtain ⟨rfl, rfl⟩ := ih hs'
      exact ⟨rfl, rfl⟩

/-- The digits at the beginning of a text are determined if all of them are taken. -/
theorem takeWhile_isDigit_append {digits : List Char} (h : ∀ c ∈ digits, c.isDigit = true)
    (hrest : ∀ c ∈ rest.head?, c.isDigit = false) :
    (digits ++ rest).takeWhile Char.isDigit = digits := by
  rw [List.takeWhile_append_of_pos h]
  cases rest with
  | nil => simp
  | cons c rest => simp [hrest c rfl]

theorem SpellsNatural.unique {n n' : Nat} (h : SpellsNatural text n rest)
    (h' : SpellsNatural text n' rest') : n = n' ∧ rest = rest' := by
  obtain ⟨digits, hnumeral, rfl, hrest, rfl⟩ := h
  obtain ⟨digits', hnumeral', htext, hrest', rfl⟩ := h'
  have hdigits : digits = digits' := by
    rw [← takeWhile_isDigit_append hnumeral.digit hrest, htext,
      takeWhile_isDigit_append hnumeral'.digit hrest']
  subst hdigits
  exact ⟨rfl, List.append_cancel_left htext⟩

theorem SpellsNatural.exists_cons {n : Nat} (h : SpellsNatural text n rest) :
    ∃ c text', text = c :: text' ∧ c.isDigit = true := by
  obtain ⟨digits, hnumeral, rfl, -⟩ := h
  obtain ⟨c, digits', rfl⟩ := List.exists_cons_of_ne_nil hnumeral.ne_nil
  exact ⟨c, digits' ++ rest, rfl, hnumeral.digit c (List.mem_cons_self ..)⟩

/-- A number begins with a digit or a minus. -/
theorem SpellsNumber.exists_cons {n : Int} (h : SpellsNumber text n rest) :
    ∃ c text', text = c :: text' ∧ (c.isDigit || c == '-') = true := by
  cases h with
  | nonneg h =>
    obtain ⟨c, text', rfl, hc⟩ := h.exists_cons
    exact ⟨c, text', rfl, by rw [hc, Bool.true_or]⟩
  | neg => exact ⟨_, _, rfl, rfl⟩

theorem not_spellsNumber {c : Char} {n : Int} (hc : (c.isDigit || c == '-') = false) :
    ¬SpellsNumber (c :: text) n rest := by
  intro h
  obtain ⟨d, text', heq, hd⟩ := h.exists_cons
  obtain ⟨rfl, rfl⟩ := List.cons_eq_cons.1 heq
  exact Bool.false_ne_true (hc.symm.trans hd)

theorem SpellsNumber.unique {n n' : Int} (h : SpellsNumber text n rest)
    (h' : SpellsNumber text n' rest') : n = n' ∧ rest = rest' := by
  have hminus : ('-').isDigit = false := rfl
  cases h with
  | nonneg h =>
    cases h' with
    | nonneg h' =>
      obtain ⟨rfl, rfl⟩ := h.unique h'
      exact ⟨rfl, rfl⟩
    | neg =>
      obtain ⟨c, _, heq, hc⟩ := h.exists_cons
      cases heq
      cases hminus.symm.trans hc
  | neg h =>
    cases h' with
    | nonneg h' =>
      obtain ⟨c, _, heq, hc⟩ := h'.exists_cons
      cases heq
      cases hminus.symm.trans hc
    | neg h' =>
      obtain ⟨rfl, rfl⟩ := h.unique h'
      exact ⟨rfl, rfl⟩

/-! ### Values -/

/-- Neither white space nor the end of an array begins a number. -/
theorem isGap_eq_false_of_number {c : Char} (hc : (c.isDigit || c == '-') = true) :
    isGap c = false ∧ c ≠ ']' := by
  constructor
  · rw [isGap, Bool.eq_false_iff]
    intro hgap
    simp only [Bool.or_eq_true, beq_iff_eq] at hgap
    rcases hgap with ((rfl | rfl) | rfl) | rfl <;> cases hc
  · rintro rfl
    cases hc

/-- A value does not begin with white space, nor with the end of an array. -/
theorem Spells.exists_cons {j : Json} (h : Spells text j rest) :
    ∃ c text', text = c :: text' ∧ isGap c = false ∧ c ≠ ']' := by
  cases h with
  | num h =>
    obtain ⟨c, text', rfl, hc⟩ := h.exists_cons
    exact ⟨c, text', rfl, isGap_eq_false_of_number hc⟩
  | _ => exact ⟨_, _, rfl, rfl, by decide⟩

theorem Spells.tight {j : Json} (h : Spells text j rest) : Tight text := by
  obtain ⟨c, text', rfl, hc, -⟩ := h.exists_cons
  exact tight_cons hc

theorem SpellsItems.exists_cons {items : List Json} (h : SpellsItems text items rest) :
    ∃ c text', text = c :: text' ∧ isGap c = false ∧ c ≠ ']' := by
  cases h with
  | last h | more h => exact h.exists_cons

theorem SpellsMembers.exists_cons {members : List (String × Json)}
    (h : SpellsMembers text members rest) : ∃ text', text = '"' :: text' := by
  cases h with
  | last h | more h =>
    cases h
    exact ⟨_, rfl⟩

/-- Either an array ends after some white space, or an item stands there. -/
theorem SpellsItems.not_close {after : List Char} {items : List Json}
    (h : SpellsItems text items rest) (hgap : AfterGap after text)
    (hclose : AfterGap after (']' :: rest')) : False := by
  obtain ⟨c, text', rfl, hc, hne⟩ := h.exists_cons
  exact hne (hgap.unique_cons hclose hc rfl).1

/-- Either an object ends after some white space, or a member stands there. -/
theorem SpellsMembers.not_close {after : List Char} {members : List (String × Json)}
    (h : SpellsMembers text members rest) (hgap : AfterGap after text)
    (hclose : AfterGap after ('\x7d' :: rest')) : False := by
  obtain ⟨text', rfl⟩ := h.exists_cons
  cases (hgap.unique_cons hclose rfl rfl).1

theorem SpellsItems.tight {items : List Json} (h : SpellsItems text items rest) : Tight text := by
  obtain ⟨c, text', rfl, hc, -⟩ := h.exists_cons
  exact tight_cons hc

theorem SpellsMembers.tight {members : List (String × Json)}
    (h : SpellsMembers text members rest) : Tight text := by
  obtain ⟨text', rfl⟩ := h.exists_cons
  exact tight_cons rfl

end

/-! ### Unambiguity -/

-- The recursion is on the value: each part of a derivation spells a part of it.
mutual

/-- A text begins with one value at most, and leaves one rest. -/
theorem Spells.unique {text rest rest' : List Char} {j j' : Json} (h : Spells text j rest)
    (h' : Spells text j' rest') : j = j' ∧ rest = rest' := by
  cases h with
  | null =>
    cases h' with
    | null => exact ⟨rfl, rfl⟩
    | num h' => exact absurd h' (not_spellsNumber rfl)
  | yes =>
    cases h' with
    | yes => exact ⟨rfl, rfl⟩
    | num h' => exact absurd h' (not_spellsNumber rfl)
  | no =>
    cases h' with
    | no => exact ⟨rfl, rfl⟩
    | num h' => exact absurd h' (not_spellsNumber rfl)
  | num h =>
    cases h' with
    | num h' =>
      obtain ⟨rfl, rfl⟩ := h.unique h'
      exact ⟨rfl, rfl⟩
    | _ => exact absurd h (not_spellsNumber rfl)
  | str h =>
    cases h' with
    | num h' => exact absurd h' (not_spellsNumber rfl)
    | str h' =>
      obtain ⟨rfl, rfl⟩ := h.unique h'
      exact ⟨rfl, rfl⟩
  | emptyArr hgap =>
    cases h' with
    | num h' => exact absurd h' (not_spellsNumber rfl)
    | emptyArr hgap' => exact ⟨rfl, (hgap.unique_cons hgap' rfl rfl).2⟩
    | arr hgap' h' => exact (h'.not_close hgap' hgap).elim
  | arr hgap h =>
    cases h' with
    | num h' => exact absurd h' (not_spellsNumber rfl)
    | emptyArr hgap' => exact (h.not_close hgap hgap').elim
    | arr hgap' h' =>
      obtain rfl := hgap.unique hgap' h.tight h'.tight
      obtain ⟨rfl, rfl⟩ := h.unique h'
      exact ⟨rfl, rfl⟩
  | emptyObj hgap =>
    cases h' with
    | num h' => exact absurd h' (not_spellsNumber rfl)
    | emptyObj hgap' => exact ⟨rfl, (hgap.unique_cons hgap' rfl rfl).2⟩
    | obj hgap' h' => exact (h'.not_close hgap' hgap).elim
  | obj hgap h =>
    cases h' with
    | num h' => exact absurd h' (not_spellsNumber rfl)
    | emptyObj hgap' => exact (h.not_close hgap hgap').elim
    | obj hgap' h' =>
      obtain rfl := hgap.unique hgap' h.tight h'.tight
      obtain ⟨rfl, rfl⟩ := h.unique h'
      exact ⟨rfl, rfl⟩
termination_by sizeOf j

theorem SpellsItems.unique {text rest rest' : List Char} {items items' : List Json}
    (h : SpellsItems text items rest) (h' : SpellsItems text items' rest') :
    items = items' ∧ rest = rest' := by
  cases h with
  | last h hclose =>
    cases h' with
    | last h' hclose' =>
      obtain ⟨rfl, rfl⟩ := h.unique h'
      exact ⟨rfl, (hclose.unique_cons hclose' rfl rfl).2⟩
    | more h' hcomma' =>
      obtain ⟨rfl, rfl⟩ := h.unique h'
      cases (hclose.unique_cons hcomma' rfl rfl).1
  | more h hcomma hgap hitems =>
    cases h' with
    | last h' hclose' =>
      obtain ⟨rfl, rfl⟩ := h.unique h'
      cases (hcomma.unique_cons hclose' rfl rfl).1
    | more h' hcomma' hgap' hitems' =>
      obtain ⟨rfl, rfl⟩ := h.unique h'
      obtain ⟨-, rfl⟩ := hcomma.unique_cons hcomma' rfl rfl
      obtain rfl := hgap.unique hgap' hitems.tight hitems'.tight
      obtain ⟨rfl, rfl⟩ := hitems.unique hitems'
      exact ⟨rfl, rfl⟩
termination_by sizeOf items

theorem SpellsMember.unique {text rest rest' : List Char} {member member' : String × Json}
    (h : SpellsMember text member rest) (h' : SpellsMember text member' rest') :
    member = member' ∧ rest = rest' := by
  obtain ⟨hkey, hcolon, hgap, h⟩ := h
  obtain ⟨hkey', hcolon', hgap', h'⟩ := h'
  obtain ⟨rfl, rfl⟩ := hkey.unique hkey'
  obtain ⟨-, rfl⟩ := hcolon.unique_cons hcolon' rfl rfl
  obtain rfl := hgap.unique hgap' h.tight h'.tight
  obtain ⟨rfl, rfl⟩ := h.unique h'
  exact ⟨rfl, rfl⟩
termination_by sizeOf member

theorem SpellsMembers.unique {text rest rest' : List Char} {members members' : List (String × Json)}
    (h : SpellsMembers text members rest) (h' : SpellsMembers text members' rest') :
    members = members' ∧ rest = rest' := by
  cases h with
  | last h hclose =>
    cases h' with
    | last h' hclose' =>
      obtain ⟨rfl, rfl⟩ := h.unique h'
      exact ⟨rfl, (hclose.unique_cons hclose' rfl rfl).2⟩
    | more h' hcomma' =>
      obtain ⟨rfl, rfl⟩ := h.unique h'
      cases (hclose.unique_cons hcomma' rfl rfl).1
  | more h hcomma hgap hmembers =>
    cases h' with
    | last h' hclose' =>
      obtain ⟨rfl, rfl⟩ := h.unique h'
      cases (hcomma.unique_cons hclose' rfl rfl).1
    | more h' hcomma' hgap' hmembers' =>
      obtain ⟨rfl, rfl⟩ := h.unique h'
      obtain ⟨-, rfl⟩ := hcomma.unique_cons hcomma' rfl rfl
      obtain rfl := hgap.unique hgap' hmembers.tight hmembers'.tight
      obtain ⟨rfl, rfl⟩ := hmembers.unique hmembers'
      exact ⟨rfl, rfl⟩
termination_by sizeOf members

end

/-- A document has one value. -/
theorem IsDocument.unique {text : String} {j j' : Json} (h : IsDocument text j)
    (h' : IsDocument text j') : j = j' := by
  obtain ⟨first, rest, hgap, hspells, -⟩ := h
  obtain ⟨first', rest', hgap', hspells', -⟩ := h'
  obtain rfl := hgap.unique hgap' hspells.tight hspells'.tight
  exact (hspells.unique hspells').1

end ImportSuffix.Json
