import ImportSuffix.Json.Printer
import ImportSuffix.Proofs.JsonGrammar

/-!
# The printed form is a document

The printed form of a value is a document of that value and of no other
(`isDocument_print_iff`). Each part of the printer writes what the grammar reads: a character
as it is escaped, a number as its decimal digits, and the items and members with the line breaks
between them as white space. As a number ends only where no digit follows, every value is printed in
front of a text that does not begin with one.
-/

namespace ImportSuffix.Json

/-! ### Texts in quotes -/

theorem hexValue?_hexDigit : ∀ n < 16, hexValue? (hexDigit n) = some n := by decide

/-- The number of a control character is read back. -/
theorem readHex_of_lt {n : Nat} (h : n < 0x20) (rest : List Char) :
    readHex ('0' :: '0' :: hexDigit (n / 16) :: hexDigit (n % 16) :: rest) = .ok (n, rest) := by
  have hzero : hexValue? '0' = some 0 := by decide
  simp only [readHex, hzero, hexValue?_hexDigit (n / 16) (by omega),
    hexValue?_hexDigit (n % 16) (by omega)]
  congr 2
  omega

theorem spellsChar_escapeChar (c : Char) (rest : List Char) :
    SpellsChar (escapeChar c ++ rest) c rest := by
  fun_cases escapeChar c with
  | case8 _ _ _ _ _ _ _ _ hcontrol =>
    have hunit : SpellsChar ('\\' :: 'u' :: '0' :: '0' :: hexDigit (c.toNat / 16) ::
        hexDigit (c.toNat % 16) :: rest) (Char.ofNat c.toNat) rest :=
      .unit (readHex_of_lt hcontrol rest)
        (by simp only [isHighSurrogate, Bool.and_eq_false_iff, decide_eq_false_iff_not]; omega)
        (by simp only [isLowSurrogate, Bool.and_eq_false_iff, decide_eq_false_iff_not]; omega)
    rwa [Char.ofNat_toNat c] at hunit
  | case9 _ hquote hbackslash _ _ _ _ _ hcontrol =>
    exact .plain hquote hbackslash (Nat.le_of_not_lt hcontrol)
  | _ => exact .letter rfl

theorem spellsText_escaped (s rest : List Char) :
    SpellsText (s.flatMap escapeChar ++ '"' :: rest) s rest := by
  induction s with
  | nil => exact .close
  | cons c s ih =>
    rw [List.flatMap_cons, List.append_assoc]
    exact .char (spellsChar_escapeChar c _) ih

theorem printString_append (s : String) (rest : List Char) :
    printString s ++ rest = '"' :: (s.toList.flatMap escapeChar ++ '"' :: rest) := by
  simp [printString]

theorem spells_printString (s : String) (rest : List Char) :
    Spells (printString s ++ rest) (str s) rest := by
  have h := Spells.str (spellsText_escaped s.toList rest)
  rwa [String.ofList_toList, ← printString_append] at h

/-! ### Numbers -/

/-- Only zero is written with a zero in front. -/
theorem head?_toDigits_ne (n : Nat) (h : 0 < n) : (Nat.toDigits 10 n).head? ≠ some '0' := by
  induction n using Nat.strongRecOn with
  | ind n ih =>
    by_cases hsmall : n < 10
    · rw [Nat.toDigits_of_lt_base hsmall, List.head?_cons]
      have hdigit : ∀ n < 10, 0 < n → some (Nat.digitChar n) ≠ some '0' := by decide
      exact hdigit n hsmall h
    · rw [Nat.toDigits_of_base_le (by decide) (by omega), List.head?_append,
        List.head?_eq_some_head Nat.toDigits_ne_nil, Option.some_or,
        ← List.head?_eq_some_head Nat.toDigits_ne_nil]
      exact ih (n / 10) (by omega) (by omega)

theorem isNumeral_toDigits (n : Nat) : IsNumeral (Nat.toDigits 10 n) where
  ne_nil := Nat.toDigits_ne_nil
  digit c hc := Nat.isDigit_of_mem_toDigits (by decide) (Nat.le_refl 10) hc
  zero hhead := by
    obtain rfl : n = 0 := by
      rcases Nat.eq_zero_or_pos n with hn | hn
      · exact hn
      · exact absurd hhead (head?_toDigits_ne n hn)
    rw [Nat.toDigits_of_lt_base (by decide)]
    rfl

theorem spellsNatural_repr (n : Nat) {rest : List Char}
    (hrest : ∀ c ∈ rest.head?, c.isDigit = false) :
    SpellsNatural (n.repr.toList ++ rest) n rest :=
  ⟨_, isNumeral_toDigits n, by rw [Nat.toList_repr], hrest,
    (Nat.ofDigitChars_toDigits (by decide) (Nat.le_refl 10)).symm⟩

theorem spellsNumber_toString (n : Int) {rest : List Char}
    (hrest : ∀ c ∈ rest.head?, c.isDigit = false) :
    SpellsNumber ((toString n).toList ++ rest) n rest := by
  cases n with
  | ofNat n => exact .nonneg (spellsNatural_repr n hrest)
  | negSucc n =>
    have htext : (toString (Int.negSucc n)).toList = '-' :: (n + 1).repr.toList :=
      String.toList_append
    rw [htext]
    exact .neg (spellsNatural_repr (n + 1) hrest)

/-! ### Values -/

theorem afterGap_lineBreak (level : Nat) (text : List Char) :
    AfterGap (lineBreak level ++ text) text := by
  refine ⟨lineBreak level, fun c hc => ?_, rfl⟩
  rcases List.mem_cons.1 hc with rfl | hc
  · rfl
  · rw [List.eq_of_mem_replicate hc]
    rfl

theorem not_isDigit_lineBreak (level : Nat) (text : List Char) :
    ∀ c ∈ (lineBreak level ++ text).head?, c.isDigit = false :=
  fun _ hc => Option.some.inj hc ▸ rfl

theorem not_isDigit_printItems (level : Nat) (items : List Json) (below : Nat) (text : List Char) :
    ∀ c ∈ (printItems level items ++ (lineBreak below ++ text)).head?, c.isDigit = false := by
  cases items with
  | nil => exact not_isDigit_lineBreak below text
  | cons => exact fun _ hc => Option.some.inj hc ▸ rfl

theorem not_isDigit_printMembers (level : Nat) (members : List (String × Json)) (below : Nat)
    (text : List Char) :
    ∀ c ∈ (printMembers level members ++ (lineBreak below ++ text)).head?, c.isDigit = false := by
  cases members with
  | nil => exact not_isDigit_lineBreak below text
  | cons => exact fun _ hc => Option.some.inj hc ▸ rfl

theorem spellsMember_print {text rest : List Char} (key : String) {value : Json}
    (h : Spells text value rest) :
    SpellsMember (printString key ++ (':' :: ' ' :: text)) (key, value) rest := by
  have hmember := SpellsMember.mk (spellsText_escaped key.toList _) (afterGap_self _)
    (afterGap_cons (c := ' ') rfl _) h
  rwa [String.ofList_toList, ← printString_append] at hmember

theorem printAt_arr_append (level : Nat) (item : Json) (items : List Json) (rest : List Char) :
    printAt level (arr (item :: items)) ++ rest = '[' :: (lineBreak (level + 1) ++
      (printAt (level + 1) item ++ (printItems (level + 1) items ++
        (lineBreak level ++ ']' :: rest)))) := by
  change ('[' :: lineBreak (level + 1) ++ printAt (level + 1) item ++
    printItems (level + 1) items ++ lineBreak level ++ [']']) ++ rest = _
  simp only [List.append_assoc, List.cons_append, List.nil_append]

theorem printAt_obj_append (level : Nat) (key : String) (value : Json)
    (members : List (String × Json)) (rest : List Char) :
    printAt level (obj ((key, value) :: members)) ++ rest = '\x7b' :: (lineBreak (level + 1) ++
      (printString key ++ ':' :: ' ' :: (printAt (level + 1) value ++
        (printMembers (level + 1) members ++ (lineBreak level ++ '\x7d' :: rest))))) := by
  change ('\x7b' :: lineBreak (level + 1) ++ printString key ++ [':', ' '] ++
    printAt (level + 1) value ++ printMembers (level + 1) members ++ lineBreak level ++
      ['\x7d']) ++ rest = _
  simp only [List.append_assoc, List.cons_append, List.nil_append]

theorem printItems_cons_append (level : Nat) (item : Json) (items : List Json) (rest : List Char) :
    printItems level (item :: items) ++ rest =
      ',' :: (lineBreak level ++ (printAt level item ++ (printItems level items ++ rest))) := by
  change (',' :: lineBreak level ++ printAt level item ++ printItems level items) ++ rest = _
  simp only [List.append_assoc, List.cons_append]

theorem printMembers_cons_append (level : Nat) (key : String) (value : Json)
    (members : List (String × Json)) (rest : List Char) :
    printMembers level ((key, value) :: members) ++ rest =
      ',' :: (lineBreak level ++ (printString key ++ ':' :: ' ' :: (printAt level value ++
        (printMembers level members ++ rest)))) := by
  change (',' :: lineBreak level ++ printString key ++ [':', ' '] ++ printAt level value ++
    printMembers level members) ++ rest = _
  simp only [List.append_assoc, List.cons_append, List.nil_append]

mutual

/-- A printed value is read back, whatever follows it, unless that is a digit. -/
theorem spells_printAt (level : Nat) (j : Json) {rest : List Char}
    (hrest : ∀ c ∈ rest.head?, c.isDigit = false) : Spells (printAt level j ++ rest) j rest := by
  match j with
  | null => exact .null
  | bool true => exact .yes
  | bool false => exact .no
  | num n => exact .num (spellsNumber_toString n hrest)
  | str s => exact spells_printString s rest
  | arr [] => exact .emptyArr (afterGap_self _)
  | arr (item :: items) =>
    rw [printAt_arr_append]
    exact .arr (afterGap_lineBreak _ _) (spellsItems_printItems items
      (spells_printAt (level + 1) item (not_isDigit_printItems _ items _ _)))
  | obj [] => exact .emptyObj (afterGap_self _)
  | obj ((key, value) :: members) =>
    rw [printAt_obj_append]
    exact .obj (afterGap_lineBreak _ _) (spellsMembers_printMembers members (spellsMember_print key
      (spells_printAt (level + 1) value (not_isDigit_printMembers _ members _ _))))

/-- The printed items after the first one are read back. -/
theorem spellsItems_printItems {level below : Nat} {text rest : List Char} {item : Json}
    (items : List Json)
    (h : Spells text item (printItems level items ++ (lineBreak below ++ ']' :: rest))) :
    SpellsItems text (item :: items) rest := by
  match items with
  | [] => exact .last h (afterGap_lineBreak _ _)
  | item' :: items =>
    rw [printItems_cons_append] at h
    exact .more h (afterGap_self _) (afterGap_lineBreak _ _) (spellsItems_printItems items
      (spells_printAt level item' (not_isDigit_printItems _ items _ _)))

/-- The printed members after the first one are read back. -/
theorem spellsMembers_printMembers {level below : Nat} {text rest : List Char}
    {member : String × Json} (members : List (String × Json))
    (h : SpellsMember text member
      (printMembers level members ++ (lineBreak below ++ '\x7d' :: rest))) :
    SpellsMembers text (member :: members) rest := by
  match members with
  | [] => exact .last h (afterGap_lineBreak _ _)
  | (key, value) :: members =>
    rw [printMembers_cons_append] at h
    exact .more h (afterGap_self _) (afterGap_lineBreak _ _) (spellsMembers_printMembers members
      (spellsMember_print key (spells_printAt level value
        (not_isDigit_printMembers _ members _ _))))

end

theorem isDigit_of_isGap {c : Char} (h : isGap c = true) : c.isDigit = false := by
  simp only [isGap, Bool.or_eq_true, beq_iff_eq] at h
  rcases h with ((rfl | rfl) | rfl) | rfl <;> rfl

/-- The printed form of a value, with any white space behind it, is a document of this value and of
no other. -/
theorem isDocument_print_append_iff (j j' : Json) {gap : String}
    (hgap : ∀ c ∈ gap.toList, isGap c = true) : IsDocument (j.print ++ gap) j' ↔ j' = j := by
  have h : IsDocument (j.print ++ gap) j := by
    have hend : ∀ c ∈ gap.toList.head?, c.isDigit = false :=
      fun c hc => isDigit_of_isGap (hgap c (List.mem_of_mem_head? hc))
    refine ⟨_, gap.toList, ?_, spells_printAt 0 j hend, gap.toList, hgap, ?_⟩
    · rw [print, String.toList_append, String.toList_ofList]
      exact afterGap_self _
    · rw [List.append_nil]
  exact ⟨fun h' => h'.unique h, fun heq => heq ▸ h⟩

/-- The printed form of a value is a document of this value and of no other. -/
theorem isDocument_print_iff (j j' : Json) : IsDocument j.print j' ↔ j' = j := by
  have hgap : ∀ c ∈ "".toList, isGap c = true := List.all_eq_true.1 (by decide)
  have h := isDocument_print_append_iff j j' hgap
  rwa [String.append_empty] at h

end ImportSuffix.Json
