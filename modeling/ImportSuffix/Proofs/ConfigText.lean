import ImportSuffix.Config.Reader
import ImportSuffix.Proofs.Calls
import ImportSuffix.Proofs.JsonForm
import ImportSuffix.Proofs.JsonPrinted

/-!
# Which configuration a text is the written form of

A configuration is read from the members `root` and `patterns` of an object. Their order, their
spelling and what stands among them do not matter: what is read is the value of the one and the
value of the other, with the default in place of what is missing (`Config.parse_eq_ok`). In
particular a configuration is read back from every document of its JSON value.

Of the other members only the form counts. So an object is described by `Json.IsObject` as its keys
with the values of as many members as one likes; a member is left without a value if it has none
that the grammar gives.
-/

namespace ImportSuffix

open Text (bytesOf)

namespace Json

/-! ### Reading a text -/

section

variable {start text after rest s : List Char} {c : Char}

theorem readEscape_letter {l : Char} (h : escapedChar? l = some c) (rest : List Char) :
    readEscape (l :: rest) = .ok (c, rest) := by
  unfold readEscape
  split
  · next heq => cases heq
  · next heq =>
    obtain ⟨rfl, -⟩ := List.cons_eq_cons.1 heq
    cases h
  · next heq =>
    obtain ⟨rfl, rfl⟩ := List.cons_eq_cons.1 heq
    rw [h]

theorem readEscape_unit {n : Nat} (h : readHex text = .ok (n, rest))
    (hhigh : isHighSurrogate n = false) (hlow : isLowSurrogate n = false) :
    readEscape ('u' :: text) = .ok (Char.ofNat n, rest) := by
  simp only [readEscape, h, bind, Except.bind, hhigh, hlow, Bool.false_eq_true, if_false]

/-- A unit that begins a pair is none that ends one. -/
theorem isLowSurrogate_of_isHighSurrogate {n : Nat} (h : isHighSurrogate n = true) :
    isLowSurrogate n = false := by
  simp only [isHighSurrogate, isLowSurrogate, Bool.and_eq_true, decide_eq_true_eq,
    Bool.and_eq_false_iff, decide_eq_false_iff_not] at h ⊢
  omega

theorem readEscape_pair {second : List Char} {high low : Nat}
    (h : readHex text = .ok (high, '\\' :: 'u' :: second)) (hhigh : isHighSurrogate high = true)
    (h' : readHex second = .ok (low, rest)) (hlow : isLowSurrogate low = true) :
    readEscape ('u' :: text) =
      .ok (Char.ofNat (0x10000 + (high - 0xD800) * 0x400 + (low - 0xDC00)), rest) := by
  have hread : readLowSurrogate ('\\' :: 'u' :: second) = .ok (low, rest) := by
    simp only [readLowSurrogate, h', bind, Except.bind, hlow, if_true]
  simp only [readEscape, h, bind, Except.bind, isLowSurrogate_of_isHighSurrogate hhigh, hhigh,
    hread, Bool.false_eq_true, if_false, if_true]

/-- One character is read, then the others. -/
theorem SpellsChar.readChars_eq (h : SpellsChar text c after) {fuel : Nat}
    (hs : readChars fuel after = .ok (s, rest)) :
    readChars (fuel + 1) text = .ok (c :: s, rest) := by
  have hescape : ∀ {escape}, readEscape escape = .ok (c, after) →
      readChars (fuel + 1) ('\\' :: escape) = .ok (c :: s, rest) := by
    intro escape hread
    rw [readChars, if_neg (by decide), if_pos rfl, hread]
    simp only [bind, Except.bind, hs]
  cases h with
  | plain hquote hbackslash hcontrol =>
    rw [readChars, if_neg hquote, if_neg hbackslash, if_neg (Nat.not_lt.2 hcontrol), hs]
    rfl
  | letter h => exact hescape (readEscape_letter h after)
  | unit h hhigh hlow => exact hescape (readEscape_unit h hhigh hlow)
  | pair h hhigh h' hlow => exact hescape (readEscape_pair h hhigh h' hlow)

theorem SpellsChar.length_lt (h : SpellsChar text c after) : after.length < text.length := by
  cases h with
  | plain => exact Nat.lt_succ_self _
  | letter => exact Nat.lt_add_of_pos_right Nat.two_pos
  | unit h =>
    obtain ⟨_, _, _, _, rfl, -⟩ := exists_of_readHex h
    simp only [List.length_cons]
    omega
  | pair h _ h' =>
    obtain ⟨_, _, _, _, rfl, -⟩ := exists_of_readHex h
    obtain ⟨_, _, _, _, rfl, -⟩ := exists_of_readHex h'
    simp only [List.length_cons]
    omega

/-- The bound of the recursion is not reached. -/
theorem SpellsText.readChars_eq (h : SpellsText text s rest) {fuel : Nat}
    (hfuel : text.length ≤ fuel) : readChars fuel text = .ok (s, rest) := by
  induction h generalizing fuel with
  | close =>
    obtain ⟨fuel, rfl⟩ := Nat.exists_eq_succ_of_ne_zero (Nat.ne_of_gt (Nat.zero_lt_of_lt hfuel))
    exact if_pos rfl
  | char h _ ih =>
    have hlen := h.length_lt
    obtain ⟨fuel, rfl⟩ : ∃ n, fuel = n + 1 := Nat.exists_eq_succ_of_ne_zero (by omega)
    exact h.readChars_eq (ih (by omega))

theorem SpellsText.readText_eq (h : SpellsText text s rest) :
    readText text = .ok (String.ofList s, rest) := by
  rw [readText, h.readChars_eq (Nat.le_refl _)]
  rfl

theorem Spells.readWantedText_eq {wanted : String} (h : Spells text (.str wanted) rest)
    (hgap : AfterGap start text) : readWantedText start = .ok (wanted, rest) := by
  cases h with
  | str h =>
    rw [readWantedText, hgap.skipGap_eq (tight_cons rfl)]
    exact h.readText_eq

end

/-! ### Objects of which some values are known -/

/-- A key with the form of a value, which is of this value if one is given. -/
inductive FormsMember : List Char → String × Option Json → List Char → Prop
  | mk {text key after behind value rest : List Char} {j? : Option Json}
      (hkey : SpellsText text key after) (hcolon : AfterGap after (':' :: behind))
      (hgap : AfterGap behind value) (h : Forms .value value rest)
      (hvalue : ∀ j ∈ j?, Spells value j rest) :
      FormsMember ('"' :: text) (String.ofList key, j?) rest

theorem FormsMember.forms {text rest : List Char} {member : String × Option Json}
    (h : FormsMember text member rest) : Forms (.entry .object) text rest := by
  obtain ⟨hkey, hcolon, hgap, h, -⟩ := h
  exact .member hkey.forms hcolon hgap h

/-- The members of an object up to its end, of which there is one at least. -/
inductive FormsMembers : List Char → List (String × Option Json) → List Char → Prop
  | last {text after rest : List Char} {member : String × Option Json}
      (h : FormsMember text member after) (hclose : AfterGap after ('\x7d' :: rest)) :
      FormsMembers text [member] rest
  | more {text after behind next rest : List Char} {member : String × Option Json}
      {members : List (String × Option Json)} (h : FormsMember text member after)
      (hcomma : AfterGap after (',' :: behind)) (hgap : AfterGap behind next)
      (hmembers : FormsMembers next members rest) : FormsMembers text (member :: members) rest

/-- An object after its opening bracket. -/
inductive FormsObject : List Char → List (String × Option Json) → List Char → Prop
  | empty {text rest : List Char} (hclose : AfterGap text ('\x7d' :: rest)) :
      FormsObject text [] rest
  | filled {text first rest : List Char} {members : List (String × Option Json)}
      (hgap : AfterGap text first) (h : FormsMembers first members rest) :
      FormsObject text members rest

/-- That a text is a single JSON document of an object with members of these keys and of the values
that are given, white space around it aside. -/
def IsObject (text : String) (members : List (String × Option Json)) : Prop :=
  ∃ inner rest, AfterGap text.toList ('\x7b' :: inner) ∧ FormsObject inner members rest ∧
    AfterGap rest []

/-- That a key occurs once among some members, with this value, or does not occur if no value is
given. -/
def Once (members : List (String × Option Json)) (key : String) (value? : Option Json) : Prop :=
  members.filter (·.1 == key) = (value?.map fun value => (key, some value)).toList

/-- Members of which all values are known. -/
def known (members : List (String × Json)) : List (String × Option Json) :=
  members.map fun member => (member.1, some member.2)

theorem SpellsMember.formsMember {text rest : List Char} {member : String × Json}
    (h : SpellsMember text member rest) : FormsMember text (member.1, some member.2) rest := by
  obtain ⟨hkey, hcolon, hgap, h⟩ := h
  exact .mk hkey hcolon hgap h.forms fun j hj => Option.some.inj hj ▸ h

theorem SpellsMembers.formsMembers {text rest : List Char} {members : List (String × Json)}
    (h : SpellsMembers text members rest) : FormsMembers text (known members) rest := by
  match members, h with
  | _, .last h hclose => exact .last h.formsMember hclose
  | _, .more h hcomma hgap hmembers =>
    exact .more h.formsMember hcomma hgap hmembers.formsMembers

/-- A document of an object is one with all its members. -/
theorem IsDocument.isObject {text : String} {members : List (String × Json)}
    (h : IsDocument text (.obj members)) : IsObject text (known members) := by
  obtain ⟨first, rest, hgap, h, hend⟩ := h
  cases h with
  | emptyObj hclose => exact ⟨_, rest, hgap, .empty hclose, hend⟩
  | obj hfirst h => exact ⟨_, rest, hgap, .filled hfirst h.formsMembers, hend⟩

section

variable {key : String} {value? : Option Json} {member : String × Option Json}
  {members : List (String × Option Json)}

/-- The first member either is the only one with the key, or has another key. -/
theorem Once.cons_cases (h : Once (member :: members) key value?) :
    (∃ value, value? = some value ∧ member = (key, some value) ∧ Once members key none) ∨
      (member.1 ≠ key ∧ Once members key value?) := by
  by_cases hkey : member.1 = key
  · rw [Once, List.filter_cons, if_pos (beq_iff_eq.2 hkey)] at h
    cases value? with
    | none => cases h
    | some value =>
      obtain ⟨hmember, hrest⟩ := List.cons_eq_cons.1 h
      exact .inl ⟨value, rfl, hmember, hrest⟩
  · rw [Once, List.filter_cons, if_neg (mt beq_iff_eq.1 hkey)] at h
    exact .inr ⟨hkey, h⟩

end

end Json

namespace Config

open Json

/-! ### Reading patterns -/

section

variable {start text behind after rest : List Char} {isFirst : Bool} {items : List Json}

theorem nextEntry_close (hclose : AfterGap start (']' :: rest)) :
    nextEntry isFirst start = .ok none := by
  rw [nextEntry, hclose.skipGap_eq (tight_cons rfl)]
  rfl

theorem nextEntry_first (h : SpellsItems text items rest) (hgap : AfterGap start text) :
    nextEntry true start = .ok (some text) := by
  have hskip := hgap.skipGap_eq h.tight
  obtain ⟨c, text', rfl, -, hne⟩ := h.exists_cons
  rw [nextEntry, hskip]
  split
  · next heq => cases heq
  · next heq => exact absurd (List.cons_eq_cons.1 heq).1 hne
  · next heq =>
    obtain ⟨rfl, rfl⟩ := List.cons_eq_cons.1 heq
    rfl

theorem nextEntry_more (h : SpellsItems text items rest)
    (hcomma : AfterGap start (',' :: behind)) (hgap : AfterGap behind text) :
    nextEntry false start = .ok (some text) := by
  have hskip := hgap.skipGap_eq h.tight
  obtain ⟨c, text', rfl, -, hne⟩ := h.exists_cons
  rw [nextEntry, hcomma.skipGap_eq (tight_cons rfl)]
  refine (if_neg Bool.false_ne_true).trans ((if_pos rfl).trans ?_)
  rw [hskip]
  split
  · next heq => cases heq
  · next heq => exact absurd (List.cons_eq_cons.1 heq).1 hne
  · rfl

theorem readTexts_end {fuel : Nat} (hnext : nextEntry isFirst start = .ok none) :
    readTexts (fuel + 1) isFirst start = .ok ([], start) := by
  simp only [readTexts, hnext, bind, Except.bind]

theorem readTexts_cons {fuel : Nat} {s : String} {texts : List String}
    (hnext : nextEntry isFirst start = .ok (some text))
    (hread : readWantedText text = .ok (s, after))
    (htexts : readTexts fuel false after = .ok (texts, rest)) :
    readTexts (fuel + 1) isFirst start = .ok (s :: texts, rest) := by
  simp only [readTexts, hnext, hread, htexts, bind, Except.bind]

/-- The texts of an array are read up to its end. The bound is not reached, as every step takes some
of the text. -/
theorem readTexts_eq {texts : List String} (h : SpellsItems text (texts.map .str) rest) {fuel : Nat}
    (hfuel : text.length < fuel) (hnext : nextEntry isFirst start = .ok (some text)) :
    ∃ after, readTexts fuel isFirst start = .ok (texts, after) ∧ AfterGap after (']' :: rest) := by
  induction texts generalizing fuel isFirst start text with
  | nil => cases h
  | cons wanted texts ih =>
    obtain ⟨fuel, rfl⟩ := Nat.exists_eq_succ_of_ne_zero (Nat.ne_of_gt (Nat.zero_lt_of_lt hfuel))
    rw [List.map_cons] at h
    generalize hitems : texts.map Json.str = items at h
    cases h with
    | @last _ after _ _ h hclose =>
      obtain rfl := List.map_eq_nil_iff.1 hitems
      have hlen := h.forms.length_le (hclose.endsNumber (endsNumber_close .array rest))
      have hlen' := hclose.length_le
      rw [List.length_cons] at hlen'
      obtain ⟨fuel, rfl⟩ : ∃ n, fuel = n + 1 := Nat.exists_eq_succ_of_ne_zero (by omega)
      exact ⟨after, readTexts_cons hnext (h.readWantedText_eq (afterGap_self _))
        (readTexts_end (nextEntry_close hclose)), hclose⟩
    | @more _ after behind next _ _ _ h hcomma hgap hmore =>
      subst hitems
      have hlen := h.forms.length_le (hcomma.endsNumber (endsNumber_comma behind))
      have hlen' := hcomma.length_le
      have hlen'' := hgap.length_le
      rw [List.length_cons] at hlen'
      have hfuel' : next.length < fuel := by omega
      obtain ⟨last, htexts, hclose⟩ := ih hmore hfuel' (nextEntry_more hmore hcomma hgap)
      exact ⟨last, readTexts_cons hnext (h.readWantedText_eq (afterGap_self _)) htexts, hclose⟩

theorem readPatterns_eq {patterns : List String} (h : Spells text (.strings patterns) rest)
    (hgap : AfterGap start text) : readPatterns start = .ok (patterns, rest) := by
  -- What remains of the bracket once its texts are read.
  have hbracket : ∀ {inner after}, AfterGap start ('[' :: inner) →
      readTexts (inner.length + 1) true inner = .ok (patterns, after) →
      AfterGap after (']' :: rest) → readPatterns start = .ok (patterns, rest) := by
    intro inner after hopen htexts hclose
    rw [readPatterns, hopen.skipGap_eq (tight_cons rfl)]
    simp only [htexts, endArray, hclose.expect_eq rfl, bind, Except.bind]
  generalize hj : Json.strings patterns = j at h
  cases h with
  | emptyArr hclose =>
    obtain rfl := List.map_eq_nil_iff.1 (Json.arr.inj hj)
    exact hbracket hgap (readTexts_end (nextEntry_close hclose)) hclose
  | arr hfirst h =>
    obtain rfl := Json.arr.inj hj
    have hlen := hfirst.length_le
    obtain ⟨after, htexts, hclose⟩ := readTexts_eq h (Nat.lt_succ_of_le hlen)
      (nextEntry_first h hfirst)
    exact hbracket hgap htexts hclose
  | _ => cases hj

end

/-! ### Reading members -/

section

variable {start text behind after value rest : List Char} {isFirst : Bool} {d : Draft}

theorem nextMember_close (hclose : AfterGap start ('\x7d' :: rest)) :
    nextMember isFirst start = .ok none := by
  rw [nextMember, hclose.skipGap_eq (tight_cons rfl)]
  rfl

theorem nextMember_first (hgap : AfterGap start ('"' :: text)) :
    nextMember true start = .ok (some text) := by
  rw [nextMember, hgap.skipGap_eq (tight_cons rfl)]
  rfl

theorem nextMember_more (hcomma : AfterGap start (',' :: behind))
    (hgap : AfterGap behind ('"' :: text)) : nextMember false start = .ok (some text) := by
  rw [nextMember, hcomma.skipGap_eq (tight_cons rfl)]
  refine (if_neg Bool.false_ne_true).trans ((if_pos rfl).trans ?_)
  rw [hgap.expect_eq rfl]
  rfl

theorem readMember_root {root : String} (hcolon : AfterGap after (':' :: behind))
    (hgap : AfterGap behind value) (h : Spells value (.str root) rest) (hd : d.root = none) :
    readMember d "root" after = .ok (⟨some root, d.patterns⟩, rest) := by
  rw [readMember, if_pos rfl, hd, if_neg (by decide), hcolon.expect_eq rfl]
  simp only [h.readWantedText_eq hgap, bind, Except.bind]

theorem readMember_patterns {patterns : List String} (hcolon : AfterGap after (':' :: behind))
    (hgap : AfterGap behind value) (h : Spells value (.strings patterns) rest)
    (hd : d.patterns = none) :
    readMember d "patterns" after = .ok (⟨d.root, some patterns⟩, rest) := by
  rw [readMember, if_neg (by decide), if_pos rfl, hd, if_neg (by decide), hcolon.expect_eq rfl]
  simp only [readPatterns_eq h hgap, bind, Except.bind]

theorem readMember_other {key : String} (hroot : key ≠ "root") (hpatterns : key ≠ "patterns")
    (hcolon : AfterGap after (':' :: behind)) (hgap : AfterGap behind value)
    (h : Forms .value value rest) (hrest : EndsNumber rest) :
    readMember d key after = .ok (d, rest) := by
  rw [readMember, if_neg hroot, if_neg hpatterns, hcolon.expect_eq rfl]
  simp only [h.skipValue_eq hgap hrest, bind, Except.bind]

theorem readMembers_end {fuel : Nat} (hnext : nextMember isFirst start = .ok none) :
    readMembers (fuel + 1) isFirst d start = .ok (d, start) := by
  simp only [readMembers, hnext, bind, Except.bind]

theorem readMembers_cons {fuel : Nat} {key : String} {next last : List Char} {d' final : Draft}
    (hnext : nextMember isFirst start = .ok (some text)) (hkey : readText text = .ok (key, after))
    (hmember : readMember d key after = .ok (d', next))
    (hmembers : readMembers fuel false d' next = .ok (final, last)) :
    readMembers (fuel + 1) isFirst d start = .ok (final, last) := by
  simp only [readMembers, hnext, hkey, hmember, hmembers, bind, Except.bind]

end

/-! ### From one draft to another -/

/-- That some members complete one part of a draft: either the part stays as it is and the key does
not occur, or it is missing and the key occurs once. -/
inductive Completes {α : Type} (encode : α → Json) (key : String)
    (members : List (String × Option Json)) : Option α → Option α → Prop
  | kept {part? : Option α} (h : Once members key none) : Completes encode key members part? part?
  | filled {part : α} (h : Once members key (some (encode part))) :
      Completes encode key members none (some part)

/-- That some members complete a draft. -/
structure Draft.Becomes (d : Draft) (members : List (String × Option Json)) (final : Draft) :
    Prop where
  root : Completes .str "root" members d.root final.root
  patterns : Completes .strings "patterns" members d.patterns final.patterns

section

variable {α : Type} {encode : α → Json} {key : String} {member : String × Option Json}
  {members : List (String × Option Json)} {part? part?' : Option α}

theorem completes_none (h : Once members key (part?.map encode)) :
    Completes encode key members none part? := by
  cases part? with
  | none => exact .kept h
  | some part => exact .filled h

theorem Completes.eq_of_nil (h : Completes encode key [] part? part?') : part? = part?' := by
  cases h with
  | kept => rfl
  | filled h => cases h

/-- The first member either fills the part, or has another key. -/
theorem Completes.cons_cases (h : Completes encode key (member :: members) part? part?') :
    (∃ part, member = (key, some (encode part)) ∧ part? = none ∧
      Completes encode key members (some part) part?') ∨
    (member.1 ≠ key ∧ Completes encode key members part? part?') := by
  cases h with
  | kept h =>
    obtain ⟨_, hvalue, -⟩ | ⟨hkey, h⟩ := h.cons_cases
    · cases hvalue
    · exact .inr ⟨hkey, .kept h⟩
  | filled h =>
    obtain ⟨_, hvalue, hmember, h⟩ | ⟨hkey, h⟩ := h.cons_cases
    · cases hvalue
      exact .inl ⟨_, hmember, rfl, .kept h⟩
    · exact .inr ⟨hkey, .filled h⟩

theorem Draft.Becomes.eq_of_nil {d final : Draft} (h : d.Becomes [] final) : d = final := by
  cases d
  cases final
  exact Draft.mk.injEq .. ▸ ⟨h.root.eq_of_nil, h.patterns.eq_of_nil⟩

/-- One member is taken into the draft, and the others complete what comes of it. -/
theorem Draft.Becomes.exists_readMember {d final : Draft} {text rest : List Char}
    (h : d.Becomes (member :: members) final) (hmember : FormsMember text member rest)
    (hrest : EndsNumber rest) :
    ∃ inner after d', text = '"' :: inner ∧ readText inner = .ok (member.1, after) ∧
      readMember d member.1 after = .ok (d', rest) ∧ d'.Becomes members final := by
  obtain @⟨text, key, after, behind, value, rest, j?, hkey, hcolon, hgap, hform, hvalue⟩ := hmember
  suffices hread : ∃ d', readMember d (String.ofList key) after = .ok (d', rest) ∧
      d'.Becomes members final by
    obtain ⟨d', hread, hbecomes⟩ := hread
    exact ⟨text, after, d', rfl, hkey.readText_eq, hread, hbecomes⟩
  obtain ⟨root, heq, hd, hroot⟩ | ⟨hneRoot, hroot⟩ := h.root.cons_cases
  · obtain ⟨hkeyRoot, rfl⟩ := Prod.mk.inj heq
    rw [hkeyRoot] at h ⊢
    obtain ⟨_, heq', -⟩ | ⟨-, hpatterns⟩ := h.patterns.cons_cases
    · exact absurd (Prod.mk.inj heq').1 (by decide)
    · exact ⟨_, readMember_root hcolon hgap (hvalue _ rfl) hd, hroot, hpatterns⟩
  · obtain ⟨patterns, heq, hd, hpatterns⟩ | ⟨hnePatterns, hpatterns⟩ := h.patterns.cons_cases
    · obtain ⟨hkeyPatterns, rfl⟩ := Prod.mk.inj heq
      rw [hkeyPatterns]
      exact ⟨_, readMember_patterns hcolon hgap (hvalue _ rfl) hd, hroot, hpatterns⟩
    · exact ⟨d, readMember_other hneRoot hnePatterns hcolon hgap hform hrest, hroot, hpatterns⟩

/-- The members of an object are read up to its end. The bound is not reached, as every step takes
some of the text. -/
theorem readMembers_eq {text rest : List Char} (h : FormsMembers text members rest) {fuel : Nat}
    (hfuel : text.length < fuel) {isFirst : Bool} {start : List Char}
    (hnext : ∀ inner, text = '"' :: inner → nextMember isFirst start = .ok (some inner))
    {d final : Draft} (hbecomes : d.Becomes members final) :
    ∃ after, readMembers fuel isFirst d start = .ok (final, after) ∧
      AfterGap after ('\x7d' :: rest) := by
  induction h generalizing fuel isFirst start d with
  | @last text after rest member h hclose =>
    have hend := hclose.endsNumber (endsNumber_close .object rest)
    have hlen := h.forms.length_le hend
    have hlen' := hclose.length_le
    rw [List.length_cons] at hlen'
    obtain ⟨fuel, rfl⟩ : ∃ n, fuel = n + 2 := ⟨fuel - 2, by omega⟩
    obtain ⟨inner, _, d', rfl, hkey, hmember, hbecomes'⟩ := hbecomes.exists_readMember h hend
    obtain rfl : d' = final := hbecomes'.eq_of_nil
    exact ⟨after, readMembers_cons (hnext inner rfl) hkey hmember
      (readMembers_end (nextMember_close hclose)), hclose⟩
  | @more text after behind next rest member members h hcomma hgap hmembers ih =>
    have hend := hcomma.endsNumber (endsNumber_comma behind)
    have hlen := h.forms.length_le hend
    have hlen' := hcomma.length_le
    have hlen'' := hgap.length_le
    rw [List.length_cons] at hlen'
    obtain ⟨fuel, rfl⟩ : ∃ n, fuel = n + 1 := ⟨fuel - 1, by omega⟩
    obtain ⟨inner, _, d', rfl, hkey, hmember, hbecomes'⟩ := hbecomes.exists_readMember h hend
    have hnext' : ∀ inner, next = '"' :: inner → nextMember false after = .ok (some inner) := by
      rintro inner rfl
      exact nextMember_more hcomma hgap
    have hfuel' : next.length < fuel := by omega
    obtain ⟨last, hread, hclose⟩ := ih hfuel' hnext' hbecomes'
    exact ⟨last, readMembers_cons (hnext inner rfl) hkey hmember hread, hclose⟩

end

/-! ### The configuration of a text -/

theorem readDraft_eq {text inner rest : List Char} {members : List (String × Option Json)}
    {final : Draft} (hgap : AfterGap text ('\x7b' :: inner)) (h : FormsObject inner members rest)
    (hbecomes : Draft.Becomes ⟨none, none⟩ members final) :
    readDraft text = .ok (final, rest) := by
  suffices hread : ∃ after, readMembers (inner.length + 1) true ⟨none, none⟩ inner =
      .ok (final, after) ∧ AfterGap after ('\x7d' :: rest) by
    obtain ⟨after, hread, hclose⟩ := hread
    rw [readDraft, hgap.skipGap_eq (tight_cons rfl)]
    simp only [hread, hclose.expect_eq rfl, bind, Except.bind]
  cases h with
  | empty hclose =>
    obtain rfl := hbecomes.eq_of_nil
    exact ⟨inner, readMembers_end (nextMember_close hclose), hclose⟩
  | filled hfirst h =>
    refine readMembers_eq h (Nat.lt_succ_of_le hfirst.length_le) ?_ hbecomes
    rintro inner rfl
    exact nextMember_first hfirst

theorem parse_of_isObject {text : String} {members : List (String × Option Json)}
    {root? : Option String} {patterns? : Option (List String)} (h : IsObject text members)
    (hroot : Once members "root" (root?.map .str))
    (hpatterns : Once members "patterns" (patterns?.map .strings)) :
    parse text = .ok ⟨bytesOf (root?.getD defaultRoot), patterns?.getD defaultPatterns⟩ := by
  obtain ⟨inner, rest, hgap, hobject, hend⟩ := h
  have hbecomes : Draft.Becomes ⟨none, none⟩ members ⟨root?, patterns?⟩ :=
    ⟨completes_none hroot, completes_none hpatterns⟩
  simp only [parse, readDraft_eq hgap hobject hbecomes, bind, Except.bind,
    hend.skipGap_eq fun _ hc => nomatch hc]
  rfl

theorem parse_of_isDocument {text root : String} {members : List (String × Json)}
    {patterns : List String} (h : IsDocument text (.obj members))
    (hroot : Once (known members) "root" (some (.str root)))
    (hpatterns : Once (known members) "patterns" (some (.strings patterns))) :
    parse text = .ok ⟨bytesOf root, patterns⟩ :=
  @parse_of_isObject _ _ (some root) (some patterns) h.isObject hroot hpatterns

/-- The JSON value of the configuration with some text for its root. -/
def written (root : String) (patterns : List String) : Json :=
  .obj [("root", .str root), ("patterns", .strings patterns)]

theorem toJson_of_root {c : Config} {root : String} (h : c.root = bytesOf root) :
    c.toJson = .ok (written root c.patterns) := by
  rw [toJson, Text.decode?_eq_some_iff.2 h]
  rfl

theorem canonical_written (root : String) (patterns : List String) :
    (written root patterns).canonical =
      .obj [("patterns", .strings patterns), ("root", .str root)] := by
  simp (disch := decide) only [written, Json.canonical_obj, Json.canonicalMembers,
    Json.canonical_str, canonical_strings, insertMember_nil, insertMember_of_not_lt]
  rfl

/-- What is read from an object is the text of its member `root` and the texts of its member
`patterns`, each with its default if there is no such member, whatever other members there are and
however all of them are spelled. So a configuration whose root is a text is read back from each
document of its JSON value, with the members in either order. -/
theorem parse_eq_ok :
    (∀ (text : String) (members : List (String × Option Json)) (root? : Option String)
      (patterns? : Option (List String)), IsObject text members →
      Once members "root" (root?.map .str) → Once members "patterns" (patterns?.map .strings) →
      parse text = .ok ⟨bytesOf (root?.getD defaultRoot), patterns?.getD defaultPatterns⟩) ∧
    (∀ (c : Config) (root : String), c.root = bytesOf root →
      ∃ j, c.toJson = .ok j ∧ parse j.print = .ok c ∧
        ∀ text, IsDocument text j ∨ IsDocument text j.canonical → parse text = .ok c) := by
  refine ⟨fun _ _ _ _ => parse_of_isObject, fun c root hroot => ?_⟩
  obtain ⟨_, patterns⟩ := c
  obtain rfl := hroot
  have hread : ∀ text, IsDocument text (written root patterns) ∨
      IsDocument text (written root patterns).canonical →
      parse text = .ok ⟨bytesOf root, patterns⟩ := by
    rintro text (h | h)
    · exact parse_of_isDocument h rfl rfl
    · rw [canonical_written] at h
      exact parse_of_isDocument h rfl rfl
  exact ⟨written root patterns, toJson_of_root rfl,
    hread _ (.inl ((isDocument_print_iff _ _).2 rfl)), hread⟩

/-- A text with a member that is skipped, in which there are a fraction and half of a pair, and with
escapes in a key and in both values. -/
def escapedText : String :=
  String.ofList ['\x7b', '"', 'n', '"', ':', '[', '1', '.', '5', 'e', '-', '3', ',', '"', '\\', 'u',
    'd', '8', '0', '0', '"', ']', ',', '"', 'p', 'a', 't', 't', 'e', 'r', 'n', 's', '"', ':', '[',
    '"', '\\', 'u', '0', '0', '2', 'a', '"', ']', '\n', ',', ' ', '"', 'r', '\\', 'u', '0', '0',
    '6', 'f', 'o', 't', '"', ':', '"', '\\', '/', '\\', 'u', 'd', '8', '3', 'd', '\\', 'u', 'd',
    'e', '0', '0', '"', '\x7d', '\n']

/-- What is read from it, the members in the order in which they stand, and in the text of an object
without members. -/
theorem parse_eq_ok_escaped :
    parse escapedText = .ok ⟨bytesOf (String.ofList ['/', Char.ofNat 0x1F600]), ["*"]⟩ ∧
      parse (String.ofList ['\x7b', '\x7d']) = .ok default := by
  have hdigit {c : Char} (hc : c.isDigit = true) : ∀ d ∈ [c], d.isDigit = true :=
    fun d hd => List.mem_singleton.1 hd ▸ hc
  have hnumber : IsNumber ['1', '.', '5', 'e', '-', '3'] :=
    .nonneg (@IsUnsigned.mk ['1'] ['.', '5'] ['e', '-', '3'] ⟨by decide, hdigit rfl, by decide⟩
      (.point ⟨by decide, hdigit rfl⟩) (.signed (.inl rfl) (.inr rfl) ⟨by decide, hdigit rfl⟩))
  have hskipped (rest : List Char) : Forms .value ('[' :: '1' :: '.' :: '5' :: 'e' :: '-' :: '3' ::
      ',' :: '"' :: '\\' :: 'u' :: 'd' :: '8' :: '0' :: '0' :: '"' :: ']' :: rest) rest :=
    @Forms.filled .array _ _ _ (afterGap_self _) (.more (.item (.number hnumber))
      (afterGap_self _) (afterGap_self _) (@Forms.last .array _ _ _
        (.item (.text (.unit rfl rfl rfl rfl .close))) (afterGap_self _)))
  have hfirst (rest : List Char) : FormsMember ('"' :: 'n' :: '"' :: ':' :: '[' :: '1' :: '.' ::
      '5' :: 'e' :: '-' :: '3' :: ',' :: '"' :: '\\' :: 'u' :: 'd' :: '8' :: '0' :: '0' :: '"' ::
      ']' :: rest) ("n", none) rest :=
    .mk (spellsText_escaped ['n'] _) (afterGap_self _) (afterGap_self _) (hskipped rest)
      fun _ h => nomatch h
  have hpatterns (rest : List Char) : FormsMember ('"' :: 'p' :: 'a' :: 't' :: 't' :: 'e' :: 'r' ::
      'n' :: 's' :: '"' :: ':' :: '[' :: '"' :: '\\' :: 'u' :: '0' :: '0' :: '2' :: 'a' :: '"' ::
      ']' :: rest) ("patterns", some (.strings [String.ofList ['*']])) rest :=
    SpellsMember.formsMember (.mk (spellsText_escaped ['p', 'a', 't', 't', 'e', 'r', 'n', 's'] _)
      (afterGap_self _) (afterGap_self _) (.arr (afterGap_self _)
        (.last (.str (.char (.unit (n := 0x2A) rfl rfl rfl) .close)) (afterGap_self _))))
  have hroot (rest : List Char) : FormsMember ('"' :: 'r' :: '\\' :: 'u' :: '0' :: '0' :: '6' ::
      'f' :: 'o' :: 't' :: '"' :: ':' :: '"' :: '\\' :: '/' :: '\\' :: 'u' :: 'd' :: '8' :: '3' ::
      'd' :: '\\' :: 'u' :: 'd' :: 'e' :: '0' :: '0' :: '"' :: rest)
      ("root", some (.str (String.ofList ['/', Char.ofNat 0x1F600]))) rest :=
    SpellsMember.formsMember (.mk (.char (.plain (by decide) (by decide) (by decide))
      (.char (.unit (n := 0x6F) rfl rfl rfl) (spellsText_escaped ['o', 't'] _)))
      (afterGap_self _) (afterGap_self _) (.str (.char (.letter rfl)
        (.char (@SpellsChar.pair _ _ _ 0xD83D 0xDE00 rfl rfl rfl rfl) .close))))
  have hmembers := FormsMembers.more (hfirst _) (afterGap_self _) (afterGap_self _)
    (.more (hpatterns _) (afterGap_cons (c := '\n') rfl _) (afterGap_cons (c := ' ') rfl _)
      (.last (hroot _) (afterGap_self ('\x7d' :: ['\n']))))
  have hobject : IsObject escapedText [("n", none),
      ("patterns", some (.strings [String.ofList ['*']])),
      ("root", some (.str (String.ofList ['/', Char.ofNat 0x1F600])))] :=
    ⟨_, ['\n'], ⟨[], List.forall_mem_nil _, String.toList_ofList⟩,
      .filled (afterGap_self _) hmembers, afterGap_cons (c := '\n') rfl _⟩
  have hempty : IsObject (String.ofList ['\x7b', '\x7d']) [] :=
    ⟨['\x7d'], [], ⟨[], List.forall_mem_nil _, String.toList_ofList⟩, .empty (afterGap_self _),
      afterGap_self _⟩
  exact ⟨parse_eq_ok.1 _ _ (some _) (some [String.ofList ['*']]) hobject rfl rfl,
    parse_eq_ok.1 _ _ none none hempty rfl rfl⟩

end Config

end ImportSuffix
