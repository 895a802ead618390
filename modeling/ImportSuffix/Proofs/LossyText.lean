import ImportSuffix.Text.Interval
import ImportSuffix.Text.Utf8
import Mathlib.Data.List.Induction
import Mathlib.Tactic.Ring

/-!
# The ASCII characters of a rendered name

Rendering a byte string as text replaces bytes that encode nothing, which changes lengths, and the
patterns for file names are matched against the encoding of the rendering. Neither touches ASCII:
an ASCII byte is read as the character it encodes, whatever is in front of it
(`decodeLossy_append_cons`), and no other byte makes an ASCII character, as the values that a
pending character can still come to are valid and not ASCII (`Pending.Sound`). So a byte string ends
in an ASCII text exactly if its rendering does (`suffix_decodeLossy_iff`).

Encodings end alike exactly if the texts do, as no character begins within another
(`encode_suffix_encode_iff`).
-/

namespace ImportSuffix.Text

/-- That a text is ASCII. -/
def Ascii (text : List Char) : Prop := ∀ c ∈ text, c.toNat < 0x80

instance (text : List Char) : Decidable (Ascii text) :=
  decidable_of_iff (text.all fun c => c.toNat < 0x80) (by simp [Ascii])

/-! ### Encoded characters -/

variable {c d : Char} {b : UInt8} {s t : List Char} {bytes : Bytes}

theorem utf8EncodeChar_of_lt (h : c.toNat < 0x80) :
    String.utf8EncodeChar c = [UInt8.ofNat c.toNat] := by
  have hle : c.val.toNat ≤ 127 := Nat.le_of_lt_succ h
  rw [String.utf8EncodeChar.eq_1, if_pos hle]
  rfl

/-- All bytes of a longer encoding are beyond ASCII. -/
theorem le_toNat_of_mem_utf8EncodeChar (h : 0x80 ≤ c.toNat) (hb : b ∈ String.utf8EncodeChar c) :
    0x80 ≤ b.toNat := by
  have hlt : ¬ c.val.toNat ≤ 127 := Nat.not_le.2 h
  have hmax : c.val.toNat ≤ 0x10FFFF := toNat_le c
  rw [String.utf8EncodeChar.eq_1, if_neg hlt] at hb
  split at hb
  · simp only [List.mem_cons, List.not_mem_nil, or_false] at hb
    rcases hb with rfl | rfl <;> rw [UInt8.toNat_ofNat'] <;> omega
  · split at hb
    · simp only [List.mem_cons, List.not_mem_nil, or_false] at hb
      rcases hb with rfl | rfl | rfl <;> rw [UInt8.toNat_ofNat'] <;> omega
    · simp only [List.mem_cons, List.not_mem_nil, or_false] at hb
      rcases hb with rfl | rfl | rfl | rfl <;> rw [UInt8.toNat_ofNat'] <;> omega

/-- An ASCII byte of an encoding stands for a character of the text. -/
theorem exists_of_mem_encode (hb : b.toNat < 0x80) (h : b ∈ encode t) :
    ∃ c ∈ t, c.toNat = b.toNat := by
  obtain ⟨c, hc, hbc⟩ := List.mem_flatMap.1 h
  refine ⟨c, hc, ?_⟩
  rcases Nat.lt_or_ge c.toNat 0x80 with hlt | hge
  · rw [utf8EncodeChar_of_lt hlt, List.mem_singleton] at hbc
    rw [hbc, UInt8.toNat_ofNat']
    omega
  · exact absurd hb (Nat.not_lt.2 (le_toNat_of_mem_utf8EncodeChar hge hbc))

theorem utf8EncodeChar_injective (h : String.utf8EncodeChar c = String.utf8EncodeChar d) :
    c = d := by
  have hc := ByteArray.utf8DecodeChar?_utf8EncodeChar_append (b := .empty) (c := c)
  have hd := ByteArray.utf8DecodeChar?_utf8EncodeChar_append (b := .empty) (c := d)
  rw [h, hd] at hc
  exact (Option.some.inj hc).symm

/-- No character is encoded by the end of another one. -/
theorem eq_of_utf8EncodeChar_suffix
    (h : String.utf8EncodeChar c <:+ String.utf8EncodeChar d) : c = d := by
  obtain ⟨w, hw⟩ := h
  cases w with
  | nil => exact utf8EncodeChar_injective hw
  | cons b w =>
    exfalso
    -- The first byte of the one would be a later byte of the other.
    have hpos : 0 < (String.utf8EncodeChar c).length :=
      List.length_pos_iff.2 String.utf8EncodeChar_ne_nil
    have hlt : (b :: w).length < (String.utf8EncodeChar d).length := by
      rw [← hw, List.length_append]
      omega
    have hfirst : (String.utf8EncodeChar c)[0].IsUTF8FirstByte :=
      UInt8.isUTF8FirstByte_getElem_utf8EncodeChar.2 rfl
    have hsame : (String.utf8EncodeChar d)[(b :: w).length] = (String.utf8EncodeChar c)[0] := by
      simp only [← hw, List.getElem_append_right (Nat.le_refl _), Nat.sub_self]
    rw [← hsame, UInt8.isUTF8FirstByte_getElem_utf8EncodeChar] at hfirst
    cases hfirst

theorem concat_suffix_concat_iff {α : Type} {x y : α} {l m : List α} :
    l ++ [x] <:+ m ++ [y] ↔ x = y ∧ l <:+ m := by
  rw [List.suffix_concat_iff]
  simp

/-- An encoding ends in another one exactly if the text ends in the other one. -/
theorem encode_suffix_encode_iff : encode s <:+ encode t ↔ s <:+ t := by
  constructor
  · intro h
    -- From the last characters on.
    induction s using List.reverseRecOn generalizing t with
    | nil => exact List.nil_suffix
    | append_singleton s c ih =>
      rcases List.eq_nil_or_concat t with rfl | ⟨t, d, rfl⟩
      · simp [String.utf8EncodeChar_ne_nil] at h
      · rw [List.concat_eq_append, encode_append, encode_append, encode_cons, encode_cons,
          encode_nil, List.append_nil, List.append_nil] at h
        rw [List.concat_eq_append, concat_suffix_concat_iff]
        have hcd : c = d := by
          rcases List.suffix_or_suffix_of_suffix ((List.suffix_append _ _).trans h)
            (List.suffix_append _ _) with hsuffix | hsuffix
          · exact eq_of_utf8EncodeChar_suffix hsuffix
          · exact (eq_of_utf8EncodeChar_suffix hsuffix).symm
        refine ⟨hcd, ih ?_⟩
        obtain ⟨w, hw⟩ := h
        rw [hcd, ← List.append_assoc] at hw
        exact ⟨w, List.append_cancel_right hw⟩
  · rintro ⟨w, rfl⟩
    rw [encode_append]
    exact List.suffix_append _ _

/-! ### Pending characters -/

namespace Pending

/-- The least value that a pending character can come to. -/
def first (p : Pending) : Nat := p.value * 64 ^ p.owed + (p.low.toNat - 0x80) * 64 ^ (p.owed - 1)

/-- The least value past those that a pending character can come to. -/
def past (p : Pending) : Nat := p.value * 64 ^ p.owed + (p.high.toNat - 0x7F) * 64 ^ (p.owed - 1)

/-- That a pending character is completed by continuation bytes only, and comes to a character
beyond ASCII. -/
structure Sound (p : Pending) : Prop where
  owed_pos : 0 < p.owed
  le_low : 0x80 ≤ p.low.toNat
  high_le : p.high.toNat ≤ 0xBF
  le_first : 0x80 ≤ p.first
  past_le : p.past ≤ 0xD800 ∨ 0xE000 ≤ p.first ∧ p.past ≤ 0x110000

end Pending

/-- That what is pending, if anything is, comes to a character beyond ASCII. -/
def SoundPending (p : Option Pending) : Prop := ∀ q ∈ p, q.Sound

theorem soundPending_none : SoundPending none := fun _ h => nomatch h

section

variable {p : Pending}

/-- What a pending character can come to after a byte within its bounds, it could come to before. -/
theorem Pending.Sound.narrows (hp : p.Sound) {n : Nat} (hlow : p.low.toNat ≤ n + 0x80)
    (hhigh : n + 0x80 ≤ p.high.toNat) :
    p.first ≤ (p.value * 64 + n) * 64 ^ (p.owed - 1) ∧
      (p.value * 64 + n + 1) * 64 ^ (p.owed - 1) ≤ p.past := by
  have hpow : p.value * 64 ^ p.owed = p.value * 64 * 64 ^ (p.owed - 1) := by
    rw [← Nat.sub_add_cancel hp.owed_pos, pow_succ', Nat.mul_assoc]
    rfl
  have hlow' : (p.low.toNat - 0x80) * 64 ^ (p.owed - 1) ≤ n * 64 ^ (p.owed - 1) :=
    Nat.mul_le_mul_right _ (by omega)
  have hhigh' : (n + 1) * 64 ^ (p.owed - 1) ≤ (p.high.toNat - 0x7F) * 64 ^ (p.owed - 1) :=
    Nat.mul_le_mul_right _ (by omega)
  rw [Nat.add_assoc, Nat.add_mul, Nat.add_mul, first, past, hpow]
  exact ⟨Nat.add_le_add_left hlow' _, Nat.add_le_add_left hhigh' _⟩

/-- The last byte of a character completes one beyond ASCII. -/
theorem Pending.Sound.le_toNat_ofNat (hp : p.Sound) (howed : p.owed = 1) {n : Nat}
    (hlow : p.low.toNat ≤ n + 0x80) (hhigh : n + 0x80 ≤ p.high.toNat) :
    0x80 ≤ (Char.ofNat (p.value * 64 + n)).toNat := by
  have hnarrows := hp.narrows hlow hhigh
  rw [howed, Nat.sub_self, pow_zero, Nat.mul_one, Nat.mul_one] at hnarrows
  have hfirst := hp.le_first
  have hvalid : (p.value * 64 + n).isValidChar := by
    rcases hp.past_le with hpast | hpast
    · exact .inl (by omega)
    · exact .inr (by omega)
  rw [toNat_ofNat hvalid]
  omega

/-- Any other byte of a character leaves it in order. -/
theorem Pending.Sound.next (hp : p.Sound) (howed : p.owed ≠ 1) {n : Nat}
    (hlow : p.low.toNat ≤ n + 0x80) (hhigh : n + 0x80 ≤ p.high.toNat) :
    Sound ⟨p.value * 64 + n, p.owed - 1, 0x80, 0xBF⟩ := by
  have hnarrows := hp.narrows hlow hhigh
  have hpos : 0 < p.owed - 1 := by
    have := hp.owed_pos
    omega
  have hpow : 64 ^ (p.owed - 1) = 64 * 64 ^ (p.owed - 1 - 1) := by
    rw [← pow_succ', Nat.sub_add_cancel hpos]
  have hfirst : first ⟨p.value * 64 + n, p.owed - 1, 0x80, 0xBF⟩ =
      (p.value * 64 + n) * 64 ^ (p.owed - 1) := by
    simp [first]
  have hpast : past ⟨p.value * 64 + n, p.owed - 1, 0x80, 0xBF⟩ =
      (p.value * 64 + n + 1) * 64 ^ (p.owed - 1) := by
    have hfull : (0xBF : UInt8).toNat - 0x7F = 64 := by decide
    simp only [past, hfull]
    rw [← hpow]
    ring
  refine ⟨hpos, Nat.le_refl _, Nat.le_refl _, ?_, ?_⟩
  · rw [hfirst]
    exact Nat.le_trans hp.le_first hnarrows.1
  · rw [hfirst, hpast]
    rcases hp.past_le with hle | ⟨hge, hle⟩
    · exact .inl (Nat.le_trans hnarrows.2 hle)
    · exact .inr ⟨Nat.le_trans hge hnarrows.1, Nat.le_trans hnarrows.2 hle⟩

end

/-! ### Reading a byte -/

theorem toNat_ofNat_of_lt (hb : b.toNat < 0x80) : (Char.ofNat b.toNat).toNat = b.toNat :=
  toNat_ofNat (.inl (by omega))

/-- What a byte leads to: the only ASCII character that it makes is itself, and if it makes no
character, one is pending that is in order. -/
structure Settles (b : UInt8) (r : List Char × Option Pending) : Prop where
  toNat_eq : ∀ c ∈ r.1, c.toNat < 0x80 → c.toNat = b.toNat
  ne_nil : r.2 = none → r.1 ≠ []
  sound : SoundPending r.2

namespace Settles

/-- A single character that is not ASCII, or is the byte itself. -/
theorem character (hc : c.toNat < 0x80 → c.toNat = b.toNat) : Settles b ([c], none) where
  toNat_eq d hd := by
    rwa [List.mem_singleton.1 hd]
  ne_nil _ := List.cons_ne_nil c []
  sound := soundPending_none

theorem replaced : Settles b ([replacement], none) :=
  character fun hascii => absurd hascii (by decide)

theorem pending {q : Pending} (hq : q.Sound) : Settles b ([], some q) where
  toNat_eq _ hd := nomatch hd
  ne_nil h := nomatch h
  sound _ hr := Option.some.inj hr ▸ hq

/-- A character in front that stands for bytes before this one. -/
theorem replacement_cons {r : List Char × Option Pending} (h : Settles b r) :
    Settles b (replacement :: r.1, r.2) where
  toNat_eq c hc hascii := by
    rcases List.mem_cons.1 hc with rfl | hc
    · exact absurd hascii (by decide)
    · exact h.toNat_eq c hc hascii
  ne_nil _ := List.cons_ne_nil replacement r.1
  sound := h.sound

/-- A byte beyond ASCII makes no ASCII character. -/
theorem le_toNat {r : List Char × Option Pending} (h : Settles b r) (hb : 0x80 ≤ b.toNat)
    (hc : c ∈ r.1) : 0x80 ≤ c.toNat := by
  by_contra hascii
  have heq := h.toNat_eq c hc (Nat.not_le.1 hascii)
  omega

end Settles

theorem settles_begin (b : UInt8) : Settles b (begin b) := by
  have hmax : b.toNat < 256 := b.toNat_lt
  unfold begin
  simp only [UInt8.lt_iff_toNat_lt, ← UInt8.toNat_inj, UInt8.reduceToNat]
  split
  · next hb => exact .character fun _ => toNat_ofNat_of_lt hb
  -- The bounds on the second byte are what makes each of the longer characters one.
  repeat' split
  all_goals first
    | exact .replaced
    | refine .pending ⟨?_, ?_, ?_, ?_, ?_⟩ <;>
        simp only [Pending.first, Pending.past, UInt8.reduceToNat] <;> omega

section

variable {p : Option Pending}

theorem settles_advance (hp : SoundPending p) (b : UInt8) : Settles b (advance p b) := by
  cases p with
  | none => exact settles_begin b
  | some q =>
    have hq : q.Sound := hp q rfl
    rw [advance]
    split
    · next hbounds =>
      rw [Bool.and_eq_true, decide_eq_true_eq, decide_eq_true_eq, UInt8.le_iff_toNat_le,
        UInt8.le_iff_toNat_le] at hbounds
      have hle := hq.le_low
      have hlow : q.low.toNat ≤ b.toNat - 0x80 + 0x80 := by omega
      have hhigh : b.toNat - 0x80 + 0x80 ≤ q.high.toNat := by omega
      dsimp only
      split
      · next howed =>
        exact .character fun hascii =>
          absurd hascii (Nat.not_lt.2 (hq.le_toNat_ofNat howed hlow hhigh))
      · next howed => exact .pending (hq.next howed hlow hhigh)
    · exact (settles_begin b).replacement_cons

/-- An ASCII byte is a character of its own, whatever is pending. -/
theorem advance_of_lt (hp : SoundPending p) (hb : b.toNat < 0x80) :
    advance p b = (decodeFrom p [] ++ [Char.ofNat b.toNat], none) := by
  have hbegin : begin b = ([Char.ofNat b.toNat], none) := by
    rw [begin, if_pos (UInt8.lt_iff_toNat_lt.2 hb)]
  cases p with
  | none => exact hbegin
  | some q =>
    have hbounds : ¬ (decide (q.low ≤ b) && decide (b ≤ q.high)) = true := by
      have hle := (hp q rfl).le_low
      rw [Bool.and_eq_true, decide_eq_true_eq, UInt8.le_iff_toNat_le]
      omega
    rw [advance, if_neg hbounds, hbegin]
    rfl

/-! ### Reading a byte string -/

/-- Reading a part of a byte string settles some characters and leaves one pending, whatever comes
next. -/
theorem exists_decodeFrom_append (hp : SoundPending p) (xs : Bytes) : ∃ settled r,
    SoundPending r ∧ ∀ ys, decodeFrom p (xs ++ ys) = settled ++ decodeFrom r ys := by
  induction xs generalizing p with
  | nil => exact ⟨[], p, hp, fun _ => rfl⟩
  | cons b xs ih =>
    obtain ⟨settled, r, hr, hrest⟩ := ih (settles_advance hp b).sound
    refine ⟨(advance p b).1 ++ settled, r, hr, fun ys => ?_⟩
    rw [List.append_assoc, ← hrest]
    cases p <;> rfl

theorem decodeFrom_cons (p : Option Pending) (b : UInt8) (rest : Bytes) :
    decodeFrom p (b :: rest) = (advance p b).1 ++ decodeFrom (advance p b).2 rest := by
  cases p <;> rfl

/-- A byte beyond ASCII at the end makes a character beyond ASCII at the end. -/
theorem exists_decodeFrom_singleton (hp : SoundPending p) (hb : 0x80 ≤ b.toNat) :
    ∃ s c, decodeFrom p [b] = s ++ [c] ∧ 0x80 ≤ c.toNat := by
  have h := settles_advance hp b
  rw [decodeFrom_cons]
  cases hnext : (advance p b).2 with
  | some q => exact ⟨(advance p b).1, replacement, rfl, by decide⟩
  | none =>
    obtain ⟨s, c, hs⟩ := (List.eq_nil_or_concat _).resolve_left (h.ne_nil hnext)
    exact ⟨s, c, by rw [hs]; simp [decodeFrom], h.le_toNat hb (by simp [hs])⟩

/-- An ASCII character of what is read stands for a byte. -/
theorem exists_of_mem_decodeFrom (hp : SoundPending p) (hc : c ∈ decodeFrom p bytes)
    (hascii : c.toNat < 0x80) : ∃ b ∈ bytes, b.toNat = c.toNat := by
  induction bytes generalizing p with
  | nil =>
    cases p with
    | none => cases hc
    | some q =>
      obtain rfl : c = replacement := List.mem_singleton.1 hc
      exact absurd hascii (by decide)
  | cons b bytes ih =>
    have h := settles_advance hp b
    rw [decodeFrom_cons, List.mem_append] at hc
    rcases hc with hc | hc
    · exact ⟨b, List.mem_cons_self, (h.toNat_eq c hc hascii).symm⟩
    · obtain ⟨b', hb', heq⟩ := ih h.sound hc
      exact ⟨b', List.mem_cons_of_mem b hb', heq⟩

end

/-- An ASCII byte is read as the character it encodes, and what is in front of it and what is behind
it as if the other were not there. -/
theorem decodeLossy_append_cons (xs ys : Bytes) (hb : b.toNat < 0x80) :
    decodeLossy (xs ++ b :: ys) = decodeLossy xs ++ Char.ofNat b.toNat :: decodeLossy ys := by
  obtain ⟨settled, r, hr, hrest⟩ := exists_decodeFrom_append soundPending_none xs
  have hxs := hrest []
  rw [List.append_nil] at hxs
  rw [decodeLossy, decodeLossy, decodeLossy, hrest, hxs, decodeFrom_cons, advance_of_lt hr hb]
  simp

theorem exists_decodeLossy_concat (xs : Bytes) (hb : 0x80 ≤ b.toNat) :
    ∃ s c, decodeLossy (xs ++ [b]) = s ++ [c] ∧ 0x80 ≤ c.toNat := by
  obtain ⟨settled, r, hr, hrest⟩ := exists_decodeFrom_append soundPending_none xs
  obtain ⟨s, c, hs, hc⟩ := exists_decodeFrom_singleton hr hb
  exact ⟨settled ++ s, c, by rw [decodeLossy, hrest, hs, List.append_assoc], hc⟩

/-- No byte is in the encoding of what is read, if it is an ASCII byte and was not in what was
read. -/
theorem notMem_encode_decodeLossy (hb : b.toNat < 0x80) (h : b ∉ bytes) :
    b ∉ encode (decodeLossy bytes) := by
  intro hmem
  obtain ⟨c, hc, hcb⟩ := exists_of_mem_encode hb hmem
  obtain ⟨b', hb', heq⟩ := exists_of_mem_decodeFrom soundPending_none hc (by omega)
  exact h (UInt8.toNat_inj.1 (heq.trans hcb) ▸ hb')

/-- A byte string, whether it encodes a text or not, is read as a text that ends in an ASCII text
exactly if it ends in the encoding of that. -/
theorem suffix_decodeLossy_iff (hs : Ascii s) :
    s <:+ decodeLossy bytes ↔ encode s <:+ bytes := by
  induction s using List.reverseRecOn generalizing bytes with
  | nil => simp
  | append_singleton s c ih =>
    have hc : c.toNat < 0x80 := hs c (by simp)
    have hs' : Ascii s := fun d hd => hs d (List.mem_append_left _ hd)
    have hencode : encode (s ++ [c]) = encode s ++ [UInt8.ofNat c.toNat] := by
      rw [encode_append, encode_cons, encode_nil, List.append_nil, utf8EncodeChar_of_lt hc]
    have htoNat : (UInt8.ofNat c.toNat).toNat = c.toNat := by
      rw [UInt8.toNat_ofNat']
      omega
    rw [hencode]
    rcases List.eq_nil_or_concat bytes with rfl | ⟨xs, b, rfl⟩
    · simp
    rw [List.concat_eq_append, concat_suffix_concat_iff]
    rcases Nat.lt_or_ge b.toNat 0x80 with hb | hb
    · have hsame : c = Char.ofNat b.toNat ↔ UInt8.ofNat c.toNat = b := by
        constructor
        · rintro rfl
          rw [toNat_ofNat_of_lt hb, UInt8.ofNat_toNat]
        · rintro rfl
          rw [htoNat, Char.ofNat_toNat]
      rw [decodeLossy_append_cons xs [] hb, decodeLossy_nil, concat_suffix_concat_iff, hsame,
        ih hs']
    · obtain ⟨t, d, ht, hd⟩ := exists_decodeLossy_concat xs hb
      rw [ht, concat_suffix_concat_iff]
      have hne : c ≠ d := by
        rintro rfl
        omega
      have hne' : UInt8.ofNat c.toNat ≠ b := by
        rintro rfl
        omega
      simp [hne, hne']

end ImportSuffix.Text
