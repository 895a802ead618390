import ImportSuffix.CommandLine.Request
import ImportSuffix.Proofs.FixStep

/-!
# Arguments that ask to fix files

A call asks to fix files with the name of the command, the path in one of its two forms or no path
at all, and possibly two hyphens at the end (`Request.AsksToFix`). These are all of them: a call is
read as a request to fix files below a path exactly if its arguments have this form
(`Request.read?_eq_fix_iff`).
-/

namespace ImportSuffix

open Text (Bytes bytesOf)

namespace Text

theorem bytesOf_append (a b : String) : bytesOf (a ++ b) = bytesOf a ++ bytesOf b := by
  rw [bytesOf, String.toList_append, encode_append]
  rfl

theorem toByteArray_bytesOf (s : String) : (bytesOf s).toByteArray = s.toUTF8 :=
  String.utf8Encode_toList

/-- Bytes are decoded to a text exactly if they are the bytes of this text. -/
theorem decode?_eq_some_iff {bytes : Bytes} {s : String} :
    decode? bytes = some s ↔ bytes = bytesOf s := by
  rw [decode?, fromUTF8?_eq_some_iff, ← toByteArray_bytesOf]
  constructor
  · intro h
    have hdata := congrArg (fun b => b.data.toList) h
    simpa using hdata
  · intro h
    simp [h, ByteArray.ext_iff]

end Text

namespace Request

/-- The arguments for a path: none without a path; else the path after its option, if it cannot be
taken for an option itself, or behind an equals sign. -/
inductive GivesPath : Option String → List Bytes → Prop
  | omitted : GivesPath none []
  | next {path : String} (h : looksLikeOption (bytesOf path) = false) :
      GivesPath (some path) [bytesOf pathOption, bytesOf path]
  | attached {path : String} : GivesPath (some path) [bytesOf (pathOption ++ "=" ++ path)]

/-- The marks with which the arguments may end. -/
def IsEnd (args : List Bytes) : Prop := args = [] ∨ args = [bytesOf "--"]

/-- The arguments of a call that asks to fix the files below a path. -/
def AsksToFix (path : Option String) (args : List Bytes) : Prop :=
  ∃ given ending, GivesPath path given ∧ IsEnd ending ∧ args = bytesOf "fix" :: (given ++ ending)

section

variable {arg value : Bytes} {rest : List Bytes} {path path' : Option String}

theorem isWord_iff {word : String} : isWord arg word = true ↔ arg = bytesOf word := beq_iff_eq

theorem attachedPath?_eq_some_iff :
    attachedPath? arg = some value ↔ arg = bytesOf (pathOption ++ "=") ++ value := by
  rw [attachedPath?]
  split
  · case isTrue hstarts =>
    obtain ⟨tail, rfl⟩ := List.isPrefixOf_iff_prefix.1 hstarts
    simp
  · case isFalse hstarts =>
    refine ⟨fun h => (nomatch h), fun h => absurd ?_ hstarts⟩
    exact List.isPrefixOf_iff_prefix.2 ⟨value, h.symm⟩

theorem settle?_some (p : String) (value : Bytes) : settle? (some p) value = none := rfl

theorem settle?_none_eq_some_iff {p : String} :
    settle? none value = some p ↔ value = bytesOf p :=
  Text.decode?_eq_some_iff

/-! ### Reading one argument -/

theorem readFix_end (path : Option String) :
    readFix path [bytesOf "--"] = some (.fix path) := by
  rw [readFix.eq_def]
  dsimp only
  rw [if_pos (isWord_iff.2 rfl), List.isEmpty_nil, if_pos rfl]

theorem readFix_next (path : Option String) (h : looksLikeOption value = false) :
    readFix path (bytesOf pathOption :: value :: rest) =
      (settle? path value).bind fun p => readFix (some p) rest := by
  have hend : isWord (bytesOf pathOption) "--" = false := by decide
  have hhelp : (isWord (bytesOf pathOption) "--help" || beginsShort (bytesOf pathOption) 'h') =
      false := by decide
  rw [readFix.eq_def]
  dsimp only
  rw [hend, hhelp, h, if_pos (isWord_iff.2 rfl)]
  cases settle? path value <;> rfl

theorem readFix_attached (path : Option String) :
    readFix path ((bytesOf (pathOption ++ "=") ++ value) :: rest) =
      (settle? path value).bind fun p => readFix (some p) rest := by
  have hstart : bytesOf (pathOption ++ "=") = [45, 45, 112, 97, 116, 104, 61] := by decide
  have hend : isWord (bytesOf (pathOption ++ "=") ++ value) "--" = false := by
    rw [hstart]
    rfl
  have hhelp : (isWord (bytesOf (pathOption ++ "=") ++ value) "--help" ||
      beginsShort (bytesOf (pathOption ++ "=") ++ value) 'h') = false := by
    rw [hstart]
    rfl
  have hnext : isWord (bytesOf (pathOption ++ "=") ++ value) pathOption = false := by
    rw [hstart]
    rfl
  rw [readFix.eq_def]
  dsimp only
  rw [hend, hhelp, hnext, attachedPath?_eq_some_iff.2 rfl]
  dsimp only
  cases settle? path value <;> rfl

/-- Arguments that ask to fix files begin with the end or with a path. -/
theorem readFix_cases (h : readFix path (arg :: rest) = some (.fix path')) :
    (arg = bytesOf "--" ∧ rest = [] ∧ path' = path) ∨
      ∃ value p, settle? path value = some p ∧
        ((∃ rest', arg = bytesOf pathOption ∧ rest = value :: rest' ∧
            looksLikeOption value = false ∧ readFix (some p) rest' = some (.fix path')) ∨
          (arg = bytesOf (pathOption ++ "=") ++ value ∧
            readFix (some p) rest = some (.fix path'))) := by
  rw [readFix.eq_def] at h
  dsimp only at h
  split at h
  · case isTrue hend =>
    split at h
    · case isTrue hempty =>
      cases h
      exact .inl ⟨isWord_iff.1 hend, List.isEmpty_iff.1 hempty, rfl⟩
    · cases h
  split at h
  · cases h
  split at h
  · case isTrue hnext =>
    split at h
    · cases h
    split at h
    · cases h
    · case isFalse value rest' hoption =>
      split at h
      · case h_1 p hp =>
        exact .inr ⟨value, p, hp, .inl ⟨rest', isWord_iff.1 hnext, rfl,
          Bool.eq_false_iff.2 hoption, h⟩⟩
      · cases h
  split at h
  · cases h
  · case h_2 value hvalue =>
    split at h
    · case h_1 p hp =>
      exact .inr ⟨value, p, hp, .inr ⟨attachedPath?_eq_some_iff.1 hvalue, h⟩⟩
    · cases h

/-! ### Reading all arguments -/

/-- Once the path is given, only the end can follow. -/
theorem readFix_some_iff {p : String} :
    readFix (some p) rest = some (.fix path) ↔ path = some p ∧ IsEnd rest := by
  constructor
  · intro h
    cases rest with
    | nil =>
      cases h
      exact ⟨rfl, .inl rfl⟩
    | cons arg rest =>
      obtain ⟨rfl, rfl, rfl⟩ | ⟨value, p', hsettle, -⟩ := readFix_cases h
      · exact ⟨rfl, .inr rfl⟩
      · cases (settle?_some p value).symm.trans hsettle
  · rintro ⟨rfl, rfl | rfl⟩
    · rfl
    · exact readFix_end _

/-- The arguments after the name of the command that ask to fix the files below a path. -/
theorem readFix_none_iff : readFix none rest = some (.fix path) ↔
    ∃ given ending, GivesPath path given ∧ IsEnd ending ∧ rest = given ++ ending := by
  constructor
  · intro h
    cases rest with
    | nil =>
      cases h
      exact ⟨[], [], .omitted, .inl rfl, rfl⟩
    | cons arg rest =>
      obtain ⟨rfl, rfl, rfl⟩ | ⟨value, p, hsettle, hform⟩ := readFix_cases h
      · exact ⟨[], _, .omitted, .inr rfl, rfl⟩
      · obtain rfl := settle?_none_eq_some_iff.1 hsettle
        obtain ⟨rest', rfl, rfl, hoption, hrest⟩ | ⟨rfl, hrest⟩ := hform
        · obtain ⟨rfl, hend⟩ := readFix_some_iff.1 hrest
          exact ⟨_, _, .next hoption, hend, rfl⟩
        · obtain ⟨rfl, hend⟩ := readFix_some_iff.1 hrest
          rw [← Text.bytesOf_append]
          exact ⟨_, _, .attached, hend, rfl⟩
  · rintro ⟨given, ending, hgiven, hend, rfl⟩
    cases hgiven with
    | omitted =>
      obtain rfl | rfl := hend
      · rfl
      · exact readFix_end none
    | next hoption =>
      rw [List.cons_append, List.cons_append, readFix_next _ hoption,
        settle?_none_eq_some_iff.2 rfl]
      exact readFix_some_iff.2 ⟨rfl, hend⟩
    | attached =>
      rw [List.cons_append, Text.bytesOf_append, readFix_attached,
        settle?_none_eq_some_iff.2 rfl]
      exact readFix_some_iff.2 ⟨rfl, hend⟩

theorem readHelp_ne_fix : readHelp rest ≠ some (.fix path) := by
  intro h
  rw [readHelp.eq_def] at h
  split at h
  · cases h
  · split at h
    · cases h
    · split at h <;> cases h
  · cases h

/-- A call is read as a request to fix files exactly if its arguments ask for that. -/
theorem read?_eq_fix_iff {args : List Bytes} :
    read? args = some (.fix path) ↔ AsksToFix path args := by
  cases args with
  | nil =>
    refine ⟨fun h => (nomatch h), ?_⟩
    rintro ⟨_, _, _, _, h⟩
    cases h
  | cons arg rest =>
    rw [read?]
    by_cases hfix : arg = bytesOf "fix"
    · subst hfix
      rw [if_pos (isWord_iff.2 rfl), readFix_none_iff]
      simp only [AsksToFix, List.cons.injEq, true_and]
    · constructor
      · intro h
        rw [if_neg (mt isWord_iff.1 hfix)] at h
        split at h
        · exact absurd h readHelp_ne_fix
        · split at h
          · cases h
          · split at h <;> cases h
      · rintro ⟨_, _, _, _, h⟩
        exact absurd (List.cons_eq_cons.1 h).1 hfix

end

end Request

end ImportSuffix
