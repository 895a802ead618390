import ImportSuffix.Proofs.FixStep

/-!
# All or nothing

Fixing a file changes it as a whole or changes nothing at all, and the result says which
(`Volume.fixFile_allOrNothing`). That a file has been fixed is told exactly if it was a text, the
rules change it and the new text could be written; that there was nothing to do, exactly if the
rules leave the text as it is, and then it does not matter whether the file is open to writing.
Everything else is a failure, which tells the step that failed.
-/

namespace ImportSuffix

open Text (Bytes)

namespace Volume

variable {v w : Volume} {path : Bytes} {rules : List Rule} {result : Except Failure Bool}
  {f : Failure}

namespace FixStep

/-- A path has one step only. -/
theorem unique {w' : Volume} {result' : Except Failure Bool} (h : v.FixStep rules path result w)
    (h' : v.FixStep rules path result' w') : result = result' ∧ w = w' :=
  Prod.mk.inj (h.fixFile_eq.symm.trans h'.fixFile_eq)

/-! ### When a file is fixed -/

theorem eq_ok_true_iff (h : v.FixStep rules path result w) : result = .ok true ↔
    ∃ text : String, v.read path = .ok text.toUTF8 ∧ applyRules rules text ≠ text ∧
      (v.write path (applyRules rules text).toUTF8).1 = .ok () := by
  constructor
  · rintro rfl
    cases h with
    | @fixed dest text hfile hnew =>
      refine ⟨text, read_eq_ok_iff.2 ⟨dest, true, hfile⟩, hnew, ?_⟩
      rw [hfile.write_eq, if_pos rfl]
  · rintro ⟨text, hread, hnew, hwrite⟩
    obtain ⟨loc, writable, hfile⟩ := read_eq_ok_iff.1 hread
    rw [hfile.write_eq] at hwrite
    cases writable with
    | true => exact (h.unique (.fixed hfile hnew)).1
    | false => cases hwrite

theorem eq_ok_false_iff (h : v.FixStep rules path result w) : result = .ok false ↔
    ∃ text : String, v.read path = .ok text.toUTF8 ∧ applyRules rules text = text := by
  constructor
  · rintro rfl
    cases h with
    | @unchanged dest text isOpen hfile hsame =>
      exact ⟨text, read_eq_ok_iff.2 ⟨dest, isOpen, hfile⟩, hsame⟩
  · rintro ⟨text, hread, hsame⟩
    obtain ⟨loc, writable, hfile⟩ := read_eq_ok_iff.1 hread
    exact (h.unique (.unchanged hfile hsame)).1

/-- A fixed file holds the new text, and everything else is as it was. -/
theorem of_ok_true (h : v.FixStep rules path (.ok true) w) : ∃ loc text,
    v.LeadsToFile path loc text.toUTF8 true ∧
      w.get? loc = some (.file (applyRules rules text).toUTF8 true) ∧ w.SameOutline v ∧
      ∀ other, other ≠ loc → w.content? other = v.content? other := by
  cases h with
  | @fixed dest text hfile hnew =>
    have hsame := sameOutline_setContent v dest (applyRules rules text).toUTF8
    have houtline := hfile.outline?_eq
    refine ⟨dest, text, hfile, get?_eq_file_iff.2 ⟨?_, ?_⟩, hsame, fun other hother => ?_⟩
    · rw [hsame.outline?_eq, houtline]
    · exact content?_setContent_self houtline _
    · exact content?_setContent_of_ne v _ hother

/-- Nothing is written unless the file is fixed. -/
theorem eq_of_ne_ok_true (h : v.FixStep rules path result w) (hne : result ≠ .ok true) : w = v := by
  cases h with
  | unread | notText | unchanged | closed => rfl
  | fixed => exact absurd rfl hne

/-! ### When a step fails -/

theorem exists_error_iff (h : v.FixStep rules path result w) : (∃ f, result = .error f) ↔
    (∃ cause, v.read path = .error cause) ∨
    (∃ content, v.read path = .ok content ∧ String.fromUTF8? content = none) ∨
    ∃ (text : String) (cause : Cause), v.read path = .ok text.toUTF8 ∧
      applyRules rules text ≠ text ∧
      (v.write path (applyRules rules text).toUTF8).1 = .error cause := by
  constructor
  · rintro ⟨f, rfl⟩
    cases h with
    | unread hread => exact .inl ⟨_, hread⟩
    | @notText dest bytes isOpen hfile hnone =>
      exact .inr (.inl ⟨bytes, read_eq_ok_iff.2 ⟨dest, isOpen, hfile⟩, hnone⟩)
    | @closed dest text hfile hnew =>
      refine .inr (.inr ⟨text, .notPermitted, read_eq_ok_iff.2 ⟨dest, false, hfile⟩, hnew, ?_⟩)
      rw [hfile.write_eq, if_neg Bool.false_ne_true]
  · rintro (⟨cause, hread⟩ | ⟨content, hread, hnone⟩ | ⟨text, cause, hread, hnew, hwrite⟩)
    · exact ⟨_, (h.unique (.unread hread)).1⟩
    · obtain ⟨loc, writable, hfile⟩ := read_eq_ok_iff.1 hread
      exact ⟨_, (h.unique (.notText hfile hnone)).1⟩
    · obtain ⟨loc, writable, hfile⟩ := read_eq_ok_iff.1 hread
      rw [hfile.write_eq] at hwrite
      cases writable with
      | true => cases hwrite
      | false => exact ⟨_, (h.unique (.closed hfile hnew)).1⟩

end FixStep

/-- What a failure of fixing a file tells: that its bytes are no text, with its path, exactly if
that is so, and otherwise that an operation has failed, and which one. -/
structure FailureTells (v : Volume) (file : Bytes) (f : Failure) : Prop where
  invalidEncoding_iff : f.code = .invalidEncoding ↔
    ∃ content, v.read file = .ok content ∧ String.fromUTF8? content = none
  path : f.code = .invalidEncoding →
    f.details.get? "path" = some (.str (Text.display file))
  context_read : ∀ cause, v.read file = .error cause → f.code = .io ∧
    f.details.get? "context" = some (.str ("read " ++ Text.display file))
  context_write : ∀ text : String, v.read file = .ok text.toUTF8 → f.code = .io ∧
    f.details.get? "context" = some (.str ("write " ++ Text.display file))

theorem isText_of_read {text : String} (h : v.read path = .ok text.toUTF8) :
    ¬ ∃ content, v.read path = .ok content ∧ String.fromUTF8? content = none := by
  rintro ⟨content, hread, hnone⟩
  cases h.symm.trans hread
  rw [fromUTF8?_toUTF8] at hnone
  cases hnone

theorem FixStep.failureTells (h : v.FixStep rules path (.error f) w) : v.FailureTells path f := by
  cases h with
  | unread hread =>
    constructor
    case invalidEncoding_iff => simp [hread, Failure.io]
    case path => exact fun hcode => nomatch hcode
    case context_read => exact fun _ _ => ⟨rfl, rfl⟩
    case context_write => simp [hread]
  | @notText dest bytes isOpen hfile hnone =>
    have hread := read_eq_ok_iff.2 ⟨dest, isOpen, hfile⟩
    constructor
    case invalidEncoding_iff => simp [hread, hnone, Failure.invalidEncoding]
    case path => exact fun _ => rfl
    case context_read => simp [hread]
    case context_write => exact fun _ htext => absurd ⟨bytes, hread, hnone⟩ (isText_of_read htext)
  | @closed dest text hfile hnew =>
    have hread := read_eq_ok_iff.2 ⟨dest, false, hfile⟩
    constructor
    case invalidEncoding_iff =>
      exact ⟨(fun hcode => nomatch hcode), fun hnone => absurd hnone (isText_of_read hread)⟩
    case path => exact fun hcode => nomatch hcode
    case context_read => simp [hread]
    case context_write => exact fun _ _ => ⟨rfl, rfl⟩

/-! ### The whole -/

/-- That a result and the volume after it are those of fixing the file at a path as a whole or not
at all. -/
structure AllOrNothing (v : Volume) (rules : List Rule) (path : Bytes)
    (result : Except Failure Bool) (w : Volume) : Prop where
  /-- The file is fixed exactly if it is a text, the rules change it and it can be written. -/
  fixed_iff : result = .ok true ↔ ∃ text : String, v.read path = .ok text.toUTF8 ∧
    applyRules rules text ≠ text ∧ (v.write path (applyRules rules text).toUTF8).1 = .ok ()
  /-- Then it holds the new text, and all other files, directories and links are as they were. -/
  fixed : result = .ok true → ∃ loc text, v.LeadsToFile path loc text.toUTF8 true ∧
    w.get? loc = some (.file (applyRules rules text).toUTF8 true) ∧ w.SameOutline v ∧
    ∀ other, other ≠ loc → w.content? other = v.content? other
  /-- There is nothing to do exactly if the rules leave the text as it is, writable or not. -/
  unchanged_iff : result = .ok false ↔
    ∃ text : String, v.read path = .ok text.toUTF8 ∧ applyRules rules text = text
  /-- It fails exactly if the file cannot be read, is no text, or cannot be written. -/
  failed_iff : (∃ f, result = .error f) ↔ (∃ cause, v.read path = .error cause) ∨
    (∃ content, v.read path = .ok content ∧ String.fromUTF8? content = none) ∨
    ∃ (text : String) (cause : Cause), v.read path = .ok text.toUTF8 ∧
      applyRules rules text ≠ text ∧ (v.write path (applyRules rules text).toUTF8).1 = .error cause
  failure : ∀ f, result = .error f → v.FailureTells path f
  /-- Unless the file is fixed, everything is as it was. -/
  kept : result ≠ .ok true → w = v

/-- Fixing a file changes it as a whole or changes nothing, and its result tells which and why. -/
theorem fixFile_allOrNothing (v : Volume) (rules : List Rule) (path : Bytes) :
    v.AllOrNothing rules path (v.fixFile rules path).1 (v.fixFile rules path).2 := by
  have h := fixStep_fixFile v rules path
  generalize (v.fixFile rules path).1 = result at h ⊢
  generalize (v.fixFile rules path).2 = w at h ⊢
  constructor
  case fixed_iff => exact h.eq_ok_true_iff
  case fixed =>
    rintro rfl
    exact h.of_ok_true
  case unchanged_iff => exact h.eq_ok_false_iff
  case failed_iff => exact h.exists_error_iff
  case failure =>
    rintro f rfl
    exact h.failureTells
  case kept => exact h.eq_of_ne_ok_true

end Volume

end ImportSuffix
