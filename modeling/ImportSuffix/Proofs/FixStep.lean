import ImportSuffix.Fix
import ImportSuffix.Proofs.Route
import Mathlib.Logic.Function.Iterate

/-!
# What fixing a file comes to

Fixing the file at a path comes to one of five things, each with its result and the volume after it
(`Volume.FixStep`): the path cannot be read, the file is no text, the rules do not change the text,
the file is closed to writing, or it is written. What a step does to a volume, and what it tells, is
read off these cases.

A step rewrites the file that its path leads to, if that can be written, and leaves all else as it
is (`FixStep.rewrittenTo`). So do several steps in a row (`RewrittenTo.trans`).
-/

namespace ImportSuffix

open Text (Bytes)

/-! ### Rewriting a content -/

theorem fromUTF8?_toUTF8 (text : String) : String.fromUTF8? text.toUTF8 = some text :=
  dif_pos text.isValidUTF8

/-- A content is a text exactly if it is the encoding of that text. -/
theorem fromUTF8?_eq_some_iff {content : ByteArray} {text : String} :
    String.fromUTF8? content = some text ↔ content = text.toUTF8 := by
  constructor
  · intro h
    rw [String.fromUTF8?] at h
    split at h
    · exact congrArg String.toByteArray (Option.some.inj h)
    · cases h
  · intro h
    rw [h, fromUTF8?_toUTF8]

/-- A content after so many applications of the rules, if it is a text. Other contents stay as they
are. -/
def rewriteContent (rules : List Rule) (times : Nat) (content : ByteArray) : ByteArray :=
  match String.fromUTF8? content with
  | some text => ((applyRules rules)^[times] text).toUTF8
  | none => content

section

variable {rules : List Rule} {content : ByteArray}

theorem rewriteContent_of_text (rules : List Rule) (times : Nat) (text : String) :
    rewriteContent rules times text.toUTF8 = ((applyRules rules)^[times] text).toUTF8 := by
  rw [rewriteContent, fromUTF8?_toUTF8]

theorem rewriteContent_of_none (h : String.fromUTF8? content = none) (times : Nat) :
    rewriteContent rules times content = content := by
  rw [rewriteContent, h]

@[simp] theorem rewriteContent_zero (rules : List Rule) (content : ByteArray) :
    rewriteContent rules 0 content = content := by
  cases h : String.fromUTF8? content with
  | none => exact rewriteContent_of_none h 0
  | some text =>
    obtain rfl := fromUTF8?_eq_some_iff.1 h
    exact rewriteContent_of_text rules 0 text

theorem rewriteContent_rewriteContent (rules : List Rule) (m n : Nat) (content : ByteArray) :
    rewriteContent rules m (rewriteContent rules n content) =
      rewriteContent rules (n + m) content := by
  cases h : String.fromUTF8? content with
  | none => simp only [rewriteContent_of_none h]
  | some text =>
    obtain rfl := fromUTF8?_eq_some_iff.1 h
    simp only [rewriteContent_of_text, ← Function.iterate_add_apply, Nat.add_comm]

end

namespace Volume

variable {v w u : Volume} {path : Bytes} {loc : Location} {content : ByteArray} {writable : Bool}
  {rules : List Rule} {result : Except Failure Bool}

/-! ### Reading and writing a file -/

/-- That a path leads to a file. -/
structure LeadsToFile (v : Volume) (path : Bytes) (loc : Location) (content : ByteArray)
    (writable : Bool) : Prop where
  locate_eq : v.locate path = .ok loc
  get?_eq : v.get? loc = some (.file content writable)

theorem LeadsToFile.outline?_eq (h : v.LeadsToFile path loc content writable) :
    v.outline? loc = some (.file writable) :=
  (get?_eq_file_iff.1 h.get?_eq).1

theorem LeadsToFile.content?_eq (h : v.LeadsToFile path loc content writable) :
    v.content? loc = some content :=
  (get?_eq_file_iff.1 h.get?_eq).2

/-- A path leads to one file at most. -/
theorem LeadsToFile.unique {loc' : Location} {content' : ByteArray} {writable' : Bool}
    (h : v.LeadsToFile path loc content writable)
    (h' : v.LeadsToFile path loc' content' writable') :
    loc = loc' ∧ content = content' ∧ writable = writable' := by
  cases h.locate_eq.symm.trans h'.locate_eq
  cases h.get?_eq.symm.trans h'.get?_eq
  exact ⟨rfl, rfl, rfl⟩

theorem read_eq_ok_iff : v.read path = .ok content ↔
    ∃ loc writable, v.LeadsToFile path loc content writable := by
  constructor
  · intro h
    rw [read] at h
    split at h
    · cases h
    · next loc hloc =>
      split at h
      · next hfile => cases h; exact ⟨loc, _, hloc, hfile⟩
      · cases h
      · cases h
  · intro h
    obtain ⟨loc, writable, hloc, hfile⟩ := h
    simp only [read, hloc, hfile]

/-- Whether a path can be read, and if not why, depends on the outline alone. -/
theorem SameOutline.read_eq_error {cause : Cause} (h : v.SameOutline w)
    (hread : v.read path = .error cause) : w.read path = .error cause := by
  unfold read at hread ⊢
  rw [← h.locate_eq]
  cases hloc : v.locate path with
  | error cause' => simpa only [hloc] using hread
  | ok loc =>
    have houtline : (v.get? loc).map Node.outline = (w.get? loc).map Node.outline :=
      h.outline?_eq loc
    simp only [hloc] at hread ⊢
    cases hv : v.get? loc with
    | none =>
      rw [hv] at hread houtline
      rw [Option.map_eq_none_iff.1 houtline.symm]
      exact hread
    | some node =>
      rw [hv] at hread houtline
      obtain ⟨node', hw, hsame⟩ := Option.map_eq_some_iff.1 houtline.symm
      rw [hw]
      cases node with
      | file _ _ => cases hread
      | link _ =>
        cases node' with
        | link _ => exact hread
        | file _ _ | dir _ _ => cases hsame
      | dir _ _ =>
        cases node' with
        | dir _ _ => exact hread
        | file _ _ | link _ => cases hsame

theorem LeadsToFile.write_eq (h : v.LeadsToFile path loc content writable) (new : ByteArray) :
    v.write path new =
      if writable then (.ok (), v.setContent loc new) else (.error .notPermitted, v) := by
  simp only [write, follow_writing h.locate_eq h.outline?_eq, h.get?_eq]
  cases writable <;> rfl

/-! ### The step -/

/-- What fixing the file at a path comes to: the result and the volume after it. -/
inductive FixStep (v : Volume) (rules : List Rule) (path : Bytes) :
    Except Failure Bool → Volume → Prop
  /-- The path leads to nothing that can be read. -/
  | unread {cause : Cause} (h : v.read path = .error cause) :
      FixStep v rules path
        (.error (.io cause.text (some ("read " ++ Text.display path)))) v
  /-- The file is no text. -/
  | notText {dest : Location} {bytes : ByteArray} {isOpen : Bool}
      (hfile : v.LeadsToFile path dest bytes isOpen) (h : String.fromUTF8? bytes = none) :
      FixStep v rules path (.error (.invalidEncoding (Text.display path) notText)) v
  /-- The rules do not change the text. -/
  | unchanged {dest : Location} {text : String} {isOpen : Bool}
      (hfile : v.LeadsToFile path dest text.toUTF8 isOpen) (h : applyRules rules text = text) :
      FixStep v rules path (.ok false) v
  /-- The rules change the text, but the file is closed to writing. -/
  | closed {dest : Location} {text : String} (hfile : v.LeadsToFile path dest text.toUTF8 false)
      (h : applyRules rules text ≠ text) :
      FixStep v rules path
        (.error (.io Cause.notPermitted.text (some ("write " ++ Text.display path)))) v
  /-- The rules change the text, and it is written. -/
  | fixed {dest : Location} {text : String} (hfile : v.LeadsToFile path dest text.toUTF8 true)
      (h : applyRules rules text ≠ text) :
      FixStep v rules path (.ok true) (v.setContent dest (applyRules rules text).toUTF8)

/-- Every path has a step. -/
theorem exists_fixStep (v : Volume) (rules : List Rule) (path : Bytes) :
    ∃ result w, v.FixStep rules path result w := by
  cases hread : v.read path with
  | error cause => exact ⟨_, _, .unread hread⟩
  | ok content =>
    obtain ⟨loc, writable, hfile⟩ := read_eq_ok_iff.1 hread
    cases htext : String.fromUTF8? content with
    | none => exact ⟨_, _, .notText hfile htext⟩
    | some text =>
      obtain rfl := fromUTF8?_eq_some_iff.1 htext
      by_cases hsame : applyRules rules text = text
      · exact ⟨_, _, .unchanged hfile hsame⟩
      · cases writable with
        | true => exact ⟨_, _, .fixed hfile hsame⟩
        | false => exact ⟨_, _, .closed hfile hsame⟩

/-- The step is what fixing the file gives. -/
theorem FixStep.fixFile_eq (h : v.FixStep rules path result w) :
    v.fixFile rules path = (result, w) := by
  cases h with
  | unread hread => simp only [fixFile, readText, hread]
  | notText hfile hnone => simp only [fixFile, readText, read_eq_ok_iff.2 ⟨_, _, hfile⟩, hnone]
  | unchanged hfile hsame =>
    simp only [fixFile, readText, read_eq_ok_iff.2 ⟨_, _, hfile⟩, fromUTF8?_toUTF8, hsame, if_true]
  | closed hfile hnew =>
    simp only [fixFile, readText, read_eq_ok_iff.2 ⟨_, _, hfile⟩, fromUTF8?_toUTF8, hnew, if_false,
      writeText, hfile.write_eq, Bool.false_eq_true]
  | fixed hfile hnew =>
    simp only [fixFile, readText, read_eq_ok_iff.2 ⟨_, _, hfile⟩, fromUTF8?_toUTF8, hnew, if_false,
      writeText, hfile.write_eq, if_true]

theorem fixStep_fixFile (v : Volume) (rules : List Rule) (path : Bytes) :
    v.FixStep rules path (v.fixFile rules path).1 (v.fixFile rules path).2 := by
  obtain ⟨result, w, h⟩ := exists_fixStep v rules path
  rwa [h.fixFile_eq]

/-- A step that fails leaves everything as it was. -/
theorem FixStep.eq_of_error {f : Failure} (h : v.FixStep rules path (.error f) w) : w = v := by
  cases h with
  | unread _ => rfl
  | notText _ _ => rfl
  | closed _ _ => rfl

/-! ### What a step does to a volume -/

/-- That a volume is what another one becomes when the files at each location are rewritten so many
times. -/
structure RewrittenTo (v : Volume) (rules : List Rule) (times : Location → Nat) (w : Volume) :
    Prop where
  /-- Nothing appears, vanishes or becomes something else, and every link leads where it led. -/
  sameOutline : w.SameOutline v
  /-- Files that can be written hold what the rules make of what they held, others what they
  held. -/
  content?_eq : ∀ loc, w.content? loc = (v.content? loc).map fun content =>
    if v.outline? loc = some (.file true) then rewriteContent rules (times loc) content else content

theorem RewrittenTo.refl (v : Volume) (rules : List Rule) : v.RewrittenTo rules (fun _ => 0) v := by
  refine ⟨.refl v, fun loc => ?_⟩
  simp

theorem RewrittenTo.trans {m n : Location → Nat} (h : v.RewrittenTo rules m w)
    (h' : w.RewrittenTo rules n u) : v.RewrittenTo rules (fun loc => m loc + n loc) u := by
  refine ⟨h'.sameOutline.trans h.sameOutline, fun loc => ?_⟩
  rw [h'.content?_eq, h.content?_eq, h.sameOutline.outline?_eq, Option.map_map]
  congr 1
  funext content
  by_cases houtline : v.outline? loc = some (.file true)
  · simp only [Function.comp_apply, if_pos houtline, rewriteContent_rewriteContent]
  · simp only [Function.comp_apply, if_neg houtline]

theorem RewrittenTo.content?_eq_of_zero {m : Location → Nat} (h : v.RewrittenTo rules m w)
    (hzero : m loc = 0) : w.content? loc = v.content? loc := by
  rw [h.content?_eq, hzero]
  simp

/-- Whether a path leads to a location. -/
def leadsTo (v : Volume) (path : Bytes) (loc : Location) : Bool :=
  match v.locate path with
  | .ok dest => dest == loc
  | .error _ => false

theorem leadsTo_iff : v.leadsTo path loc = true ↔ v.locate path = .ok loc := by
  rw [leadsTo]
  cases v.locate path <;> simp

theorem SameOutline.leadsTo_eq (h : v.SameOutline w) (path : Bytes) (loc : Location) :
    v.leadsTo path loc = w.leadsTo path loc := by
  rw [leadsTo, leadsTo, h.locate_eq]

theorem leadsToFile_iff : v.LeadsToFile path loc content writable ↔
    v.leadsTo path loc = true ∧ v.outline? loc = some (.file writable) ∧
      v.content? loc = some content := by
  rw [leadsTo_iff, ← get?_eq_file_iff]
  constructor
  · intro h
    exact ⟨h.locate_eq, h.get?_eq⟩
  · intro h
    exact ⟨h.1, h.2⟩

/-- Where a file is not changed by one more rewriting, there is nothing to be done about it. -/
theorem map_content?_eq_self
    (h : ∀ content, v.LeadsToFile path loc content true →
      rewriteContent rules 1 content = content) :
    ((v.content? loc).map fun content =>
      if v.outline? loc = some (.file true) then
        rewriteContent rules (if v.leadsTo path loc then 1 else 0) content
      else content) = v.content? loc := by
  cases hcontent : v.content? loc with
  | none => rfl
  | some content =>
    rw [Option.map_some]
    by_cases houtline : v.outline? loc = some (.file true)
    · by_cases hlead : v.leadsTo path loc = true
      · rw [if_pos houtline, if_pos hlead,
          h content (leadsToFile_iff.2 ⟨hlead, houtline, hcontent⟩)]
      · rw [if_pos houtline, if_neg hlead, rewriteContent_zero]
    · rw [if_neg houtline]

/-- A step rewrites the file that its path leads to, if it leads to one. -/
theorem FixStep.rewrittenTo (h : v.FixStep rules path result w) :
    v.RewrittenTo rules (fun loc => if v.leadsTo path loc then 1 else 0) w := by
  cases h with
  | @unread cause h =>
    refine ⟨.refl v, fun loc => (map_content?_eq_self fun content hfile => ?_).symm⟩
    cases h.symm.trans (read_eq_ok_iff.2 ⟨loc, true, hfile⟩)
  | notText hfile' h =>
    refine ⟨.refl v, fun loc => (map_content?_eq_self fun content hfile => ?_).symm⟩
    obtain ⟨-, rfl, -⟩ := hfile'.unique hfile
    exact rewriteContent_of_none h 1
  | unchanged hfile' h =>
    refine ⟨.refl v, fun loc => (map_content?_eq_self fun content hfile => ?_).symm⟩
    obtain ⟨-, rfl, -⟩ := hfile'.unique hfile
    rw [rewriteContent_of_text, Function.iterate_one, h]
  | closed hfile' h =>
    refine ⟨.refl v, fun loc => (map_content?_eq_self fun content hfile => ?_).symm⟩
    obtain ⟨-, -, hclosed⟩ := hfile'.unique hfile
    cases hclosed
  | @fixed dest text hfile' h =>
    refine ⟨sameOutline_setContent v dest _, fun loc => ?_⟩
    by_cases hloc : loc = dest
    · subst hloc
      obtain ⟨hlead, houtline, hcontent⟩ := leadsToFile_iff.1 hfile'
      rw [content?_setContent_self houtline, hcontent, Option.map_some, if_pos houtline,
        if_pos hlead, rewriteContent_of_text, Function.iterate_one]
    · rw [content?_setContent_of_ne v _ hloc]
      refine (map_content?_eq_self fun content hfile => ?_).symm
      exact absurd (hfile.unique hfile').1 hloc

end Volume

end ImportSuffix
