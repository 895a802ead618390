import ImportSuffix.Proofs.Visits
import Mathlib.Data.List.Basic

/-!
# What a report tells

A report is judged by the visits of its run, and a visit by the volumes before and after it alone:
whether its file could be read, was a text, could be written (`Visit.fails`), and whether the
content of its file is another one afterwards (`Visit.changed`). A report that agrees with these
judgements for all visits, in their order and with the right numbers, tells the truth
(`Report.Tells`), and every run reports the truth (`run_tells`).
-/

namespace ImportSuffix

open Text (Bytes)
open Volume (read_eq_ok_iff content?_setContent_self)

namespace Visit

variable {s : Visit} {rules : List Rule}

/-! ### Judging a visit -/

/-- Whether the file cannot be read. -/
def unread (s : Visit) : Bool :=
  match s.before.read s.path with
  | .ok _ => false
  | .error _ => true

/-- Whether the file can be read but is no text. -/
def undecoded (s : Visit) : Bool :=
  match s.before.read s.path with
  | .ok content => (String.fromUTF8? content).isNone
  | .error _ => false

/-- The text of the file, if it can be read and is a text. -/
def text? (s : Visit) : Option String :=
  match s.before.read s.path with
  | .ok content => String.fromUTF8? content
  | .error _ => none

/-- Whether the file is a text that the rules leave as it is. -/
def unchanged (s : Visit) (rules : List Rule) : Bool :=
  match s.text? with
  | some text => applyRules rules text = text
  | none => false

/-- Whether the file is a text that the rules change, and the new one cannot be written. -/
def unwritten (s : Visit) (rules : List Rule) : Bool :=
  match s.text? with
  | some text =>
    applyRules rules text ≠ text &&
      match (s.before.write s.path (applyRules rules text).toUTF8).1 with
      | .ok () => false
      | .error _ => true
  | none => false

/-- Whether the file cannot be read, is no text or cannot be written. -/
def fails (s : Visit) (rules : List Rule) : Bool := s.unread || s.undecoded || s.unwritten rules

-- Contents are compared by the equality of the core library, whatever others are in scope.
local instance (priority := 2000) decidableEqContent : DecidableEq ByteArray :=
  ByteArray.instDecidableEq

/-- Whether the file that the path leads to holds something else after the visit than before. -/
def changed (s : Visit) : Bool :=
  match s.before.locate s.path with
  | .ok loc => s.after.content? loc ≠ s.before.content? loc
  | .error _ => false

/-- The code that is told if the visit fails. -/
def failureCode (s : Visit) : String :=
  if s.undecoded then "file.invalid_encoding" else "internal.io_error"

end Visit

/-- That a report tells the truth about the visits of a run. -/
structure Report.Tells (r : Report) (rules : List Rule) (steps : List Visit) : Prop where
  filesFound : r.filesFound = steps.length
  /-- Every file is unchanged, changed or failed, and only one of these. -/
  once : ∀ s ∈ steps, [s.unchanged rules, s.changed, s.fails rules].count true = 1
  fixed : r.fixed = (steps.filter Visit.changed).map Visit.file
  errors : r.errors.map (fun e => (e.file, e.code.text)) =
    (steps.filter (Visit.fails · rules)).map fun s => (s.file, s.failureCode)
  filesFixed : r.filesFixed = r.fixed.length
  length_le : r.fixed.length + r.errors.length ≤ r.filesFound
  message : r.message = Volume.doneMessage r.filesFound r.filesFixed

namespace Visit

variable {s : Visit} {rules : List Rule} {f : Failure} {loc : Location} {text : String}

/-! ### The judgements of a step -/

theorem of_read_error {cause : Cause} (h : s.before.read s.path = .error cause) :
    s.unread = true ∧ s.undecoded = false ∧ s.text? = none := by
  simp only [unread, undecoded, text?, h, and_self]

theorem of_no_text {content : ByteArray} (h : s.before.read s.path = .ok content)
    (hnone : String.fromUTF8? content = none) :
    s.unread = false ∧ s.undecoded = true ∧ s.text? = none := by
  simp only [unread, undecoded, text?, h, hnone, Option.isNone_none, and_self]

theorem of_text (h : s.before.read s.path = .ok text.toUTF8) :
    s.unread = false ∧ s.undecoded = false ∧ s.text? = some text := by
  simp only [unread, undecoded, text?, h, fromUTF8?_toUTF8, Option.isNone_some, and_self]

theorem changed_of_eq (h : s.after = s.before) : s.changed = false := by
  rw [changed, h]
  cases s.before.locate s.path with
  | ok loc => simp
  | error cause => rfl

/-- That a visit leaves its file unchanged, changes it or fails, only one of these, and adds to the
report what it should. -/
structure Judged (s : Visit) (rules : List Rule) : Prop where
  once : [s.unchanged rules, s.changed, s.fails rules].count true = 1
  fixed?_eq : s.fixed? = if s.changed then some s.file else none
  error?_eq : s.error?.map (fun e => (e.file, e.code.text)) =
    if s.fails rules then some (s.file, s.failureCode) else none

/-- A visit that fails and leaves everything as it was. -/
theorem Judged.of_fails (hunchanged : s.unchanged rules = false) (hfails : s.fails rules = true)
    (hafter : s.after = s.before) (hresult : s.result = .error f)
    (hcode : f.code.text = s.failureCode) : s.Judged rules := by
  have hchanged := changed_of_eq hafter
  constructor
  · rw [hunchanged, hchanged, hfails]
    rfl
  · rw [fixed?, hresult, hchanged]
    rfl
  · rw [error?, hresult, hfails, Option.map_some, hcode, if_pos rfl]

theorem Judged.of_unread {cause : Cause} (hread : s.before.read s.path = .error cause)
    (hafter : s.after = s.before) (hresult : s.result = .error f) (hcode : f.code = .io) :
    s.Judged rules := by
  obtain ⟨hunread, hundecoded, htext⟩ := of_read_error hread
  refine .of_fails ?_ ?_ hafter hresult ?_
  · rw [unchanged, htext]
  · rw [fails, hunread]
    rfl
  · rw [failureCode, hundecoded, hcode]
    rfl

theorem Judged.of_undecoded {content : ByteArray} (hread : s.before.read s.path = .ok content)
    (hnone : String.fromUTF8? content = none) (hafter : s.after = s.before)
    (hresult : s.result = .error f) (hcode : f.code = .invalidEncoding) : s.Judged rules := by
  obtain ⟨hunread, hundecoded, htext⟩ := of_no_text hread hnone
  refine .of_fails ?_ ?_ hafter hresult ?_
  · rw [unchanged, htext]
  · rw [fails, hunread, hundecoded]
    rfl
  · rw [failureCode, hundecoded, hcode]
    rfl

theorem Judged.of_unwritten {cause : Cause} (hread : s.before.read s.path = .ok text.toUTF8)
    (hnew : applyRules rules text ≠ text)
    (hwrite : (s.before.write s.path (applyRules rules text).toUTF8).1 = .error cause)
    (hafter : s.after = s.before) (hresult : s.result = .error f) (hcode : f.code = .io) :
    s.Judged rules := by
  obtain ⟨hunread, hundecoded, htext⟩ := of_text hread
  refine .of_fails ?_ ?_ hafter hresult ?_
  · rw [unchanged, htext]
    exact decide_eq_false hnew
  · simp only [fails, unwritten, htext, hwrite, ne_eq, hnew, not_false_eq_true, decide_true,
      Bool.and_self, Bool.or_true]
  · rw [failureCode, hundecoded, hcode]
    rfl

theorem Judged.of_unchanged (hread : s.before.read s.path = .ok text.toUTF8)
    (hsame : applyRules rules text = text) (hafter : s.after = s.before)
    (hresult : s.result = .ok false) : s.Judged rules := by
  obtain ⟨hunread, hundecoded, htext⟩ := of_text hread
  have hchanged := changed_of_eq hafter
  have hunchanged : s.unchanged rules = true := by
    rw [unchanged, htext]
    exact decide_eq_true hsame
  have hfails : s.fails rules = false := by
    rw [fails, hunread, hundecoded, unwritten, htext]
    simp only [hsame, ne_eq, not_true_eq_false, decide_false, Bool.false_and, Bool.or_self]
  constructor
  · rw [hunchanged, hchanged, hfails]
    rfl
  · rw [fixed?, hresult, hchanged]
    rfl
  · rw [error?, hresult, hfails]
    rfl

theorem Judged.of_changed (hread : s.before.read s.path = .ok text.toUTF8)
    (hnew : applyRules rules text ≠ text)
    (hwrite : (s.before.write s.path (applyRules rules text).toUTF8).1 = .ok ())
    (hlocate : s.before.locate s.path = .ok loc)
    (hcontent : s.after.content? loc ≠ s.before.content? loc)
    (hresult : s.result = .ok true) : s.Judged rules := by
  obtain ⟨hunread, hundecoded, htext⟩ := of_text hread
  have hchanged : s.changed = true := by
    rw [changed, hlocate]
    exact decide_eq_true hcontent
  have hunchanged : s.unchanged rules = false := by
    rw [unchanged, htext]
    exact decide_eq_false hnew
  have hfails : s.fails rules = false := by
    rw [fails, hunread, hundecoded, unwritten, htext]
    simp only [hwrite, Bool.and_false, Bool.or_self]
  constructor
  · rw [hunchanged, hchanged, hfails]
    rfl
  · rw [fixed?, hresult, hchanged, if_pos rfl]
  · rw [error?, hresult, hfails]
    rfl

/-- What the judgements of a step come to. -/
theorem judged (h : s.before.FixStep rules s.path s.result s.after) : s.Judged rules := by
  obtain ⟨path, v, result, w⟩ := s
  change v.FixStep rules path result w at h
  cases h with
  | unread hread => exact .of_unread hread rfl rfl rfl
  | notText hfile hnone => exact .of_undecoded (read_eq_ok_iff.2 ⟨_, _, hfile⟩) hnone rfl rfl rfl
  | unchanged hfile hsame => exact .of_unchanged (read_eq_ok_iff.2 ⟨_, _, hfile⟩) hsame rfl rfl
  | @closed dest text hfile hnew =>
    have hwrite : (v.write path (applyRules rules text).toUTF8).1 = .error .notPermitted :=
      congrArg Prod.fst (hfile.write_eq _)
    exact .of_unwritten (read_eq_ok_iff.2 ⟨_, _, hfile⟩) hnew hwrite rfl rfl rfl
  | @fixed dest text hfile hnew =>
    have hwrite : (v.write path (applyRules rules text).toUTF8).1 = .ok () :=
      congrArg Prod.fst (hfile.write_eq _)
    refine .of_changed (read_eq_ok_iff.2 ⟨_, _, hfile⟩) hnew hwrite hfile.locate_eq ?_ rfl
    rw [content?_setContent_self hfile.outline?_eq, hfile.content?_eq]
    intro hsame
    exact hnew (String.toByteArray_inj.1 (Option.some.inj hsame))

/-! ### All visits of a run -/

section

variable {steps : List Visit} (h : ∀ s ∈ steps, s.Judged rules)

include h

theorem filterMap_fixed? : steps.filterMap fixed? = (steps.filter changed).map file := by
  rw [← List.filterMap_eq_map, List.filterMap_filter]
  exact List.filterMap_congr fun s hs => (h s hs).fixed?_eq

theorem map_filterMap_error? :
    (steps.filterMap error?).map (fun e => (e.file, e.code.text)) =
      (steps.filter (fails · rules)).map fun s => (s.file, s.failureCode) := by
  rw [List.map_filterMap, ← List.filterMap_eq_map, List.filterMap_filter]
  exact List.filterMap_congr fun s hs => (h s hs).error?_eq

/-- No visit is told as fixed and as failed. -/
theorem length_filter_add_length_filter_le :
    (steps.filter changed).length + (steps.filter (fails · rules)).length ≤ steps.length := by
  rw [← List.countP_eq_length_filter, ← List.countP_eq_length_filter,
    List.length_eq_countP_add_countP changed]
  refine Nat.add_le_add_left (List.countP_mono_left fun s hs hfails => ?_) _
  have honce := (h s hs).once
  cases hchanged : s.changed with
  | false => rfl
  | true =>
    rw [hchanged, hfails] at honce
    cases hunchanged : s.unchanged rules <;> rw [hunchanged] at honce <;> cases honce

end

end Visit

namespace Volume

/-- The visits of a run are those to the discovered files in their order, each beginning with what
the one before has left, and the report tells the truth about them. Of a root that does not exist it
tells so, and nothing has been done. -/
theorem run_tells (v : Volume) (c : Config) (rules : List Rule) :
    if v.contains c.root then
      let steps := v.visits rules (v.discover c)
      steps.map Visit.path = v.discover c ∧ Visit.Row v steps (v.run c rules).volume ∧
        (v.run c rules).report.root = Text.display c.root ∧
        (v.run c rules).report.rootFound = true ∧ (v.run c rules).report.Tells rules steps
    else
      (v.run c rules).volume = v ∧
        (v.run c rules).report =
          ⟨Text.display c.root, false, missingMessage (Text.display c.root), 0, 0, [], []⟩ := by
  cases h : v.contains c.root with
  | false => exact run_of_not_contains h rules
  | true =>
    obtain ⟨hvolume, hreport⟩ := run_of_contains h rules
    have hpaths := v.map_path_visits rules (v.discover c)
    have hjudged : ∀ s ∈ v.visits rules (v.discover c), s.Judged rules :=
      fun s hs => Visit.judged (fixStep_of_mem_visits hs)
    have hcount : (v.discover c).length = (v.visits rules (v.discover c)).length := by
      rw [← congrArg List.length hpaths, List.length_map]
    refine ⟨hpaths, hvolume ▸ row_visits v rules (v.discover c), ?_⟩
    rw [hreport]
    refine ⟨rfl, rfl, ?_⟩
    constructor
    case filesFound => exact hcount
    case once => exact fun s hs => (hjudged s hs).once
    case fixed => exact Visit.filterMap_fixed? hjudged
    case errors => exact Visit.map_filterMap_error? hjudged
    case filesFixed => rfl
    case length_le =>
      have hle := Visit.length_filter_add_length_filter_le hjudged
      have herrors := congrArg List.length (Visit.map_filterMap_error? hjudged)
      rw [List.length_map, List.length_map] at herrors
      simp only [Visit.filterMap_fixed? hjudged, herrors, List.length_map, hcount]
      exact hle
    case message => rfl

end Volume

end ImportSuffix
