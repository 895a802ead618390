import ImportSuffix.Proofs.FixStep
import ImportSuffix.Run

/-!
# The visits of a run

A run visits the files that it discovers one after the other, and each visit begins with the volume
that the one before has left (`Visit.Row`). What a run reports and the volume that it leaves are
read off its visits (`run_of_contains`).

A visit rewrites the file that its path leads to, and no visit changes where a path leads. So in the
end every file has been rewritten as many times as there are paths that lead to it
(`rewrittenTo_run`).
-/

namespace ImportSuffix

open Text (Bytes)

theorem toList_append_filterMap {α β : Type} (f : α → Option β) (x : α) (xs : List α) :
    (f x).toList ++ xs.filterMap f = (x :: xs).filterMap f := by
  rw [List.filterMap_cons]
  cases f x <;> rfl

/-- What happened when the file at a path was fixed: the volume before it, the result and the volume
after it. -/
structure Visit where
  path : Bytes
  before : Volume
  result : Except Failure Bool
  after : Volume

namespace Visit

/-- The path as it is shown. -/
def file (s : Visit) : String := Text.display s.path

/-- What the visit adds to the files that were fixed. -/
def fixed? (s : Visit) : Option String :=
  match s.result with
  | .ok true => some s.file
  | _ => none

/-- What the visit adds to the files that failed. -/
def error? (s : Visit) : Option FileError :=
  match s.result with
  | .error f => some ⟨s.file, f.code, f.message⟩
  | _ => none

/-- The line that is logged of the visit. -/
def line? (s : Visit) : Option String :=
  match s.result with
  | .ok true => some (Progress.logMark ++ "Fixed imports in: " ++ s.file)
  | .ok false => none
  | .error f => some (Progress.logMark ++ "Error processing " ++ s.file ++ ": " ++ f.message)

/-- That visits follow each other: the first one begins with a volume, each other one with what the
one before has left, and the last one leaves a volume. -/
inductive Row : Volume → List Visit → Volume → Prop
  | nil (v : Volume) : Row v [] v
  | cons {s : Visit} {rest : List Visit} {w : Volume} (h : Row s.after rest w) :
      Row s.before (s :: rest) w

end Visit

namespace Volume

variable {v w : Volume} {rules : List Rule}

/-- The visit to the file at a path. -/
def visit (v : Volume) (rules : List Rule) (path : Bytes) : Visit :=
  ⟨path, v, (v.fixFile rules path).1, (v.fixFile rules path).2⟩

/-- The visits to the files at some paths in a row. -/
def visits (v : Volume) (rules : List Rule) : List Bytes → List Visit
  | [] => []
  | path :: rest => v.visit rules path :: visits (v.visit rules path).after rules rest

/-- The volume after the files at some paths have been fixed in a row. -/
def fixAll (v : Volume) (rules : List Rule) (paths : List Bytes) : Volume :=
  paths.foldl (fun u path => (u.fixFile rules path).2) v

@[simp] theorem fixAll_nil (v : Volume) (rules : List Rule) : v.fixAll rules [] = v := rfl

@[simp] theorem fixAll_cons (v : Volume) (rules : List Rule) (path : Bytes) (rest : List Bytes) :
    v.fixAll rules (path :: rest) = (v.visit rules path).after.fixAll rules rest := rfl

theorem fixStep_visit (v : Volume) (rules : List Rule) (path : Bytes) :
    v.FixStep rules path (v.visit rules path).result (v.visit rules path).after :=
  fixStep_fixFile v rules path

theorem FixStep.visit_eq {path : Bytes} {result : Except Failure Bool}
    (h : v.FixStep rules path result w) : v.visit rules path = ⟨path, v, result, w⟩ := by
  rw [visit, h.fixFile_eq]

theorem map_path_visits (v : Volume) (rules : List Rule) (paths : List Bytes) :
    (v.visits rules paths).map Visit.path = paths := by
  induction paths generalizing v with
  | nil => rfl
  | cons path rest ih => rw [visits, List.map_cons, ih]; rfl

theorem row_visits (v : Volume) (rules : List Rule) (paths : List Bytes) :
    Visit.Row v (v.visits rules paths) (v.fixAll rules paths) := by
  induction paths generalizing v with
  | nil => exact .nil v
  | cons path rest ih => exact .cons (s := v.visit rules path) (ih _)

/-- Every visit is a step. -/
theorem fixStep_of_mem_visits {paths : List Bytes} {s : Visit} (h : s ∈ v.visits rules paths) :
    s.before.FixStep rules s.path s.result s.after := by
  induction paths generalizing v with
  | nil => cases h
  | cons path rest ih =>
    rcases List.mem_cons.1 h with rfl | hrest
    · exact fixStep_visit v rules path
    · exact ih hrest

/-! ### The run -/

/-- One more file of a run, told by its visit. -/
theorem step_eq (rules : List Rule) (p : Progress) (path : Bytes) :
    p.step rules path =
      ⟨(p.volume.visit rules path).after,
        p.fixed ++ (p.volume.visit rules path).fixed?.toList,
        p.errors ++ (p.volume.visit rules path).error?.toList,
        p.log ++ (p.volume.visit rules path).line?.toList⟩ := by
  rcases hfix : p.volume.fixFile rules path with ⟨f | _ | _, u⟩ <;>
    simp [Progress.step, visit, Visit.fixed?, Visit.error?, Visit.line?, Visit.file, hfix]

/-- How far a run has come after some more files, told by the visits to them. -/
theorem foldl_step (rules : List Rule) (p : Progress) (paths : List Bytes) :
    paths.foldl (Progress.step rules) p =
      ⟨p.volume.fixAll rules paths,
        p.fixed ++ (p.volume.visits rules paths).filterMap Visit.fixed?,
        p.errors ++ (p.volume.visits rules paths).filterMap Visit.error?,
        p.log ++ (p.volume.visits rules paths).filterMap Visit.line?⟩ := by
  induction paths generalizing p with
  | nil => simp [visits]
  | cons path rest ih =>
    rw [List.foldl_cons, ih, step_eq]
    simp only [visits, fixAll_cons, List.append_assoc, toList_append_filterMap]

/-- A run over an existing root, told by its visits. -/
theorem run_of_contains {c : Config} (h : v.contains c.root = true) (rules : List Rule) :
    (v.run c rules).volume = v.fixAll rules (v.discover c) ∧
      (v.run c rules).report =
        ⟨Text.display c.root, true,
          doneMessage (v.discover c).length
            ((v.visits rules (v.discover c)).filterMap Visit.fixed?).length,
          (v.discover c).length, ((v.visits rules (v.discover c)).filterMap Visit.fixed?).length,
          (v.visits rules (v.discover c)).filterMap Visit.fixed?,
          (v.visits rules (v.discover c)).filterMap Visit.error?⟩ := by
  simp only [run, h, foldl_step, List.nil_append, Bool.not_true, Bool.false_eq_true, if_false,
    and_self]

theorem run_of_not_contains {c : Config} (h : v.contains c.root = false) (rules : List Rule) :
    (v.run c rules).volume = v ∧
      (v.run c rules).report =
        ⟨Text.display c.root, false, missingMessage (Text.display c.root), 0, 0, [], []⟩ := by
  simp only [run, h, Bool.not_false, if_true, and_self]

/-! ### What a run does to a volume -/

/-- Fixing files in a row rewrites each file as many times as there are paths that lead to it. -/
theorem rewrittenTo_fixAll (v : Volume) (rules : List Rule) (paths : List Bytes) :
    v.RewrittenTo rules (fun loc => paths.countP (v.leadsTo · loc)) (v.fixAll rules paths) := by
  induction paths generalizing v with
  | nil => exact .refl v rules
  | cons path rest ih =>
    have hfirst := (fixStep_visit v rules path).rewrittenTo
    -- The paths that remain lead where they led before the first visit.
    have hrest := hfirst.trans (ih (v.visit rules path).after)
    simp only [hfirst.sameOutline.leadsTo_eq] at hrest
    simpa only [List.countP_cons, Nat.add_comm, fixAll_cons] using hrest

/-- A run changes nothing but contents. It rewrites each file that can be written and holds a text
as many times as there are discovered paths that lead to it, if the root exists. So a file that no
discovered path leads to keeps its content; and a visit that fails leaves everything as it was. -/
theorem rewrittenTo_run (v : Volume) (c : Config) (rules : List Rule) :
    v.RewrittenTo rules
        (fun loc => if v.contains c.root then (v.discover c).countP (v.leadsTo · loc) else 0)
        (v.run c rules).volume ∧
      (∀ loc, (∀ path ∈ v.discover c, v.locate path ≠ .ok loc) →
        (v.run c rules).volume.content? loc = v.content? loc) ∧
      ∀ s ∈ v.visits rules (v.discover c), ∀ f, s.result = .error f → s.after = s.before := by
  have hrun : v.RewrittenTo rules
      (fun loc => if v.contains c.root then (v.discover c).countP (v.leadsTo · loc) else 0)
      (v.run c rules).volume := by
    cases h : v.contains c.root with
    | false =>
      rw [(run_of_not_contains h rules).1]
      exact .refl v rules
    | true =>
      rw [(run_of_contains h rules).1]
      exact rewrittenTo_fixAll v rules (v.discover c)
  refine ⟨hrun, fun loc hloc => hrun.content?_eq_of_zero ?_, fun s hs f hf => ?_⟩
  · have hzero : (v.discover c).countP (v.leadsTo · loc) = 0 :=
      List.countP_eq_zero.2 fun path hpath hlead => hloc path hpath (leadsTo_iff.1 hlead)
    simp only [hzero, ite_self]
  · have hstep := fixStep_of_mem_visits hs
    rw [hf] at hstep
    exact hstep.eq_of_error

end Volume

end ImportSuffix
