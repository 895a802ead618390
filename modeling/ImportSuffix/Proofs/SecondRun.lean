import ImportSuffix.Proofs.Convergence
import ImportSuffix.Proofs.Discovered
import ImportSuffix.Proofs.Visits
import ImportSuffix.Volume.Edit

/-!
# A second run

A run over what an earlier run has left finds the same files, since their paths lead where they led.
A file that the first run could not read, decode or write is as it was, so it fails in the same way
again. Any other file has been rewritten; where one more application of the rules changes nothing,
the second run has nothing to do (`run_again`). The suffix rules are such rules for texts where no
path of a clause ends in two suffixes, nor in `from`, white space and the suffix.
-/

namespace ImportSuffix

open Text (Bytes)

namespace Volume

variable {v w u : Volume} {rules : List Rule} {path : Bytes} {result : Except Failure Bool}
  {loc : Location} {content : ByteArray} {writable : Bool} {text : String} {m n : Location → Nat}

/-! ### What is left of a file -/

/-- What rewriting makes of the file that a path leads to. -/
theorem RewrittenTo.leadsToFile (h : v.RewrittenTo rules m w)
    (hfile : v.LeadsToFile path loc content writable) :
    w.LeadsToFile path loc (if writable then rewriteContent rules (m loc) content else content)
      writable := by
  obtain ⟨hlead, houtline, hcontent⟩ := leadsToFile_iff.1 hfile
  refine leadsToFile_iff.2 ⟨?_, ?_, ?_⟩
  · rwa [h.sameOutline.leadsTo_eq]
  · rwa [h.sameOutline.outline?_eq]
  · rw [h.content?_eq, hcontent, Option.map_some, houtline]
    simp only [Option.some.injEq, Outline.file.injEq]

/-- A file that is no text, or is closed to writing, holds what it held. -/
theorem RewrittenTo.leadsToFile_same (h : v.RewrittenTo rules m w)
    (hfile : v.LeadsToFile path loc content writable)
    (hkept : writable = false ∨ String.fromUTF8? content = none) :
    w.LeadsToFile path loc content writable := by
  have hafter := h.leadsToFile hfile
  rcases hkept with rfl | hnone
  · exact hafter
  · rwa [rewriteContent_of_none hnone, ite_self] at hafter

/-- Where one more application of the rules changes nothing, several come to one. -/
theorem RewrittenTo.leadsToFile_text (h : v.RewrittenTo rules m w)
    (hfile : v.LeadsToFile path loc text.toUTF8 true) (hpos : 0 < m loc)
    (hstable : applyRules rules (applyRules rules text) = applyRules rules text) :
    w.LeadsToFile path loc (applyRules rules text).toUTF8 true := by
  have hafter := h.leadsToFile hfile
  obtain ⟨k, hk⟩ := Nat.exists_eq_succ_of_ne_zero (Nat.ne_of_gt hpos)
  rwa [if_pos rfl, rewriteContent_of_text, hk, Function.iterate_succ_apply,
    Function.iterate_fixed hstable k] at hafter

end Volume

/-! ### Visiting a file once more -/

/-- That a later visit changes nothing and tells of no other failure than an earlier one. -/
structure Visit.RepeatedBy (s s' : Visit) : Prop where
  after_eq : s'.after = s'.before
  fixed?_eq : s'.fixed? = none
  error?_eq : s'.error? = s.error?

namespace Volume

variable {v w u : Volume} {rules : List Rule} {path : Bytes} {result : Except Failure Bool}
  {loc : Location} {text : String} {m n : Location → Nat}

theorem repeatedBy_of_fixStep (hu : u.FixStep rules path result u)
    (hw : w.FixStep rules path result w) (hresult : result ≠ .ok true) :
    (u.visit rules path).RepeatedBy (w.visit rules path) := by
  rw [hu.visit_eq, hw.visit_eq]
  refine ⟨rfl, ?_, rfl⟩
  rcases result with _ | _ | _
  · rfl
  · rfl
  · exact absurd rfl hresult

/-- After a run has visited the path of a file, at whatever point it did, there is nothing more to
do about that file. -/
theorem repeatedBy_visit (hu : v.RewrittenTo rules m u) (hw : v.RewrittenTo rules n w)
    (hpos : ∀ loc, v.leadsTo path loc = true → 0 < n loc)
    (hstable : ∀ loc text, v.LeadsToFile path loc text.toUTF8 true →
      applyRules rules (applyRules rules text) = applyRules rules text) :
    (u.visit rules path).RepeatedBy (w.visit rules path) := by
  cases hread : v.read path with
  | error cause =>
    exact repeatedBy_of_fixStep (.unread (hu.sameOutline.symm.read_eq_error hread))
      (.unread (hw.sameOutline.symm.read_eq_error hread)) (by simp)
  | ok content =>
    obtain ⟨loc, writable, hfile⟩ := read_eq_ok_iff.1 hread
    cases htext : String.fromUTF8? content with
    | none =>
      exact repeatedBy_of_fixStep (.notText (hu.leadsToFile_same hfile (.inr htext)) htext)
        (.notText (hw.leadsToFile_same hfile (.inr htext)) htext) (by simp)
    | some text =>
      obtain rfl := fromUTF8?_eq_some_iff.1 htext
      cases writable with
      | false =>
        have hufile := hu.leadsToFile_same hfile (.inl rfl)
        have hwfile := hw.leadsToFile_same hfile (.inl rfl)
        by_cases hsame : applyRules rules text = text
        · exact repeatedBy_of_fixStep (.unchanged hufile hsame) (.unchanged hwfile hsame) (by simp)
        · exact repeatedBy_of_fixStep (.closed hufile hsame) (.closed hwfile hsame) (by simp)
      | true =>
        -- The later visit finds what the rules do not change; the earlier one has not failed.
        have hwfile := hw.leadsToFile_text hfile (hpos loc (leadsToFile_iff.1 hfile).1)
          (hstable loc text hfile)
        have hwstep : w.FixStep rules path (.ok false) w :=
          .unchanged hwfile (hstable loc text hfile)
        rw [hwstep.visit_eq]
        refine ⟨rfl, rfl, ?_⟩
        have hufile := hu.leadsToFile hfile
        rw [if_pos rfl, rewriteContent_of_text] at hufile
        by_cases hsame : applyRules rules ((applyRules rules)^[m loc] text) =
            (applyRules rules)^[m loc] text
        · rw [(FixStep.unchanged hufile hsame).visit_eq]
          rfl
        · rw [(FixStep.fixed hufile hsame).visit_eq]
          rfl

/-- Visiting the same paths again, whatever had happened before they were visited first. -/
theorem visits_again {paths : List Bytes} (hu : v.RewrittenTo rules m u)
    (hw : v.RewrittenTo rules n w)
    (hpos : ∀ path ∈ paths, ∀ loc, v.leadsTo path loc = true → 0 < n loc)
    (hstable : ∀ path ∈ paths, ∀ loc text, v.LeadsToFile path loc text.toUTF8 true →
      applyRules rules (applyRules rules text) = applyRules rules text) :
    w.fixAll rules paths = w ∧ (w.visits rules paths).filterMap Visit.fixed? = [] ∧
      (w.visits rules paths).filterMap Visit.error? =
        (u.visits rules paths).filterMap Visit.error? := by
  induction paths generalizing u m with
  | nil => exact ⟨rfl, rfl, rfl⟩
  | cons path rest ih =>
    have hfirst := repeatedBy_visit hu hw (hpos path List.mem_cons_self)
      (hstable path List.mem_cons_self)
    have hafter : (w.visit rules path).after = w := hfirst.after_eq
    obtain ⟨hvolume, hfixed, herrors⟩ := ih (hu.trans (fixStep_visit u rules path).rewrittenTo)
      (fun p hp => hpos p (List.mem_cons_of_mem _ hp))
      fun p hp => hstable p (List.mem_cons_of_mem _ hp)
    rw [fixAll_cons, visits, visits, hafter, List.filterMap_cons, List.filterMap_cons,
      List.filterMap_cons, hfirst.fixed?_eq, hfirst.error?_eq, herrors]
    exact ⟨hvolume, hfixed, rfl⟩

end Volume

/-! ### The second run -/

/-- That a later run did nothing, and reports what an earlier one did but for the files it fixed. -/
structure RunResult.RepeatedBy (first second : RunResult) : Prop where
  volume_eq : second.volume = first.volume
  root_eq : second.report.root = first.report.root
  rootFound_eq : second.report.rootFound = first.report.rootFound
  filesFound_eq : second.report.filesFound = first.report.filesFound
  filesFixed_eq : second.report.filesFixed = 0
  fixed_eq : second.report.fixed = []
  errors_eq : second.report.errors = first.report.errors

/-- That no path of a clause ends in two suffixes, nor in `from`, white space and the suffix. -/
def Quoted.HasSingleSuffixes (T : Quoted) : Prop :=
  ∀ k, k + 1 < T.size → Text.EndsInFrom (T.run k) →
    ¬ ".js.js".toList <:+ T.run (k + 1) ∧ ¬ Text.EndsInFromSuffix (T.run (k + 1))

namespace Volume

variable {v : Volume} {rules : List Rule}

/-- Where the rules have nothing to do for their own results, a second run does nothing and tells
of the same failures. -/
theorem run_again {c : Config}
    (hstable : ∀ path ∈ v.discover c, ∀ loc text, v.LeadsToFile path loc text.toUTF8 true →
      applyRules rules (applyRules rules text) = applyRules rules text) :
    (v.run c rules).RepeatedBy ((v.run c rules).volume.run c rules) := by
  cases h : v.contains c.root with
  | false =>
    obtain ⟨hvolume, hreport⟩ := run_of_not_contains h rules
    rw [hvolume]
    constructor
    case volume_eq => rw [hvolume]
    case filesFixed_eq => rw [hreport]
    case fixed_eq => rw [hreport]
    all_goals rfl
  | true =>
    have hw := rewrittenTo_fixAll v rules (v.discover c)
    obtain ⟨hvolume, hreport⟩ := run_of_contains h rules
    have hcontains : (v.fixAll rules (v.discover c)).contains c.root = true := by
      rw [hw.sameOutline.contains_eq, h]
    have hdiscover : (v.fixAll rules (v.discover c)).discover c = v.discover c :=
      hw.sameOutline.discover_eq fun _ => Iff.rfl
    obtain ⟨hvolume', hreport'⟩ := run_of_contains hcontains rules
    rw [hdiscover] at hvolume' hreport'
    -- Each of the paths has been visited.
    have hpos : ∀ path ∈ v.discover c, ∀ loc, v.leadsTo path loc = true →
        0 < (v.discover c).countP (v.leadsTo · loc) := by
      intro path hpath loc hlead
      exact List.countP_pos_iff.2 ⟨path, hpath, hlead⟩
    obtain ⟨hsame, hfixed, herrors⟩ := visits_again (.refl v rules) hw hpos hstable
    rw [hfixed, herrors] at hreport'
    rw [hvolume]
    constructor
    case volume_eq => rw [hvolume', hsame, hvolume]
    case root_eq => rw [hreport', hreport]
    case rootFound_eq => rw [hreport', hreport]
    case filesFound_eq => rw [hreport', hreport]
    case filesFixed_eq => rw [hreport', List.length_nil]
    case fixed_eq => rw [hreport']
    case errors_eq => rw [hreport', hreport]

/-- A run of the suffix rules does all that there is to be done, if in no file that a discovered
path leads to the path of a clause ends in two suffixes, or in `from`, white space and the
suffix. -/
theorem run_suffixRules_again {c : Config}
    (h : ∀ path ∈ v.discover c, ∀ loc (text : String) writable,
      v.LeadsToFile path loc text.toUTF8 writable →
        (Quoted.ofText text.toList).HasSingleSuffixes) :
    (v.run c Rule.suffixRules).RepeatedBy
      ((v.run c Rule.suffixRules).volume.run c Rule.suffixRules) := by
  refine run_again fun path hpath loc text hfile => ?_
  exact Rule.applyRules_suffixRules_of_clauseCount
    (Rule.clauseCount_applyRules_suffixRules (h path hpath loc text true hfile))

/-- A file, a link to it and a file that is closed to writing. -/
def aliased : Volume :=
  ((empty.putFile (Text.bytesOf "a.ts") "export * from './a.js'".toUTF8).putLink
    (Text.bytesOf "b.ts") (Text.bytesOf "a.ts")).putSealed (Text.bytesOf "c.ts")
      "export * from './a.js'".toUTF8

theorem run_suffixRules_again_aliased :
    aliased.discover ⟨Text.bytesOf ".", ["*.ts"]⟩ =
        [Text.bytesOf "./a.ts", Text.bytesOf "./b.ts", Text.bytesOf "./c.ts"] ∧
      (aliased.run ⟨Text.bytesOf ".", ["*.ts"]⟩ Rule.suffixRules).RepeatedBy
        ((aliased.run ⟨Text.bytesOf ".", ["*.ts"]⟩ Rule.suffixRules).volume.run
          ⟨Text.bytesOf ".", ["*.ts"]⟩ Rule.suffixRules) := by
  have hdiscover : aliased.discover ⟨Text.bytesOf ".", ["*.ts"]⟩ =
      [Text.bytesOf "./a.ts", Text.bytesOf "./b.ts", Text.bytesOf "./c.ts"] := by
    decide +kernel
  refine ⟨hdiscover, run_suffixRules_again fun path hpath loc text writable hfile => ?_⟩
  have hreads : ∀ path ∈ aliased.discover ⟨Text.bytesOf ".", ["*.ts"]⟩,
      (aliased.read path).toOption = some "export * from './a.js'".toUTF8 := by
    rw [hdiscover]
    decide +kernel
  have htext := hreads path hpath
  rw [read_eq_ok_iff.2 ⟨loc, writable, hfile⟩] at htext
  obtain rfl := String.toByteArray_inj.1 (Option.some.inj htext)
  have hsize : (Quoted.ofText "export * from './a.js'".toList).size = 2 := by decide +kernel
  intro k hk
  rw [hsize] at hk
  obtain rfl : k = 0 := by omega
  decide +kernel

end Volume

end ImportSuffix
