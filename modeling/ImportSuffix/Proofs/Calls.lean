import ImportSuffix.CommandLine.Invoke
import ImportSuffix.Proofs.FixArguments
import ImportSuffix.Proofs.JsonPrinted
import ImportSuffix.Volume.Edit

/-!
# What a call to fix files comes to

A call whose arguments ask to fix files makes the run of its configuration and answers with the
report, or refuses a blank path and leaves the volume as it is (`Volume.call_refines_run`). In both
cases the answer is one JSON document, and only the exit code depends on whether it can be written.
-/

namespace ImportSuffix

open Text (Bytes bytesOf)

/-! ### The configuration of a call -/

/-- A path that is given, but with no character other than white space. -/
def IsBlankPath (path : Option String) : Prop :=
  ∃ p, path = some p ∧ ∀ c ∈ p.toList, Text.isBlank c = true

/-- The default configuration, below the root at the path if one is given. -/
def Config.below : Option String → Config
  | none => .default
  | some path => .withRoot (bytesOf path)

theorem Config.ofPath_of_isBlankPath {path : Option String} (h : IsBlankPath path) :
    Config.ofPath path = .error blankPath := by
  obtain ⟨p, rfl, hp⟩ := h
  exact if_pos (List.all_eq_true.2 hp)

theorem Config.ofPath_of_not_isBlankPath {path : Option String} (h : ¬IsBlankPath path) :
    Config.ofPath path = .ok (.below path) := by
  cases path with
  | none => rfl
  | some p => exact if_neg fun hp => h ⟨p, rfl, List.all_eq_true.1 hp⟩

/-! ### Answers -/

/-- The failure of one file, as it is told in an answer. -/
def FileError.answer (e : FileError) : Json :=
  .obj [("code", .str e.code.text), ("file", .str e.file), ("message", .str e.message)]

/-- The answer of a call that made a run: the fields of the report and with them the command and the
patterns, in the order of their names. -/
def Report.answer (r : Report) (patterns : List String) : Json :=
  .obj [("success", .bool true),
    ("data", .obj [("command", .str "fix"), ("errors", .arr (r.errors.map FileError.answer)),
      ("files_fixed", .num r.filesFixed), ("files_found", .num r.filesFound),
      ("fixed", .arr (r.fixed.map .str)), ("message", .str r.message),
      ("patterns", .arr (patterns.map .str)), ("root", .str r.root),
      ("root_found", .bool r.rootFound)])]

/-- The answer of a call with a blank path. -/
def blankPathAnswer : Json :=
  .obj [("success", .bool false),
    ("error", .obj [("code", .str "validation.invalid_argument"),
      ("message", .str "Invalid argument"),
      ("details", .obj [("field", .str "path"), ("problem", .str "Path must not be empty")]),
      ("hints", .arr [.obj [("message", .str "Omit --path to use the default root")]])])]

section

variable {key k : String} {value v : Json} {rest : List (String × Json)}

theorem insertMember_nil (key : String) (value : Json) :
    Json.insertMember key value [] = [(key, value)] := rfl

theorem insertMember_of_lt (h : key < k) :
    Json.insertMember key value ((k, v) :: rest) = (key, value) :: (k, v) :: rest :=
  if_pos h

theorem insertMember_of_not_lt (h : ¬ key < k) (hne : key ≠ k) :
    Json.insertMember key value ((k, v) :: rest) = (k, v) :: Json.insertMember key value rest := by
  rw [Json.insertMember, if_neg h, if_neg hne]

end

theorem canonical_errorJson (e : FileError) : (Report.errorJson e).canonical = e.answer := by
  simp (disch := decide) only [Report.errorJson, FileError.answer, Json.canonical_obj,
    Json.canonicalMembers, Json.canonical_str, insertMember_nil, insertMember_of_lt,
    insertMember_of_not_lt]

theorem canonical_strings (texts : List String) :
    (Json.strings texts).canonical = .arr (texts.map .str) := by
  rw [Json.strings, Json.canonical_arr, List.map_map]
  rfl

/-- The errors of a report, with the members of each in the order of their names. -/
theorem canonical_errors (errors : List FileError) :
    (Json.arr (errors.map Report.errorJson)).canonical = .arr (errors.map FileError.answer) := by
  rw [Json.canonical_arr, List.map_map]
  exact congrArg Json.arr (List.map_congr_left fun e _ => canonical_errorJson e)

theorem toJson_fixData (c : Config) (r : Report) :
    (Envelope.success (fixData c r).canonical).toJson = r.answer c.patterns := by
  simp (disch := decide) only [fixData, Report.members, Report.answer, Envelope.toJson,
    List.cons_append, List.nil_append, Json.canonical_obj, Json.canonicalMembers,
    Json.canonical_str, Json.canonical_num, Json.canonical_bool, canonical_strings,
    canonical_errors, insertMember_nil, insertMember_of_lt, insertMember_of_not_lt]

/-- What a call has to do with its answer: if the answer is taken, it is the only document on the
output; if there is no room for it, the exit code is one, and otherwise that of the call. -/
structure CallResult.Answers (r : CallResult) (sink : Sink) (answer : Json) (code : Nat) :
    Prop where
  document : sink = .taken → ∀ j, Json.IsDocument r.output j ↔ j = answer
  exitCode : sink ≠ .full → r.exitCode = code
  exitCode_full : sink = .full → r.exitCode = 1

namespace Volume

theorem fixCommand_of_not_isBlankPath {path : Option String} (h : ¬IsBlankPath path)
    (v : Volume) :
    v.fixCommand path =
      (.ofData (.ok (fixData (.below path) (v.run (.below path) Rule.suffixRules).report)) 0,
        (v.run (.below path) Rule.suffixRules).log,
        (v.run (.below path) Rule.suffixRules).volume) := by
  rw [fixCommand, Config.ofPath_of_not_isBlankPath h]

theorem fixCommand_of_isBlankPath {path : Option String} (h : IsBlankPath path) (v : Volume) :
    v.fixCommand path = (.ofFailure blankPath, [], v) := by
  rw [fixCommand, Config.ofPath_of_isBlankPath h]

/-- A call that asks to fix files does what the command does, and has the reply for its answer. -/
theorem call_of_reply {v v' : Volume} {path : Option String} {args : List Bytes} {reply : Reply}
    {log : List String} (h : Request.AsksToFix path args)
    (hreply : v.fixCommand path = (reply, log, v')) (sink : Sink) :
    (v.call sink args).volume = v' ∧
      (v.call sink args).Answers sink reply.envelope.toJson (processCode reply.exitCode) := by
  rw [call, Request.read?_eq_fix_iff.2 h]
  dsimp only
  rw [hreply]
  refine ⟨rfl, ?_, ?_, ?_⟩
  · rintro rfl j
    exact Json.isDocument_print_append_iff reply.envelope.toJson j (List.all_eq_true.1 (by decide))
  · intro hsink
    cases sink <;> first | rfl | exact absurd rfl hsink
  · rintro rfl
    rfl

/-- A call that asks to fix files makes the run below its path and answers with the report, whatever
became of the single files; if the path is blank, it refuses and leaves the volume as it is. -/
theorem call_refines_run {path : Option String} {args : List Bytes}
    (h : Request.AsksToFix path args) (v : Volume) (sink : Sink) :
    (¬IsBlankPath path →
      (v.call sink args).volume = (v.run (.below path) Rule.suffixRules).volume ∧
      (v.call sink args).Answers sink
        ((v.run (.below path) Rule.suffixRules).report.answer Config.defaultPatterns) 0) ∧
    (IsBlankPath path →
      (v.call sink args).volume = v ∧ (v.call sink args).Answers sink blankPathAnswer 2) := by
  constructor
  · intro hpath
    have hcall := call_of_reply h (fixCommand_of_not_isBlankPath hpath v) sink
    have hpatterns : (Config.below path).patterns = Config.defaultPatterns := by
      cases path <;> rfl
    rw [Reply.ofData, toJson_fixData, hpatterns] at hcall
    exact hcall
  · intro hpath
    exact call_of_reply h (fixCommand_of_isBlankPath hpath v) sink

/-- A file with a byte that encodes no text. -/
def undecodable : Volume := empty.putFile (bytesOf "a.ts") ⟨#[0xFF]⟩

/-- A run with a file that fails, and a refused path: the one exits with zero, the other with two,
and both with one if there is no room for the answer. -/
theorem call_refines_run_undecodable :
    (undecodable.run (.below (some ".")) Rule.suffixRules).report.errors.length = 1 ∧
      (∀ sink, (undecodable.call sink [bytesOf "fix", bytesOf "--path=."]).exitCode =
        if sink = .full then 1 else 0) ∧
      (∀ sink,
        (undecodable.call sink [bytesOf "fix", bytesOf "--path", bytesOf "\u2003"]).exitCode =
          if sink = .full then 1 else 2) := by
  have hdot : ¬IsBlankPath (some ".") := by
    rintro ⟨p, hp, hblank⟩
    cases hp
    exact absurd (hblank '.' (by decide)) (by decide)
  have hspace : IsBlankPath (some "\u2003") := ⟨_, rfl, List.all_eq_true.1 (by decide)⟩
  have hattached : Request.AsksToFix (some ".") [bytesOf "fix", bytesOf "--path=."] :=
    ⟨_, [], .attached, .inl rfl, rfl⟩
  have hnext : Request.AsksToFix (some "\u2003")
      [bytesOf "fix", bytesOf "--path", bytesOf "\u2003"] :=
    ⟨_, [], .next (by decide), .inl rfl, rfl⟩
  refine ⟨by decide +kernel, fun sink => ?_, fun sink => ?_⟩
  · obtain ⟨-, hcall⟩ := (call_refines_run hattached undecodable sink).1 hdot
    split
    · case isTrue hsink => exact hcall.exitCode_full hsink
    · case isFalse hsink => exact hcall.exitCode hsink
  · obtain ⟨-, hcall⟩ := (call_refines_run hnext undecodable sink).2 hspace
    split
    · case isTrue hsink => exact hcall.exitCode_full hsink
    · case isFalse hsink => exact hcall.exitCode hsink

end Volume

end ImportSuffix
