import ImportSuffix.Proofs.ConfigText

/-!
# The two ways to answer with a configuration

Data are written to an envelope either directly or by way of a map from keys to values, in which
the members of each object are in the order of their keys. Both ways succeed on the same data, and
what they write has the same canonical form (`Reply.agrees_ofData`); for that the form has to be
canonical once and for all (`Json.canonical_canonical`).

A configuration has a JSON value exactly if its root is the encoding of a text. Then the two answers
tell the same members, else both ways fail alike (`Config.ofData_toJson_agrees`).
-/

namespace ImportSuffix

open Text (bytesOf)

namespace Json

/-! ### The canonical form -/

/-- That the keys of some members strictly ascend. -/
def Ascending (members : List (String × Json)) : Prop :=
  members.Pairwise fun a b => a.1 < b.1

section

variable {key : String} {value : Json} {member : String × Json} {members : List (String × Json)}

theorem mem_insertMember (h : member ∈ insertMember key value members) :
    member = (key, value) ∨ member ∈ members := by
  induction members with
  | nil => exact .inl (List.mem_singleton.1 h)
  | cons first rest ih =>
    obtain ⟨k, v⟩ := first
    rw [insertMember] at h
    split at h
    · exact List.mem_cons.1 h
    · split at h
      · exact .inr h
      · rcases List.mem_cons.1 h with rfl | h
        · exact .inr List.mem_cons_self
        · exact (ih h).imp_right (List.mem_cons_of_mem _)

theorem Ascending.insertMember (h : Ascending members) :
    Ascending (insertMember key value members) := by
  induction members with
  | nil => exact List.pairwise_singleton ..
  | cons first rest ih =>
    obtain ⟨k, v⟩ := first
    obtain ⟨hfirst, hrest⟩ := List.pairwise_cons.1 h
    rw [Json.insertMember]
    split
    · case isTrue hlt =>
      refine List.pairwise_cons.2 ⟨fun member hmember => ?_, h⟩
      rcases List.mem_cons.1 hmember with rfl | hmember
      · exact hlt
      · exact String.lt_trans hlt (hfirst member hmember)
    · case isFalse hlt =>
      split
      · exact h
      · case isFalse hne =>
        have hgt : k < key := Std.lt_of_le_of_ne (String.not_lt.1 hlt) (Ne.symm hne)
        refine List.pairwise_cons.2 ⟨fun member hmember => ?_, ih hrest⟩
        rcases mem_insertMember hmember with rfl | hmember
        · exact hgt
        · exact hfirst member hmember

theorem ascending_canonicalMembers (members : List (String × Json)) :
    Ascending (canonicalMembers members) := by
  induction members with
  | nil => exact List.Pairwise.nil
  | cons member rest ih => exact ih.insertMember

/-- A member whose key comes before all others is put in front of them. -/
theorem insertMember_of_forall_lt (h : ∀ member ∈ members, key < member.1) :
    insertMember key value members = (key, value) :: members := by
  cases members with
  | nil => rfl
  | cons first rest => exact insertMember_of_lt (h first List.mem_cons_self)

/-- Members with ascending keys and canonical values stay as they are. -/
theorem canonicalMembers_eq_self (h : Ascending members)
    (hvalues : ∀ member ∈ members, member.2.canonical = member.2) :
    canonicalMembers members = members := by
  induction members with
  | nil => rfl
  | cons first rest ih =>
    obtain ⟨k, v⟩ := first
    obtain ⟨hfirst, hrest⟩ := List.pairwise_cons.1 h
    obtain ⟨hv, hvalues⟩ := List.forall_mem_cons.1 hvalues
    rw [canonicalMembers, ih hrest hvalues, hv]
    exact insertMember_of_forall_lt hfirst

end

mutual

/-- The canonical form of a value is its own canonical form. -/
theorem canonical_canonical (j : Json) : j.canonical.canonical = j.canonical := by
  match j with
  | null | bool _ | num _ | str _ => rfl
  | arr items =>
    exact congrArg arr (canonicalItems_canonicalItems items)
  | obj members =>
    exact congrArg obj (canonicalMembers_eq_self (ascending_canonicalMembers members)
      (canonical_of_mem_canonicalMembers members))

theorem canonicalItems_canonicalItems (items : List Json) :
    canonicalItems (canonicalItems items) = canonicalItems items := by
  match items with
  | [] => rfl
  | item :: items =>
    exact congrArg₂ List.cons (canonical_canonical item) (canonicalItems_canonicalItems items)

theorem canonical_of_mem_canonicalMembers (members : List (String × Json)) :
    ∀ member ∈ canonicalMembers members, member.2.canonical = member.2 := by
  match members with
  | [] => exact List.forall_mem_nil _
  | (key, value) :: members =>
    intro member h
    rcases mem_insertMember h with rfl | h
    · exact canonical_canonical value
    · exact canonical_of_mem_canonicalMembers members member h

end

end Json

/-! ### Both ways for any data -/

/-- That two texts are documents of one value, if an object is taken for a map from keys to
values. -/
def SameDocument (text text' : String) : Prop :=
  ∃ j j', Json.IsDocument text j ∧ Json.IsDocument text' j' ∧ j.canonical = j'.canonical

namespace Envelope

theorem canonical_toJson_success (data : Json) :
    (success data).toJson.canonical =
      .obj [("data", data.canonical), ("success", .bool true)] := by
  simp (disch := decide) only [toJson, Json.canonical_obj, Json.canonicalMembers,
    Json.canonical_bool, insertMember_nil, insertMember_of_not_lt]

theorem sameDocument_text (data : Json) :
    SameDocument (success data.canonical).text (success data).text := by
  refine ⟨_, _, (Json.isDocument_print_iff _ _).2 rfl, (Json.isDocument_print_iff _ _).2 rfl, ?_⟩
  rw [canonical_toJson_success, canonical_toJson_success, Json.canonical_canonical]

end Envelope

/-- The failure of data that have no JSON value, for some cause. -/
def unwritable (cause : String) : Failure := .json cause (some Reply.serializeStep)

/-- On data with a JSON value both ways write documents of the same value, and the exit code is
kept; on other data they fail alike. -/
theorem Reply.agrees_ofData (data : Except String Json) (code : Int) :
    (∀ j, data = .ok j → (ofData data code).exitCode = code ∧
      ∃ text, Envelope.textOfData data = .ok text ∧
        SameDocument (ofData data code).envelope.text text) ∧
    (∀ cause, data = .error cause →
      Envelope.textOfData data = .error (unwritable cause) ∧
        ofData data code = .ofFailure (unwritable cause)) := by
  refine ⟨?_, ?_⟩
  · rintro j rfl
    exact ⟨rfl, _, rfl, Envelope.sameDocument_text j⟩
  · rintro cause rfl
    exact ⟨rfl, rfl⟩

/-! ### Both ways for a configuration -/

namespace Config

/-- The answer to a call for a configuration that has no JSON value. -/
def unwritableAnswer : Json :=
  .obj [("success", .bool false),
    ("error", .obj [("code", .str "internal.json_error"), ("message", .str "JSON error"),
      ("details", .obj [("context", .str "serialize response"),
        ("error", .str "path contains invalid UTF-8 characters")])])]

theorem toJson_of_forall_ne {c : Config} (h : ∀ root, c.root ≠ bytesOf root) :
    c.toJson = .error unwritableRoot := by
  have hroot : Text.decode? c.root = none :=
    Option.eq_none_iff_forall_ne_some.2 fun root hroot => h root (Text.decode?_eq_some_iff.1 hroot)
  rw [toJson, hroot]

/-- If the root is a text, both ways tell the root and the patterns, the one with the members in the
order of their keys and the other with the root first, and the exit code is kept. If it is none,
both fail alike, and the answer is that failure with exit code one. -/
theorem ofData_toJson_agrees (c : Config) (code : Int) :
    (∀ root, c.root = bytesOf root →
      (Reply.ofData c.toJson code).exitCode = code ∧
      (∀ j, Json.IsDocument (Reply.ofData c.toJson code).envelope.text j ↔
        j = .obj [("success", .bool true),
          ("data", .obj [("patterns", .strings c.patterns), ("root", .str root)])]) ∧
      ∃ text, Envelope.textOfData c.toJson = .ok text ∧
        (∀ j, Json.IsDocument text j ↔
          j = .obj [("success", .bool true),
            ("data", .obj [("root", .str root), ("patterns", .strings c.patterns)])]) ∧
        SameDocument (Reply.ofData c.toJson code).envelope.text text) ∧
    ((∀ root, c.root ≠ bytesOf root) →
      Envelope.textOfData c.toJson = .error (unwritable unwritableRoot) ∧
      Reply.ofData c.toJson code = ⟨.failure (unwritable unwritableRoot), 1⟩ ∧
      ∀ j, Json.IsDocument (Reply.ofData c.toJson code).envelope.text j ↔
        j = unwritableAnswer) := by
  refine ⟨fun root hroot => ?_, fun hroot => ?_⟩
  · have hvalue := toJson_of_root hroot
    obtain ⟨hcode, text, htext, hsame⟩ := (Reply.agrees_ofData c.toJson code).1 _ hvalue
    refine ⟨hcode, fun j => ?_, text, htext, fun j => ?_, hsame⟩
    · rw [hvalue, Reply.ofData, canonical_written]
      exact Json.isDocument_print_iff _ _
    · rw [hvalue] at htext
      obtain rfl := Except.ok.inj htext
      exact Json.isDocument_print_iff _ _
  · have hcause := toJson_of_forall_ne hroot
    obtain ⟨htext, hreply⟩ := (Reply.agrees_ofData c.toJson code).2 _ hcause
    refine ⟨htext, hreply, fun j => ?_⟩
    rw [hreply]
    exact Json.isDocument_print_iff _ _

end Config

end ImportSuffix
