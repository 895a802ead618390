import ImportSuffix.Envelope
import ImportSuffix.Proofs.JsonPrinted
import Mathlib.Data.List.Basic

/-!
# What an envelope tells

The text of an envelope is one JSON document. Of a success it tells the data as they are, null
included; of a failure its code, its title, its details and its hints (`Failure.answer`), and hints
only if there are any. Nothing is lost on the way: different envelopes have different texts
(`Envelope.text_injective`).
-/

namespace ImportSuffix

/-- A failure as it is told in an envelope. -/
def Failure.answer (f : Failure) : Json :=
  let told := [("code", .str f.code.text), ("message", .str f.title), ("details", f.details)]
  if f.hints = [] then .obj told
  else .obj (told ++ [("hints", .arr (f.hints.map fun hint => .obj [("message", .str hint)]))])

theorem FailureCode.text_injective : Function.Injective FailureCode.text := by
  intro a b
  cases a <;> cases b <;> decide

namespace Envelope

/-! ### The members of an envelope -/

/-- Hints are told as they are, so they are known from what is told. -/
theorem hintsMember_injective : Function.Injective hintsMember := by
  have hhint : Function.Injective fun hint => Json.obj [("message", .str hint)] := by
    intro a b h
    cases h
    rfl
  intro hints hints' h
  cases hints with
  | nil =>
    cases hints' with
    | nil => rfl
    | cons => cases h
  | cons hint hints =>
    cases hints' with
    | nil => cases h
    | cons hint' hints' =>
      simp only [hintsMember, List.cons.injEq, Prod.mk.injEq, Json.arr.injEq, true_and,
        and_true] at h
      exact List.map_injective_iff.2 hhint h

theorem toJson_failure (f : Failure) :
    (failure f).toJson = .obj [("success", .bool false), ("error", f.answer)] := by
  rw [Failure.answer]
  cases hhints : f.hints <;> simp [toJson, hintsMember, hhints]

theorem toJson_injective : Function.Injective toJson := by
  intro e e' h
  cases e with
  | success data =>
    cases e' with
    | success data' =>
      cases h
      rfl
    | failure f => cases h
  | failure f =>
    cases e' with
    | success data => cases h
    | failure f' =>
      obtain ⟨code, title, details, hints⟩ := f
      obtain ⟨code', title', details', hints'⟩ := f'
      simp only [toJson, Json.obj.injEq, List.cons_append, List.nil_append, List.cons.injEq,
        Prod.mk.injEq, Json.str.injEq, true_and, and_true] at h
      obtain ⟨hcode, rfl, rfl, hhints⟩ := h
      obtain rfl := FailureCode.text_injective hcode
      obtain rfl := hintsMember_injective hhints
      rfl

/-! ### The text of an envelope -/

theorem text_injective : Function.Injective text := by
  intro e e' h
  have hdoc : Json.IsDocument e'.text e.toJson := h ▸ (Json.isDocument_print_iff _ _).2 rfl
  exact toJson_injective ((Json.isDocument_print_iff _ _).1 hdoc)

/-- The text of a failure is a document that tells this failure and nothing else, that of a success
with some data is a document that tells these data and nothing else, and no two envelopes have the
same text. -/
theorem isDocument_text :
    (∀ (f : Failure) (j : Json), Json.IsDocument (failure f).text j ↔
      j = .obj [("success", .bool false), ("error", f.answer)]) ∧
    (∀ data : Json, ∃ text, textOfData (.ok data) = .ok text ∧
      ∀ j, Json.IsDocument text j ↔ j = .obj [("success", .bool true), ("data", data)]) ∧
    Function.Injective text := by
  refine ⟨fun f j => ?_, fun data => ⟨_, rfl, fun j => ?_⟩, text_injective⟩
  · rw [← toJson_failure]
    exact Json.isDocument_print_iff _ _
  · exact Json.isDocument_print_iff _ _

end Envelope

end ImportSuffix
