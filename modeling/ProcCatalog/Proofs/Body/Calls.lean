import ProcCatalog.Body.Reference
import ProcCatalog.Proofs.Sql.DottedName
import ProcCatalog.Proofs.Text.Order

/-!
# What a body calls

A call is listed under the last part of the name it is written with, and neither a keyword nor a
system procedure nor the caller is ever listed.
-/

namespace ProcCatalog.Body

variable {own name call : Text}

/-- A name under which a procedure of the name `own` can call another one. -/
structure Callable (own call : Text) : Prop where
  named : call ≠ []
  plain : Sql.isKeyword call = false
  user : isSystemName call = false
  other : Text.lower call ≠ Text.lower own

theorem calledProcedure?_eq_some_iff :
    calledProcedure? own name = some call ↔
      (Sql.nameParts name).getLast? = some call ∧ Callable own call := by
  rw [calledProcedure?]
  cases (Sql.nameParts name).getLast? with
  | none => simp
  | some p =>
      simp only [Option.some.injEq]
      split
      · rename_i hrefused
        constructor
        · intro h
          cases h
        · rintro ⟨rfl, h⟩
          simp [h.named, h.plain, h.user, h.other] at hrefused
      · rename_i hlisted
        simp only [Bool.or_eq_true, not_or, Bool.not_eq_true, beq_eq_false_iff_ne,
          List.isEmpty_eq_false_iff] at hlisted
        obtain ⟨⟨⟨hnamed, hplain⟩, huser⟩, hother⟩ := hlisted
        constructor
        · intro h
          cases h
          exact ⟨rfl, hnamed, hplain, huser, hother⟩
        · rintro ⟨rfl, -⟩
          rfl

theorem mem_calls {s : Text} :
    call ∈ calls own s ↔
      ∃ name ∈ objectNames procedureCall s,
        (Sql.nameParts name).getLast? = some call ∧ Callable own call := by
  rw [calls, Text.mem_sortedSet, List.mem_filterMap]
  simp only [calledProcedure?_eq_some_iff]

theorem callable_of_mem_calls {s : Text} (h : call ∈ calls own s) : Callable own call := by
  obtain ⟨-, -, -, hcallable⟩ := mem_calls.mp h
  exact hcallable

/-! ## One call -/

open Pattern
open Sql (Identifier)

def execute (schema name : Identifier) : Text := "EXEC ".toList ++ Identifier.qualify schema name

private theorem run_returned_eq_none {c : Cursor} (k : Follow) {v : Text}
    (hs : c.rest = v) (hv : ∀ x ∈ v.head?, x ≠ '@') :
    (all [char '@', word1, blanks, char '=', blanks]).run c k = none := by
  refine run_eq_none_of_not_begins ?_
  rintro ⟨_, _, hcut, _, _, rfl, hat, -⟩
  rw [spans_char.mp hat, hs] at hcut
  exact hv '@' (by simp [hcut]) rfl

private theorem run_procedureCall (schema name : Identifier) :
    ∃ d, procedureCall.run (.start (execute schema name)) some = some d ∧ d.rest = [] ∧
      d.marks = [("object", Identifier.qualify schema name)] := by
  let object := Identifier.qualify schema name
  have hhead : ∀ x ∈ object.head?, Text.isBlank x = false ∧ x ≠ '@' :=
    schema.head?_write ('.' :: name.write)
  let begun : Cursor := (Cursor.start (execute schema name)).past "EXEC ".toList object
  refine ⟨(begun.past object []).mark "object" object, ?_, rfl, rfl⟩
  have hexec : (Cursor.start (execute schema name)).rest =
      "EXEC".toList ++ ([' '] ++ object) := rfl
  have hedge : ((Cursor.start (execute schema name)).beforeIsWord !=
      (Cursor.start (execute schema name)).nextIsWord) = true := rfl
  rw [procedureCall, run_all_cons, run, if_pos hedge, run_all_cons,
    run_keyword_past hexec (spells_self _), run_all_cons, run_option_skip rfl, run_all_cons]
  refine run_many1_past (u := [' ']) (v := object) rfl (by simp) (by simp)
    (fun x hx => (hhead x hx).1) ?_
  rw [run_all_cons, run_option_skip (run_returned_eq_none _ rfl fun x hx => (hhead x hx).2),
    run_all_cons]
  refine run_named_past (Identifier.takes_objectName_qualify schema name) (by simp [object]) ?_
  rw [run_all_cons]
  rfl

theorem objectNames_execute (schema name : Identifier) :
    objectNames procedureCall (execute schema name) = [Identifier.qualify schema name] := by
  obtain ⟨d, hrun, hrest, hmarks⟩ := run_procedureCall schema name
  have hmatch : procedureCall.matchAt (.start (execute schema name)) = some ⟨0, d⟩ := by
    rw [matchAt, hrun]
    rfl
  obtain ⟨hall, -⟩ := allFrom_of_some (by decide +kernel) hmatch
  have hfound : procedureCall.findAll (execute schema name) = [⟨0, d⟩] := by
    rw [findAll]
    exact hall.trans (by simp [hrest, allFrom])
  rw [objectNames, hfound]
  simp [Found.mark?, hmarks]

theorem calls_execute (schema name : Identifier) (h : Callable own name.bare) :
    calls own (execute schema name) = [name.bare] := by
  have hlast : (Sql.nameParts (Identifier.qualify schema name)).getLast? = some name.bare := by
    rw [Identifier.nameParts_qualify]
    rfl
  have hcalled := calledProcedure?_eq_some_iff.mpr ⟨hlast, h⟩
  rw [calls, objectNames_execute, List.filterMap_cons, hcalled]
  rfl

end ProcCatalog.Body
