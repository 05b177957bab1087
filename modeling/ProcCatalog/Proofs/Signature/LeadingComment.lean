import ProcCatalog.Proofs.Pattern.Context
import ProcCatalog.Proofs.Sql.CommentFree
import ProcCatalog.Signature.Header

/-!
# Definitions behind a comment

A block comment in front of a definition is passed over when a block is recognised, but not when
its definition is looked for: a definition in the comment is found first.
-/

namespace ProcCatalog.Signature

open Pattern
open Sql (blockComment)

section

variable {content block : Text}

def commented (content block : Text) : Text := blockComment content ++ '\n' :: block

private theorem commented_eq :
    commented content block = '/' :: '*' :: (content ++ '*' :: '/' :: '\n' :: block) := by
  simp [commented, blockComment]

/-! ## Recognition -/

private theorem spans_leadingComment (content rest : Text) :
    Script.leadingComment.Spans none (['/'] ++ (['*'] ++ (content ++ (['*'] ++ (['/'] ++ ['\n'])))))
      rest := by
  refine .cons (spans_char.mpr rfl) (.cons (spans_char.mpr rfl) ?_)
  have hcontent : (Pattern.few fun _ => true).Spans (some '*') content
      ((['*'] ++ (['/'] ++ ['\n'])) ++ rest) := fun _ _ => rfl
  refine .cons hcontent (.cons (spans_char.mpr rfl) (.cons (spans_char.mpr rfl) (.last ?_)))
  exact spans_many.mpr (by simp [Text.isBlank])

private theorem spans_creation {before' before : Option Char} {created rest' : Text}
    (h : Script.createProcedure.Spans before' created rest') {x : Char}
    (hx : Text.isBlank x = true) (rest : Text) :
    (all [.repeated Script.settingLine, blanks, Script.createProcedure, .one Text.isBlank]).Spans
      before ([] ++ ([] ++ (created ++ [x]))) rest := by
  refine .cons (.done _ _) (.cons (spans_many.mpr (by simp)) (.cons ?_ (.last ⟨x, hx, rfl⟩)))
  exact spans_of_confined rfl h _ _

/-- A comment in front of the creation of a procedure is passed over. -/
theorem isProcedureBlock_commented (h : procedureName.Begins none block) (content : Text) :
    Script.isProcedureBlock (commented content block) = true := by
  obtain ⟨_, rest, rfl, created, _, rfl, hcreated, gap, named, rfl, hgap, -⟩ := h
  obtain ⟨hne, hgap⟩ := spans_many1.mp hgap
  obtain ⟨x, gap, rfl⟩ := List.exists_cons_of_ne_nil hne
  have hspan := Spans.cons (p := option Script.leadingComment)
    (.inl (spans_leadingComment content _))
    (spans_creation hcreated (hgap x (by simp)) (gap ++ (named ++ rest)))
  rw [Script.isProcedureBlock, Option.isSome_iff_ne_none, Ne, matchAt_eq_none_iff, not_not]
  exact ⟨_, _, by simp [commented_eq, Cursor.start], hspan⟩

/-! ## The definition -/

private theorem confined_nil : procedureName.confined ([] : Text).head? = true := rfl

/-- The name of a procedure does not go on over the end of a comment. -/
private theorem confined_closing (s : Text) : procedureName.confined ('*' :: s).head? = true := by
  rw [List.head?_cons]
  decide +kernel

private theorem sameLetter_of_begins {before : Option Char} {x : Char} {s : Text}
    (h : procedureName.Begins before (x :: s)) : Text.sameLetter 'C' x = true := by
  obtain ⟨_, _, hs, _, _, rfl, ⟨word, _, rfl, hword, -⟩, -⟩ := h
  cases spans_keyword_iff.mp hword with
  | cons hx _ =>
      obtain ⟨rfl, -⟩ := List.cons.inj hs
      exact hx

private theorem findFrom_skip {before : Option Char} {offset : Nat} {x : Char} {s : Text}
    (hx : Text.sameLetter 'C' x = false) :
    procedureName.findFrom before offset (x :: s) =
      procedureName.findFrom (some x) (offset + 1) s := by
  have havoids : procedureName.Avoids before [x] s := by
    refine avoids_cons.mpr ⟨fun hbegins => ?_, avoids_nil _ _ _⟩
    rw [sameLetter_of_begins hbegins] at hx
    cases hx
  exact findFrom_append havoids

/-- In a commented block the name is looked for in the comment and then in the block. -/
theorem find?_commented (content block : Text) :
    procedureName.find? (commented content block) =
      procedureName.findFrom (some '*') 2 (content ++ '*' :: '/' :: '\n' :: block) := by
  rw [find?, commented_eq, findFrom_skip rfl, findFrom_skip rfl]

theorem parse?_eq_of_find? {s s' : Text} {found found' : Found}
    (h : procedureName.find? s = some found) (h' : procedureName.find? s' = some found')
    (hrest : found'.stop.rest = found.stop.rest) (hmarks : found'.stop.marks = found.stop.marks)
    (startLine : Int) : Definition.parse? s' startLine = Definition.parse? s startLine := by
  simp only [Definition.parse?, h, h', Option.map_some, Found.mark?, hrest, hmarks]

theorem exists_find?_of_begins (h : procedureName.Begins none block) :
    ∃ found, procedureName.find? block = some found := by
  obtain ⟨found, -, hfound, -⟩ := exists_find?_append (avoids_nil _ none block) h
  exact ⟨found, hfound⟩

theorem parse?_commented_of_eq_none {startLine : Int} (hblock : procedureName.Begins none block)
    (hcontent : Definition.parse? content startLine = none) :
    Definition.parse? (commented content block) startLine = Definition.parse? block startLine := by
  have hnone : procedureName.find? content = none := Option.map_eq_none_iff.mp hcontent
  have hbehind : procedureName.find? (commented content block) =
      procedureName.findFrom (some '\n') (0 + (2 + content.length + 3)) block := by
    rw [find?_commented]
    refine (findFrom_append_of_eq_none (confined_closing _) hnone (some '*') 2).trans ?_
    rw [findFrom_skip rfl, findFrom_skip rfl, findFrom_skip rfl, Nat.zero_add, Nat.zero_add]
  obtain ⟨found, hfound⟩ := exists_find?_of_begins hblock
  obtain ⟨found', hfound', hstop⟩ :=
    exists_findFrom_append confined_nil hfound (some '\n') (2 + content.length + 3)
  rw [List.append_nil, ← hbehind] at hfound'
  exact parse?_eq_of_find? hfound hfound' (by simpa using hstop.rest) hstop.marks startLine

theorem exists_parse?_commented {startLine : Int} {d : Definition}
    (hcontent : Definition.parse? content startLine = some d) (block : Text) :
    ∃ d', Definition.parse? (commented content block) startLine = some d' ∧
      d'.schema = d.schema ∧ d'.name = d.name := by
  obtain ⟨found, hfound, rfl⟩ := Option.map_eq_some_iff.mp hcontent
  obtain ⟨found', hfound', hstop⟩ :=
    exists_findFrom_append (confined_closing ('/' :: '\n' :: block)) hfound (some '*') 2
  have hfind : procedureName.find? (commented content block) = some found' :=
    (find?_commented content block).trans hfound'
  refine ⟨_, Option.map_eq_some_iff.mpr ⟨found', hfind, rfl⟩, ?_, ?_⟩
  · simp only [Found.mark?, hstop.marks]
  · simp only [Found.mark?, hstop.marks]

/-- A block with a comment in front of it is a block. It is read as it is without the comment if no
definition can be read from the comment; if one can, it has the schema and the name of that one. -/
theorem parse?_leadingComment (hblock : procedureName.Begins none block) (content : Text)
    (startLine : Int) :
    Script.isProcedureBlock (commented content block) = true ∧
    (Definition.parse? block startLine).isSome = true ∧
    (Definition.parse? content startLine = none →
      Definition.parse? (commented content block) startLine =
        Definition.parse? block startLine) ∧
    ∀ other, Definition.parse? content startLine = some other →
      ∃ d, Definition.parse? (commented content block) startLine = some d ∧
        d.schema = other.schema ∧ d.name = other.name := by
  refine ⟨isProcedureBlock_commented hblock content, ?_, parse?_commented_of_eq_none hblock,
    fun other hother => exists_parse?_commented hother block⟩
  obtain ⟨found, hfound⟩ := exists_find?_of_begins hblock
  rw [Definition.parse?, hfound]
  rfl

end

/-- The comment speaks of a procedure and does not define one. -/
theorem parse?_leadingComment_without_definition :
    Definition.parse? (commented " CREATE OR ALTER PROC dbo ".toList
        "CREATE PROC dbo.[New] @Id int AS SELECT 1".toList) 1 =
      some ⟨"dbo".toList, "New".toList, parseParameters " @Id int".toList, " SELECT 1".toList,
        some .anywhere, 1⟩ := by
  have hblock : procedureName.Begins none "CREATE PROC dbo.[New] @Id int AS SELECT 1".toList := by
    decide +kernel
  have hread := parse?_leadingComment hblock " CREATE OR ALTER PROC dbo ".toList 1
  exact (hread.2.2.1 (by decide +kernel)).trans (by decide +kernel)

/-- The procedure is filed under the name of an older one that is commented out. -/
theorem parse?_leadingComment_with_definition :
    procedureName.Begins none "CREATE PROCEDURE dbo.New AS\nSELECT 1".toList ∧
    ¬ ['*', '/'] <:+: " CREATE PROCEDURE dbo.Old AS\n".toList ∧
    (Definition.parse? (commented " CREATE PROCEDURE dbo.Old AS\n".toList
      "CREATE PROCEDURE dbo.New AS\nSELECT 1".toList) 1).map (·.name) = some "Old".toList ∧
    (Definition.parse? "CREATE PROCEDURE dbo.New AS\nSELECT 1".toList 1).map (·.name) =
      some "New".toList := by
  decide +kernel

end ProcCatalog.Signature
