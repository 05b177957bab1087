import ProcCatalog.Proofs.Pattern.Preference
import ProcCatalog.Signature.Header

/-!
# Names of definitions

The schema and the name of a definition are words, each in brackets or not. Whatever is read as a
definition has words for both, so a name with any other character is cut off or not read at all.
-/

namespace ProcCatalog.Signature

open Pattern
open Text (Token)

variable {c : Cursor} {k : Follow} {r : Cursor}

/-! ## Words that may stand in brackets -/

def Shows (word t : Text) : Prop := t = word ∨ t = '[' :: (word ++ [']'])

theorem Shows.head?_ne_blank {w : Token Text.isWord} {t : Text} (ht : Shows w.text t) (v : Text) :
    ∀ x ∈ (t ++ v).head?, Text.isBlank x = false := by
  rcases ht with rfl | rfl
  · exact Text.forall_head?_append v w.nonempty
      (w.forall_of fun _ => Text.isBlank_eq_false_of_isWord)
  · rintro x ⟨⟩
    rfl

private theorem run_close_eq_none {v : Text} (hv : ∀ x ∈ v.head?, Text.isWord x = false ∧ x ≠ ']')
    {d : Cursor} (hd : d.rest = v) (k : Follow) : (char ']').run d k = none := by
  rw [char, run, hd]
  cases v with
  | nil => rfl
  | cons x v => simp [(hv x rfl).2]

theorem run_bracketedWord {w : Token Text.isWord} {t : Text} (ht : Shows w.text t) {mark : String}
    {v : Text} (hs : c.rest = t ++ v) (hv : ∀ x ∈ v.head?, Text.isWord x = false ∧ x ≠ ']')
    (hk : k ((c.past t v).mark mark w.text) = some r) :
    (bracketedWord mark).run c k = some r := by
  have htakes {v : Text} (hv : ∀ x ∈ v.head?, Text.isWord x = false) : Takes word1 w.text v :=
    fun c k r hs hk => run_many1_past hs w.nonempty w.accepted hv hk
  rcases ht with rfl | rfl
  · obtain ⟨x, s, hx, hword⟩ := w.exists_cons
    have hopen (k : Follow) : (char '[').run c k = none := by
      have hne : x ≠ '[' := by
        rintro rfl
        exact absurd hword (by decide)
      simp [char, run, hs, hx, hne]
    rw [bracketedWord, run_all_cons, run_option_skip (hopen _), run_all_cons]
    refine run_named_past (htakes fun x hx => (hv x hx).1) hs ?_
    rw [run_all_cons, run_option_skip (run_close_eq_none hv rfl _), run_all_nil]
    exact hk
  · have hs : c.rest = '[' :: (w.text ++ ']' :: v) := by simpa using hs
    rw [bracketedWord, run_all_cons]
    refine run_alt_left ?_
    rw [run_char_past hs, run_all_cons]
    refine run_named_past (htakes (by rintro x ⟨⟩; rfl)) rfl ?_
    rw [run_all_cons]
    refine run_alt_left ?_
    rw [run_char_past (v := v) rfl, run_all_nil, ← hk]
    have hlength : 1 + (w.text.length + 1) = w.text.length + 2 := by omega
    simp [Cursor.past, Cursor.mark, Nat.add_assoc, hlength]

/-! ## The creation of a procedure -/

def creationWords : Text := "CREATE PROCEDURE".toList

def writeName (schema name : Token Text.isWord) : Text :=
  creationWords ++ (' ' :: (schema.text ++ '.' :: name.text))

private theorem append_parts (a b c d v : Text) :
    (a ++ (b ++ (c ++ d))) ++ v = a ++ (b ++ (c ++ (d ++ v))) := by
  simp

private theorem run_createProcedure {v : Text} (hs : c.rest = creationWords ++ v)
    (hk : k (c.past creationWords v) = some r) :
    Script.createProcedure.run c k = some r := by
  have hwords : creationWords =
      "CREATE".toList ++ ([' '] ++ ("PROC".toList ++ "EDURE".toList)) := rfl
  have hs' : c.rest = "CREATE".toList ++ ([' '] ++ ("PROC".toList ++ ("EDURE".toList ++ v))) :=
    (hs.trans (congrArg (· ++ v) hwords)).trans
      (append_parts "CREATE".toList [' '] "PROC".toList "EDURE".toList v)
  rw [Script.createProcedure, run_all_cons, run_keyword_past hs' (spells_self _), run_all_cons]
  refine run_many1_past (u := [' ']) rfl (by simp) (by simp) (by rintro x ⟨⟩; rfl) ?_
  rw [run_all_cons, run_option_skip rfl, run_all_cons, run_keyword_past rfl (spells_self _),
    run_all_cons]
  refine run_alt_left ?_
  rw [run_keyword_past rfl (spells_self _), run_all_nil]
  simp only [Cursor.past_past]
  exact hk

section

variable {schema name : Token Text.isWord} {t u v : Text}

private theorem run_procedureName (ht : Shows schema.text t) (hu : Shows name.text u)
    (hv : ∀ x ∈ v.head?, Text.isWord x = false ∧ x ≠ ']')
    (hs : c.rest = creationWords ++ ([' '] ++ (t ++ '.' :: (u ++ v)))) :
    ∃ r, procedureName.run c some = some r ∧ r.rest = v ∧
      r.marks = ("name", name.text) :: ("schema", schema.text) :: c.marks := by
  let created := c.past creationWords ([' '] ++ (t ++ '.' :: (u ++ v)))
  let begun := created.past [' '] (t ++ '.' :: (u ++ v))
  let qualified := (begun.past t ('.' :: (u ++ v))).mark "schema" schema.text
  let dotted := qualified.past ['.'] (u ++ v)
  refine ⟨(dotted.past u v).mark "name" name.text, ?_, rfl, rfl⟩
  rw [procedureName, run_all_cons]
  refine run_createProcedure hs ?_
  rw [run_all_cons]
  refine run_many1_past (u := [' ']) rfl (by simp) (by simp) (ht.head?_ne_blank _) ?_
  rw [run_all_cons]
  refine run_bracketedWord ht rfl (by rintro x ⟨⟩; exact ⟨rfl, by decide⟩) ?_
  rw [run_all_cons]
  refine run_many_past (u := []) rfl (by simp) (by rintro x ⟨⟩; rfl) ?_
  rw [run_all_cons, run_char_past rfl, run_all_cons]
  refine run_many_past (u := []) rfl (by simp) (hu.head?_ne_blank v) ?_
  rw [run_all_cons]
  refine run_bracketedWord hu rfl hv ?_
  rfl

theorem find?_procedureName_of_shows (ht : Shows schema.text t) (hu : Shows name.text u)
    (hv : ∀ x ∈ v.head?, Text.isWord x = false ∧ x ≠ ']') :
    ∃ found, procedureName.find? (creationWords ++ ([' '] ++ (t ++ '.' :: (u ++ v)))) = some found ∧
      found.mark? "schema" = some schema.text ∧ found.mark? "name" = some name.text ∧
      found.stop.rest = v := by
  obtain ⟨r, hr, hrest, hmarks⟩ := run_procedureName ht hu hv
    (c := ⟨none, creationWords ++ ([' '] ++ (t ++ '.' :: (u ++ v))), 0, []⟩) rfl
  refine ⟨⟨0, r⟩, findFrom_of_matchAt (by rw [matchAt, hr]; rfl), ?_, ?_, hrest⟩
  · rw [Found.mark?, hmarks]
    rfl
  · rw [Found.mark?, hmarks]
    rfl

theorem find?_procedureName (schema name : Token Text.isWord) {v : Text}
    (hv : ∀ x ∈ v.head?, Text.isWord x = false ∧ x ≠ ']') :
    ∃ found, procedureName.find? (writeName schema name ++ v) = some found ∧
      found.mark? "schema" = some schema.text ∧ found.mark? "name" = some name.text ∧
      found.stop.rest = v := by
  have htext : writeName schema name ++ v =
      creationWords ++ ([' '] ++ (schema.text ++ '.' :: (name.text ++ v))) := by
    rw [writeName, List.append_assoc]
    simp
  rw [htext]
  exact find?_procedureName_of_shows (.inl rfl) (.inl rfl) hv

end

/-! ## Definitions -/

/-- What a definition is made of, given its name and the end of its header. -/
theorem parse?_of_find? {text s schema name : Text} {found : Found}
    (hfind : procedureName.find? text = some found) (hschema : found.mark? "schema" = some schema)
    (hname : found.mark? "name" = some name) (hrest : found.stop.rest = s) {boundary : Boundary}
    (hboundary : boundary? s = some boundary) (startLine : Int) :
    Definition.parse? text startLine =
      some ⟨schema, name, parseParameters (s.take boundary.start), s.drop boundary.stop,
        some boundary.strategy, startLine⟩ := by
  rw [Definition.parse?, hfind]
  simp only [Option.map_some, hschema, hname, hrest, hboundary, Option.elim, Option.getD_some]

theorem isWord_of_marks_procedureName {key : String} {t : Text}
    (h : procedureName.Marks (key, t)) : ∀ x ∈ t, Text.isWord x = true := by
  have hword : (key = "schema" ∧ ∃ before rest, word1.Spans before t rest) ∨
      key = "name" ∧ ∃ before rest, word1.Spans before t rest := by
    simpa [procedureName, bracketedWord, Script.createProcedure, all, option, blanks1, blanks,
      many1, keyword, char, word1, Marks] using h
  obtain ⟨before, rest, hword⟩ : ∃ before rest, word1.Spans before t rest :=
    hword.elim (·.2) (·.2)
  exact (spans_many1.mp hword).2

private theorem isWord_of_mark? {text : Text} {found : Found}
    (hfind : procedureName.find? text = some found) (key : String) :
    ∀ x ∈ (found.mark? key).getD [], Text.isWord x = true := by
  cases h : found.mark? key with
  | none => simp
  | some t =>
      obtain ⟨front, back, hmarks, -⟩ := List.lookup_eq_some_iff.mp h
      exact isWord_of_marks_procedureName (marks_of_find? hfind (key, t) (by simp [hmarks]))

theorem isWord_of_parse? {text : Text} {startLine : Int} {d : Definition}
    (h : Definition.parse? text startLine = some d) :
    (∀ x ∈ d.schema, Text.isWord x = true) ∧ ∀ x ∈ d.name, Text.isWord x = true := by
  obtain ⟨found, hfind, rfl⟩ := Option.map_eq_some_iff.mp h
  exact ⟨isWord_of_mark? hfind _, isWord_of_mark? hfind _⟩

end ProcCatalog.Signature
