import ProcCatalog.Procedure
import ProcCatalog.Proofs.Sql.CommentFree

/-!
# What stripping leaves

Neither pass over a text makes a mark for the other: what stands side by side behind a pass stood
side by side before it, but for the blank of a block comment and the line feed behind a line
comment. So a stripped text has no comment in it and is not changed by another stripping, and a
block comment counts as much as one blank.
-/

namespace ProcCatalog

namespace Sql

section

variable {x y : Char} {s t : Text}

/-! ## Behind the first pass -/

theorem head?_of_dropBlockComments (h : (dropBlockComments s).head? = some x) (hx : x ≠ ' ') :
    s.head? = some x := by
  fun_cases dropBlockComments s with
  | case1 =>
      rw [dropBlockComments] at h
      exact h
  | case2 r t hclosed _ =>
      rw [dropBlockComments_closed hclosed] at h
      exact absurd (Option.some.inj h).symm hx
  | case3 r hunclosed =>
      rw [dropBlockComments_unclosed hunclosed] at h
      exact h
  | case4 c r hopen =>
      rw [dropBlockComments_cons hopen] at h
      exact h

theorem mem_of_dropBlockComments (hx : x ≠ ' ') (h : x ∈ dropBlockComments s) : x ∈ s := by
  fun_induction dropBlockComments s with
  | case1 => exact h
  | case2 r t hclosed _ ih =>
      obtain ⟨content, -, rfl⟩ := exists_of_afterClosing? hclosed
      have ht := ih ((List.mem_cons.mp h).resolve_left hx)
      simp [ht]
  | case3 r _ ih =>
      rcases List.mem_cons.mp h with rfl | h
      · exact List.mem_cons_self
      · exact List.mem_cons_of_mem _ (ih h)
  | case4 c r _ ih =>
      rcases List.mem_cons.mp h with rfl | h
      · exact List.mem_cons_self
      · exact List.mem_cons_of_mem _ (ih h)

theorem pair_infix_of_dropBlockComments (hx : x ≠ ' ') (hy : y ≠ ' ')
    (h : [x, y] <:+: dropBlockComments s) : [x, y] <:+: s := by
  fun_induction dropBlockComments s with
  | case1 => exact h
  | case2 r t hclosed _ ih =>
      obtain ⟨content, -, rfl⟩ := exists_of_afterClosing? hclosed
      rcases pair_infix_cons.mp h with ⟨hblank, -⟩ | h
      · exact absurd hblank.symm hx
      · exact (ih h).trans ⟨'/' :: '*' :: (content ++ ['*', '/']), [], by simp⟩
  | case3 r _ ih =>
      rcases pair_infix_cons.mp h with ⟨hslash, hhead⟩ | h
      · exact pair_infix_cons.mpr (.inl ⟨hslash, head?_of_dropBlockComments hhead hy⟩)
      · exact List.infix_cons (ih h)
  | case4 c r _ ih =>
      rcases pair_infix_cons.mp h with ⟨hc, hhead⟩ | h
      · exact pair_infix_cons.mpr (.inl ⟨hc, head?_of_dropBlockComments hhead hy⟩)
      · exact List.infix_cons (ih h)

theorem not_holdsBlockComment_dropBlockComments (s : Text) :
    ¬ HoldsBlockComment (dropBlockComments s) := by
  fun_induction dropBlockComments s with
  | case1 => exact fun h => absurd (infix_of_holdsBlockComment h) (by simp)
  | case2 r t _ _ ih =>
      rw [holdsBlockComment_cons, not_or]
      exact ⟨by simp, ih⟩
  | case3 r hunclosed ih =>
      rw [holdsBlockComment_cons, not_or]
      refine ⟨?_, ih⟩
      rintro ⟨-, u, hu, hclosing⟩
      rw [dropBlockComments_cons (by simp)] at hu
      obtain ⟨-, rfl⟩ := List.cons.inj hu
      exact afterClosing?_eq_none_iff.mp hunclosed
        (pair_infix_of_dropBlockComments (by decide) (by decide) hclosing)
  | case4 c r hopen ih =>
      rw [holdsBlockComment_cons, not_or]
      refine ⟨?_, ih⟩
      rintro ⟨hc, u, hu, -⟩
      have hhead : r.head? = some '*' := head?_of_dropBlockComments (by rw [hu]; rfl) (by decide)
      obtain ⟨v, rfl⟩ := List.head?_eq_some_iff.mp hhead
      exact hopen v hc rfl

/-! ## Behind the second pass -/

theorem head?_of_dropLineComments (h : (dropLineComments s).head? = some x) (hx : x ≠ '\n') :
    s.head? = some x := by
  fun_induction dropLineComments s with
  | case1 => exact h
  | case2 r _ ih =>
      have hfeed := List.head?_dropWhile_not (· != '\n') r
      rw [ih h] at hfeed
      exact absurd (by simpa using hfeed) hx
  | case3 c r _ _ => exact h

private theorem infix_of_dropWhile (r : Text) : r.dropWhile (· != '\n') <:+: '-' :: '-' :: r :=
  List.infix_cons (List.infix_cons (List.dropWhile_suffix _).isInfix)

theorem pair_infix_of_dropLineComments (hy : y ≠ '\n') (h : [x, y] <:+: dropLineComments s) :
    [x, y] <:+: s := by
  fun_induction dropLineComments s with
  | case1 => exact h
  | case2 r _ ih => exact (ih h).trans (infix_of_dropWhile r)
  | case3 c r _ ih =>
      rcases pair_infix_cons.mp h with ⟨hc, hhead⟩ | h
      · exact pair_infix_cons.mpr (.inl ⟨hc, head?_of_dropLineComments hhead hy⟩)
      · exact List.infix_cons (ih h)

theorem not_infix_dropLineComments (s : Text) : ¬ ['-', '-'] <:+: dropLineComments s := by
  fun_induction dropLineComments s with
  | case1 => simp
  | case2 r _ ih => exact ih
  | case3 c r hopen ih =>
      rw [pair_infix_cons, not_or]
      refine ⟨?_, ih⟩
      rintro ⟨hc, hhead⟩
      obtain ⟨u, rfl⟩ := List.head?_eq_some_iff.mp (head?_of_dropLineComments hhead (by decide))
      exact hopen u hc rfl

/-- What a line comment parted is not joined, since its line feed is left. -/
theorem holdsBlockComment_of_dropLineComments (h : HoldsBlockComment (dropLineComments s)) :
    HoldsBlockComment s := by
  fun_induction dropLineComments s with
  | case1 => exact h
  | case2 r _ ih =>
      obtain ⟨content, hcontent⟩ := ih h
      exact ⟨content, hcontent.trans (infix_of_dropWhile r)⟩
  | case3 c r _ ih =>
      rw [holdsBlockComment_cons] at h ⊢
      refine h.imp ?_ ih
      rintro ⟨hc, u, hu, hclosing⟩
      have hhead : r.head? = some '*' := head?_of_dropLineComments (by rw [hu]; rfl) (by decide)
      obtain ⟨v, rfl⟩ := List.head?_eq_some_iff.mp hhead
      rw [dropLineComments_cons (by simp)] at hu
      obtain ⟨-, rfl⟩ := List.cons.inj hu
      exact ⟨hc, v, rfl, pair_infix_of_dropLineComments (by decide) hclosing⟩

/-! ## Behind both -/

/-- No line comment and no block comment is in the text. -/
def Stripped (s : Text) : Prop := ¬ ['-', '-'] <:+: s ∧ ¬ HoldsBlockComment s

theorem stripped_stripComments (s : Text) : Stripped (stripComments s) := by
  refine ⟨not_infix_dropLineComments _, fun h => ?_⟩
  exact not_holdsBlockComment_dropBlockComments s (holdsBlockComment_of_dropLineComments h)

theorem Stripped.stripComments_eq (h : Stripped s) : stripComments s = s := by
  rw [stripComments, dropBlockComments_eq_self h.2, dropLineComments_eq_self h.1]

end

/-! ## A block comment and a blank -/

section

variable {a content : Text}

theorem dropBlockComments_blockComment (hcontent : ¬ ['*', '/'] <:+: content) (b : Text) :
    dropBlockComments (blockComment content ++ b) = ' ' :: dropBlockComments b := by
  have hclosed : afterClosing? (content ++ ['*', '/'] ++ b) = some b := by
    rw [List.append_assoc]
    exact afterClosing?_mark hcontent b
  exact dropBlockComments_closed hclosed

theorem stripComments_blockComment (ha : ¬ ['/', '*'] <:+: dropBlockComments a)
    (hcontent : ¬ ['*', '/'] <:+: content) (b : Text) :
    stripComments (a ++ blockComment content ++ b) = stripComments (a ++ ' ' :: b) := by
  have hcomment : dropBlockComments (a ++ (blockComment content ++ b)) =
      dropBlockComments a ++ ' ' :: dropBlockComments b := by
    rw [dropBlockComments_append (fun _ => by simp [blockComment]) fun h => absurd h ha,
      dropBlockComments_blockComment hcontent]
  have hblank : dropBlockComments (a ++ ' ' :: b) =
      dropBlockComments a ++ ' ' :: dropBlockComments b := by
    rw [dropBlockComments_append (fun _ => by simp) fun h => absurd h ha,
      dropBlockComments_cons (by simp)]
  rw [stripComments, stripComments, List.append_assoc, hcomment, hblank]

end

end Sql

/-! ## Procedures -/

/-- What is not read off the text of the body with its comments: profile, tables, calls, intent and
module are left. -/
def Procedure.withoutBody (p : Procedure) : Procedure :=
  { p with body := [], lineCount := 0, preview := [], tier := .trivial }

theorem Analyzer.classify_withoutBody (analyzer : Analyzer) {d : Signature.Definition}
    {body : Text} (h : Sql.stripComments body = Sql.stripComments d.body) :
    (analyzer.classify { d with body }).map Procedure.withoutBody =
      (analyzer.classify d).map Procedure.withoutBody := by
  simp only [classify, h]
  cases Assign.assign analyzer.rules analyzer.hints d.name d.schema
      (Body.tables analyzer.known (Sql.stripComments d.body)) with
  | error fault => rfl
  | ok module => rfl

/-- What is stripped has no comment in it, and a text without a comment stays as it is. A block
comment behind a text that opens none does to a text, to a list of parameters and to the body of a
procedure what one blank does. -/
theorem stripping_is_stable_and_blockComment_inert :
    (∀ s : Text, Sql.Stripped (Sql.stripComments s) ∧
      (Sql.Stripped s → Sql.stripComments s = s) ∧
      Sql.stripComments (Sql.stripComments s) = Sql.stripComments s) ∧
    ∀ a content b : Text, ¬ ['/', '*'] <:+: Sql.dropBlockComments a →
      ¬ ['*', '/'] <:+: content →
      Sql.stripComments (a ++ Sql.blockComment content ++ b) = Sql.stripComments (a ++ ' ' :: b) ∧
      Signature.parseParameters (a ++ Sql.blockComment content ++ b) =
        Signature.parseParameters (a ++ ' ' :: b) ∧
      ∀ (analyzer : Analyzer) (d : Signature.Definition),
        (analyzer.classify { d with body := a ++ Sql.blockComment content ++ b }).map
            Procedure.withoutBody =
          (analyzer.classify { d with body := a ++ ' ' :: b }).map Procedure.withoutBody := by
  constructor
  · intro s
    have hstripped := Sql.stripped_stripComments s
    exact ⟨hstripped, Sql.Stripped.stripComments_eq, hstripped.stripComments_eq⟩
  · intro a content b ha hcontent
    have hsame := Sql.stripComments_blockComment ha hcontent b
    refine ⟨hsame, ?_, fun analyzer d => ?_⟩
    · rw [Signature.parseParameters, Signature.parseParameters, hsame]
    · exact analyzer.classify_withoutBody (d := { d with body := a ++ ' ' :: b }) hsame

/-- The content opens a line comment, a literal and another block comment, of which nothing is
seen. -/
theorem blockComment_inert_of_marks :
    Sql.stripComments "SELECT/**/1 -- a\nFROM/* -- 'b /* WITH (NOLOCK) */dbo.T".toList =
      "SELECT 1 \nFROM dbo.T".toList := by
  have hinert := stripping_is_stable_and_blockComment_inert.2 "SELECT/**/1 -- a\nFROM".toList
    " -- 'b /* WITH (NOLOCK) ".toList "dbo.T".toList (by decide +kernel) (by decide)
  exact hinert.1.trans (by decide +kernel)

end ProcCatalog
