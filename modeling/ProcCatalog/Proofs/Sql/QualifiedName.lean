import ProcCatalog.Proofs.Sql.Identifier
import ProcCatalog.Proofs.Text.Parts

/-!
# Qualified names

A qualified name is written as parts with dots between them and blanks around the dots. A part in
brackets may hold dots and blanks of its own. Read part by part a name shows all its parts; what
follows the last dot is the last part only where that part holds no dot and no blank stands between
it and the dot in front of it.
-/

namespace ProcCatalog.Sql

open Pattern
open Text (Token afterLast trimWith)

/-! ## Parts -/

/-- A character of a part that is not in brackets. -/
def isPlainTail (c : Char) : Bool := c != '.' && !Text.isBlank c && !isBracket c

inductive NamePart where
  | bracketed (content : Token isEnclosed)
  | plain (word : Token isPlainTail)

namespace NamePart

def bare : NamePart → Text
  | .bracketed content => content.text
  | .plain word => word.text

def write : NamePart → Text
  | .bracketed content => '[' :: (content.text ++ [']'])
  | .plain word => word.text

theorem isPlainTail_iff {c : Char} :
    isPlainTail c = true ↔ c ≠ '.' ∧ Text.isBlank c = false ∧ isBracket c = false := by
  simp [isPlainTail, and_assoc]

theorem write_ne_nil (p : NamePart) : p.write ≠ [] := by
  cases p with
  | bracketed content => exact List.cons_ne_nil _ _
  | plain word => exact word.nonempty

theorem bare_ne_nil (p : NamePart) : p.bare ≠ [] := by
  cases p with
  | bracketed content => exact content.nonempty
  | plain word => exact word.nonempty

theorem isBracket_eq_false (p : NamePart) : ∀ x ∈ p.bare, isBracket x = false := by
  cases p with
  | bracketed content => exact content.forall_of fun _ => isBracket_eq_false_of_isEnclosed
  | plain word => exact word.forall_of fun _ hx => (isPlainTail_iff.mp hx).2.2

theorem exists_write_eq (p : NamePart) : ∃ u v, p.write = u ++ (p.bare ++ v) ∧
    (∀ x ∈ u, isBracket x = true) ∧ ∀ x ∈ v, isBracket x = true := by
  cases p with
  | bracketed content => exact ⟨['['], [']'], rfl, by simp [isBracket], by simp [isBracket]⟩
  | plain word => exact ⟨[], [], (List.append_nil _).symm, by simp, by simp⟩

theorem trimWith_isBracket_write (p : NamePart) : trimWith isBracket p.write = p.bare := by
  obtain ⟨u, v, hwrite, hu, hv⟩ := p.exists_write_eq
  rw [hwrite, Text.trimWith_append hu p.isBracket_eq_false hv]

theorem dot_mem_write_iff (p : NamePart) : '.' ∈ p.write ↔ '.' ∈ p.bare := by
  cases p with
  | bracketed content => simp [write, bare]
  | plain word => exact Iff.rfl

/-- A part ends at a dot or a blank. -/
theorem takes_namePart (p : NamePart) {v : Text}
    (hv : ∀ x ∈ v.head?, x = '.' ∨ Text.isBlank x = true) : Takes namePart p.write v := by
  intro c k r hs hk
  cases p with
  | bracketed content => exact run_alt_left (takes_bracketedPart content v c k r hs hk)
  | plain word =>
      obtain ⟨x, s, hword, hx⟩ := word.exists_cons
      have hopen : c.rest = x :: (s ++ v) := by rw [hs, write, hword, List.cons_append]
      have hne : x ≠ '[' := by
        rintro rfl
        exact absurd hx (by decide)
      rw [namePart, run_alt_right (run_bracketedPart_eq_none k hopen hne)]
      refine run_many1_past hs word.nonempty (word.forall_of fun y hy => ?_) (fun y hy => ?_) hk
      · obtain ⟨hdot, hblank, -⟩ := isPlainTail_iff.mp hy
        simp [hdot, hblank]
      · rcases hv y hy with rfl | hblank
        · rfl
        · simp [hblank]

end NamePart

/-! ## Names as they are written -/

/-- A part behind a dot, with the blanks on both sides of the dot. -/
structure NextPart where
  left : Text
  right : Text
  part : NamePart
  blank_left : ∀ x ∈ left, Text.isBlank x = true
  blank_right : ∀ x ∈ right, Text.isBlank x = true

def NextPart.dot (f : NextPart) : Text := f.left ++ '.' :: f.right

def NextPart.write (f : NextPart) : Text := f.dot ++ f.part.write

structure QualifiedName where
  first : NamePart
  further : List NextPart

namespace QualifiedName

def parts (n : QualifiedName) : List NamePart := n.first :: n.further.map NextPart.part

def write (n : QualifiedName) : Text := n.first.write ++ n.further.flatMap NextPart.write

theorem parts_ne_nil (n : QualifiedName) : n.parts ≠ [] := List.cons_ne_nil _ _

def last (n : QualifiedName) : NamePart := n.parts.getLast n.parts_ne_nil

/-- The blanks between the last dot and the last part. -/
def gap (n : QualifiedName) : Text := n.further.getLast?.elim [] NextPart.right

/-- The last part follows the last dot of all. -/
structure Tight (n : QualifiedName) : Prop where
  dot_not_mem : '.' ∉ n.last.bare
  gap_eq_nil : n.gap = []

instance : DecidablePred Tight := fun n =>
  decidable_of_iff ('.' ∉ n.last.bare ∧ n.gap = []) ⟨fun h => ⟨h.1, h.2⟩, fun h => ⟨h.1, h.2⟩⟩

end QualifiedName

/-! ## All parts -/

theorem NextPart.head?_write (f : NextPart) (v : Text) :
    ∀ x ∈ (f.write ++ v).head?, x = '.' ∨ Text.isBlank x = true := by
  intro x hx
  rw [write, dot, List.append_assoc, List.append_assoc] at hx
  cases hleft : f.left with
  | nil =>
      rw [hleft] at hx
      cases hx
      exact .inl rfl
  | cons y s =>
      rw [hleft] at hx
      cases hx
      exact .inr (f.blank_left _ (by simp [hleft]))

theorem NextPart.head?_flatMap_write (fs : List NextPart) :
    ∀ x ∈ (fs.flatMap NextPart.write).head?, x = '.' ∨ Text.isBlank x = true := by
  cases fs with
  | nil => simp
  | cons f fs => exact f.head?_write _

theorem NextPart.textsBehind (fs : List NextPart) (before : Option Char) (a : Text) :
    namePart.textsBehind before a (fs.flatMap NextPart.write) = fs.map fun f => f.part.write := by
  induction fs generalizing before a with
  | nil => exact textsBehind_nil _ _ _
  | cons f fs ih =>
      have hskip : ∀ x ∈ f.dot, namePart.starts x = false := by
        intro x hx
        have hx : x = '.' ∨ Text.isBlank x = true := by
          rcases List.mem_append.mp hx with hx | hx
          · exact .inr (f.blank_left x hx)
          · exact (List.mem_cons.mp hx).imp_right (f.blank_right x)
        rcases hx with rfl | hx
        · rfl
        · have hopen : x ≠ '[' := by
            rintro rfl
            cases hx
          simp [namePart, bracketedPart, Pattern.all, starts, many1, char, moves, hx, hopen]
      rw [List.flatMap_cons, NextPart.write, List.append_assoc, textsBehind_of_starts rfl hskip,
        textsBehind_of_takes (f.part.takes_namePart (NextPart.head?_flatMap_write fs))
          f.part.write_ne_nil, ih, List.map_cons]

namespace QualifiedName

theorem nameParts_write (n : QualifiedName) : nameParts n.write = n.parts.map NamePart.bare := by
  rw [nameParts, textsIn_eq_textsBehind, write,
    textsBehind_of_takes (n.first.takes_namePart (NextPart.head?_flatMap_write n.further))
      n.first.write_ne_nil, NextPart.textsBehind, parts]
  simp [NamePart.trimWith_isBracket_write]

theorem reverse_nameParts_write (n : QualifiedName) : (nameParts n.write).reverse =
    n.last.bare :: (n.parts.dropLast.map NamePart.bare).reverse := by
  rw [nameParts_write]
  conv_lhs => rw [← List.dropLast_append_getLast n.parts_ne_nil, ← last]
  simp

/-! ## The bare name -/

/-- The last dot between parts is behind everything but the last part; what stands in front of the
name matters only if there is no such dot. -/
private theorem afterLast_append_write (u : Text) (first : NamePart) (further : List NextPart) :
    afterLast '.' (u ++ write ⟨first, further⟩) =
      afterLast '.' (further.getLast?.elim u NextPart.right ++ (last ⟨first, further⟩).write) := by
  induction further generalizing u first with
  | nil => rw [write, List.flatMap_nil, List.append_nil]; rfl
  | cons f fs ih =>
      have hwrite : u ++ write ⟨first, f :: fs⟩ =
          (u ++ first.write ++ f.left) ++ '.' :: (f.right ++ write ⟨f.part, fs⟩) := by
        simp [write, NextPart.write, NextPart.dot]
      rw [hwrite, Text.afterLast_append, ih, List.getLast?_cons]
      cases fs.getLast? <;> rfl

theorem isBlank_of_mem_gap (n : QualifiedName) : ∀ x ∈ n.gap, Text.isBlank x = true := by
  rw [gap]
  cases n.further.getLast? with
  | none => simp
  | some f => exact f.blank_right

private theorem filter_gap_append_write (n : QualifiedName) :
    ((n.gap ++ n.last.write).filter fun x => !isBracket x) = n.gap ++ n.last.bare := by
  have hgap : ∀ x ∈ n.gap, isBracket x = false := by
    intro x hx
    refine Bool.eq_false_iff.mpr fun hbracket => ?_
    have hblank := n.isBlank_of_mem_gap x hx
    simp only [isBracket, Bool.or_eq_true, beq_iff_eq] at hbracket
    rcases hbracket with rfl | rfl <;> cases hblank
  have hbare := n.last.isBracket_eq_false
  rw [List.filter_append, List.filter_eq_self.mpr (by simpa using hgap), ← Text.filter_trimWith,
    n.last.trimWith_isBracket_write, List.filter_eq_self.mpr (by simpa using hbare)]

/-- Cutting at the last dot and the brackets leaves the last part only of a tight name. -/
theorem trimWith_afterLast_eq_iff (n : QualifiedName) :
    trimWith isBracket (afterLast '.' n.write) = n.last.bare ↔ n.Tight := by
  have hlast : afterLast '.' n.write = afterLast '.' (n.gap ++ n.last.write) :=
    afterLast_append_write [] n.first n.further
  rw [hlast]
  have hdot (h : '.' ∉ n.last.bare) : '.' ∉ n.gap ++ n.last.write := by
    rw [List.mem_append, n.last.dot_mem_write_iff, not_or]
    exact ⟨fun hmem => absurd (n.isBlank_of_mem_gap _ hmem) (by decide), h⟩
  constructor
  · intro hbare
    have hnot : '.' ∉ n.last.bare := by
      rw [← hbare]
      exact fun hmem => Text.not_mem_afterLast _ _ (Text.mem_of_mem_trimWith hmem)
    refine ⟨hnot, ?_⟩
    have hkept := congrArg (List.filter fun x => !isBracket x) hbare
    rw [Text.afterLast_eq_self (hdot hnot), Text.filter_trimWith, filter_gap_append_write,
      List.filter_eq_self.mpr (by simpa using n.last.isBracket_eq_false)] at hkept
    exact List.append_left_eq_self.mp hkept
  · rintro ⟨hnot, hgap⟩
    rw [Text.afterLast_eq_self (hdot hnot), hgap, List.nil_append,
      n.last.trimWith_isBracket_write]

end QualifiedName

theorem bareName_raw (s : Text) :
    bareName (Text.raw s) = Text.raw (trimWith isBracket (afterLast '.' s)) := by
  have hdot : ((· != CodePoint.char '.') ∘ CodePoint.char) = (· != '.') := by
    funext c
    simp [bne, BEq.beq]
  have hbracket : CodePoint.satisfies isBracket ∘ CodePoint.char = isBracket := rfl
  simp only [bareName, afterLast, trimWith, Text.trimEndWith, Text.raw, ← List.map_reverse,
    List.takeWhile_map, List.dropWhile_map, hdot, hbracket]

theorem bareName_write_eq_iff (n : QualifiedName) :
    bareName (Text.raw n.write) = Text.raw n.last.bare ↔ n.Tight := by
  rw [bareName_raw, ← n.trimWith_afterLast_eq_iff]
  exact (List.map_injective_iff.mpr fun _ _ h => CodePoint.char.inj h).eq_iff

end ProcCatalog.Sql
