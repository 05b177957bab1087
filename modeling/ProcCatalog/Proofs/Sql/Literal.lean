import ProcCatalog.Proofs.Sql.CommentFree
import ProcCatalog.Sql.TopLevel

/-!
# Literals

A literal is written between single quotes, and a quote in it is written twice. It is read as one
piece whatever it holds.
-/

namespace ProcCatalog.Sql

/-- A text with its quotes written twice. -/
def doubled (content : Text) : Text :=
  content.flatMap fun c => if c = quoteMark then [quoteMark, quoteMark] else [c]

def literal (content : Text) : Text := quoteMark :: (doubled content ++ [quoteMark])

@[simp] theorem doubled_nil : doubled [] = [] := rfl

@[simp] theorem doubled_quote (content : Text) :
    doubled (quoteMark :: content) = quoteMark :: quoteMark :: doubled content := rfl

theorem doubled_cons {c : Char} (h : c ≠ quoteMark) (content : Text) :
    doubled (c :: content) = c :: doubled content := by
  simp [doubled, h]

/-! ## Marks of comments -/

private theorem head?_doubled (content : Text) : (doubled content).head? = content.head? := by
  cases content with
  | nil => rfl
  | cons c content =>
      by_cases h : c = quoteMark
      · subst h
        rfl
      · simp [doubled_cons h]

private theorem apart_quote_left (c : Char) : Apart quoteMark c := by
  constructor <;> rintro ⟨h, -⟩ <;> exact absurd h (by decide)

private theorem apart_quote_right (c : Char) : Apart c quoteMark := by
  constructor <;> rintro ⟨-, h⟩ <;> exact absurd h (by decide)

private theorem isChain_doubled {content : Text} (h : content.IsChain Apart) :
    (doubled content).IsChain Apart := by
  induction content with
  | nil => exact .nil
  | cons c content ih =>
      obtain ⟨hhead, htail⟩ := List.isChain_cons.mp h
      by_cases hc : c = quoteMark
      · subst hc
        rw [doubled_quote]
        refine List.isChain_cons_cons.mpr ⟨apart_quote_left _, ?_⟩
        exact List.isChain_cons.mpr ⟨fun y _ => apart_quote_left y, ih htail⟩
      · rw [doubled_cons hc]
        refine List.isChain_cons.mpr ⟨?_, ih htail⟩
        rwa [head?_doubled]

theorem closed_literal {content : Text} (h : Unmarked content) : Closed (literal content) := by
  have hchain := isChain_doubled (isChain_apart_iff.mpr h)
  constructor
  · refine List.isChain_cons.mpr ⟨fun y _ => apart_quote_left y, ?_⟩
    refine List.isChain_append.mpr ⟨hchain, List.isChain_singleton _, ?_⟩
    rintro x - y hy
    obtain rfl : quoteMark = y := by simpa using hy
    exact apart_quote_right x
  · intro x hx
    have hlast : (literal content).getLast? = some quoteMark :=
      List.getLast?_concat (l := quoteMark :: doubled content)
    rw [hlast] at hx
    obtain rfl : quoteMark = x := by simpa using hx
    decide

/-! ## Quotes -/

theorem even_count_doubled (content : Text) : Even ((doubled content).count quoteMark) := by
  induction content with
  | nil => simp
  | cons c content ih =>
      by_cases hc : c = quoteMark
      · subst hc
        simpa [List.count_cons, Nat.even_add] using ih
      · simpa [doubled_cons hc, List.count_cons, hc] using ih

theorem even_count_literal (content : Text) : Even ((literal content).count quoteMark) := by
  simpa [literal, List.count_cons, List.count_append, Nat.even_add] using even_count_doubled content

/-- Where a literal is cut behind its opening quote, what is left begins with a quote or holds an
odd number of them. -/
theorem quotes_behind_cut {content a b : Text} (h : doubled content ++ [quoteMark] = a ++ b)
    (hne : b ≠ []) : b.head? = some quoteMark ∨ Odd (b.count quoteMark) := by
  induction content generalizing a with
  | nil =>
      cases a with
      | nil =>
          obtain rfl : [quoteMark] = b := h
          exact .inl rfl
      | cons x a =>
          have hb : a ++ b = [] := (List.cons.inj h).2.symm
          exact absurd (List.append_eq_nil_iff.mp hb).2 hne
  | cons c content ih =>
      by_cases hc : c = quoteMark
      · subst hc
        rcases a with _ | ⟨x, _ | ⟨y, a⟩⟩
        · obtain rfl : doubled (quoteMark :: content) ++ [quoteMark] = b := h
          exact .inl rfl
        · have hb : quoteMark :: (doubled content ++ [quoteMark]) = b := (List.cons.inj h).2
          subst hb
          exact .inl rfl
        · obtain ⟨-, hb⟩ := List.cons.inj h
          exact ih (List.cons.inj hb).2
      · rw [doubled_cons hc, List.cons_append] at h
        cases a with
        | nil =>
            rw [List.nil_append] at h
            subst h
            have heven := even_count_doubled content
            right
            simpa [List.count_cons, hc, List.count_append, Nat.odd_add_one] using heven
        | cons x a => exact ih (List.cons.inj h).2

end ProcCatalog.Sql
