import ProcCatalog.Proofs.Sql.Literal

/-!
# Pieces between commas

A text is unsplit if reading it leads from the top level back to it past no separating comma:
characters without a meaning of their own, literals, parentheses around words and commas, and
whatever is joined of these. Splitting undoes joining unsplit texts by commas.
-/

namespace ProcCatalog.Sql

def comma : Text := [',']

/-- Reading the text at top level leads back to it, and no comma in it separates. -/
def Unsplit (s : Text) : Prop :=
  ∀ piece rest, piecesFrom comma .code 0 piece (s ++ rest) =
    piecesFrom comma .code 0 (s.reverse ++ piece) rest

/-- The same so many parentheses deep. -/
def UnsplitAt (depth : Nat) (s : Text) : Prop :=
  ∀ piece rest, piecesFrom comma .code depth piece (s ++ rest) =
    piecesFrom comma .code depth (s.reverse ++ piece) rest

/-- A character that neither separates nor opens or closes anything. -/
def isPlain (c : Char) : Bool :=
  c != ',' && c != quoteMark && c != '[' && c != '(' && c != ')'

/-! ## Single steps -/

theorem piecesFrom_separator (piece rest : Text) :
    piecesFrom comma .code 0 piece (',' :: rest) =
      piece.reverse :: piecesFrom comma .code 0 [] rest := rfl

theorem piecesFrom_of_isPlain {c : Char} (hc : isPlain c = true) (depth : Nat)
    (piece rest : Text) :
    piecesFrom comma .code depth piece (c :: rest) =
      piecesFrom comma .code depth (c :: piece) rest := by
  simp only [isPlain, Bool.and_eq_true, bne_iff_ne, ne_eq] at hc
  obtain ⟨⟨⟨⟨hcomma, hquote⟩, hbracket⟩, hopen⟩, hclose⟩ := hc
  simp [piecesFrom, separates, comma, Region.next, deepen, hquote, hbracket, hopen, hclose,
    Ne.symm hcomma]

theorem piecesFrom_comma_in_parens (depth : Nat) (piece rest : Text) :
    piecesFrom comma .code (depth + 1) piece (',' :: rest) =
      piecesFrom comma .code (depth + 1) (',' :: piece) rest := rfl

theorem piecesFrom_quote_in_code (depth : Nat) (piece rest : Text) :
    piecesFrom comma .code depth piece (quoteMark :: rest) =
      piecesFrom comma .literal depth (quoteMark :: piece) rest := by
  simp [piecesFrom, separates, comma, Region.next, deepen, quoteMark]

theorem piecesFrom_quote_in_literal (depth : Nat) (piece rest : Text) :
    piecesFrom comma .literal depth piece (quoteMark :: rest) =
      piecesFrom comma .code depth (quoteMark :: piece) rest := by
  simp [piecesFrom, separates, Region.next]

theorem piecesFrom_in_literal {c : Char} (hc : c ≠ quoteMark) (depth : Nat) (piece rest : Text) :
    piecesFrom comma .literal depth piece (c :: rest) =
      piecesFrom comma .literal depth (c :: piece) rest := by
  simp [piecesFrom, separates, comma, Region.next, hc]

theorem piecesFrom_open (depth : Nat) (piece rest : Text) :
    piecesFrom comma .code depth piece ('(' :: rest) =
      piecesFrom comma .code (depth + 1) ('(' :: piece) rest := by
  simp [piecesFrom, separates, comma, Region.next, deepen, quoteMark]

theorem piecesFrom_close (depth : Nat) (piece rest : Text) :
    piecesFrom comma .code (depth + 1) piece (')' :: rest) =
      piecesFrom comma .code depth (')' :: piece) rest := by
  simp [piecesFrom, separates, comma, Region.next, deepen, quoteMark]

theorem piecesFrom_in_brackets {c : Char} (hc : c ≠ ']') (depth : Nat) (piece rest : Text) :
    piecesFrom comma .bracketed depth piece (c :: rest) =
      piecesFrom comma .bracketed depth (c :: piece) rest := by
  simp [piecesFrom, separates, comma, Region.next, hc]

/-! ## Unsplit texts -/

namespace UnsplitAt

variable {depth : Nat}

theorem nil : UnsplitAt depth [] := fun _ _ => rfl

theorem append {s t : Text} (hs : UnsplitAt depth s) (ht : UnsplitAt depth t) :
    UnsplitAt depth (s ++ t) := by
  intro piece rest
  rw [List.append_assoc, hs, ht, List.reverse_append, List.append_assoc]

theorem flatMap {α : Type} {xs : List α} {f : α → Text} (h : ∀ x ∈ xs, UnsplitAt depth (f x)) :
    UnsplitAt depth (xs.flatMap f) := by
  induction xs with
  | nil => exact nil
  | cons x xs ih =>
      rw [List.flatMap_cons]
      exact append (h x (by simp)) (ih fun y hy => h y (by simp [hy]))

theorem of_each {s : Text} (h : ∀ c ∈ s, UnsplitAt depth [c]) : UnsplitAt depth s := by
  simpa using flatMap h

theorem of_isPlain {s : Text} (h : ∀ c ∈ s, isPlain c = true) : UnsplitAt depth s :=
  of_each fun c hc piece rest => piecesFrom_of_isPlain (h c hc) depth piece rest

theorem of_all {s : Text} (h : s.all isPlain = true) : UnsplitAt depth s :=
  of_isPlain (List.all_eq_true.mp h)

private theorem piecesFrom_doubled (content piece rest : Text) :
    piecesFrom comma .literal depth piece (doubled content ++ quoteMark :: rest) =
      piecesFrom comma .code depth (quoteMark :: ((doubled content).reverse ++ piece)) rest := by
  induction content generalizing piece with
  | nil => exact piecesFrom_quote_in_literal depth piece rest
  | cons c content ih =>
      by_cases hc : c = quoteMark
      · subst hc
        rw [doubled_quote, List.cons_append, List.cons_append, piecesFrom_quote_in_literal,
          piecesFrom_quote_in_code, ih]
        simp
      · rw [doubled_cons hc, List.cons_append, piecesFrom_in_literal hc, ih]
        simp

theorem literal (content : Text) : UnsplitAt depth (literal content) := by
  intro piece rest
  rw [Sql.literal, List.cons_append, List.append_assoc, piecesFrom_quote_in_code]
  rw [List.singleton_append, piecesFrom_doubled]
  simp

private theorem piecesFrom_bracketed {content : Text} (h : ∀ c ∈ content, c ≠ ']')
    (piece rest : Text) :
    piecesFrom comma .bracketed depth piece (content ++ ']' :: rest) =
      piecesFrom comma .code depth (']' :: (content.reverse ++ piece)) rest := by
  induction content generalizing piece with
  | nil => simp [piecesFrom, separates, Region.next]
  | cons c content ih =>
      obtain ⟨hc, hcontent⟩ := List.forall_mem_cons.mp h
      rw [List.cons_append, piecesFrom_in_brackets hc, ih hcontent]
      simp

theorem bracketed {content : Text} (h : ∀ c ∈ content, c ≠ ']') :
    UnsplitAt depth ('[' :: (content ++ [']'])) := by
  intro piece rest
  have hopen : piecesFrom comma .code depth piece ('[' :: (content ++ ']' :: rest)) =
      piecesFrom comma .bracketed depth ('[' :: piece) (content ++ ']' :: rest) := by
    simp [piecesFrom, separates, comma, Region.next, deepen, quoteMark]
  rw [List.cons_append, List.append_assoc, List.singleton_append, hopen, piecesFrom_bracketed h]
  simp

/-- In parentheses no comma separates. -/
theorem of_isPlain_or_comma {s : Text} (h : ∀ c ∈ s, isPlain c = true ∨ c = ',') :
    UnsplitAt (depth + 1) s := by
  refine of_each fun c hc piece rest => ?_
  rcases h c hc with hplain | rfl
  · exact piecesFrom_of_isPlain hplain _ piece rest
  · exact piecesFrom_comma_in_parens depth piece rest

theorem enclosed {s : Text} (h : UnsplitAt (depth + 1) s) :
    UnsplitAt depth ('(' :: (s ++ [')'])) := by
  intro piece rest
  rw [List.cons_append, List.append_assoc, piecesFrom_open, h, List.singleton_append,
    piecesFrom_close]
  simp

end UnsplitAt

namespace Unsplit

theorem nil : Unsplit [] := UnsplitAt.nil

theorem append {s t : Text} (hs : Unsplit s) (ht : Unsplit t) : Unsplit (s ++ t) :=
  UnsplitAt.append hs ht

theorem of_all {s : Text} (h : s.all isPlain = true) : Unsplit s := UnsplitAt.of_all h

theorem parens {s : Text} (h : ∀ c ∈ s, isPlain c = true ∨ c = ',') :
    Unsplit ('(' :: (s ++ [')'])) :=
  UnsplitAt.enclosed (.of_isPlain_or_comma h)

end Unsplit

/-! ## Joined texts -/

/-- What stands behind a comma, with blanks on either side of it. -/
structure Further (α : Type) where
  left : Text
  right : Text
  item : α
  blankLeft : ∀ x ∈ left, Text.isBlank x = true
  blankRight : ∀ x ∈ right, Text.isBlank x = true

namespace Further

variable {α β : Type}

def map (f : α → β) (further : Further α) : Further β :=
  ⟨further.left, further.right, f further.item, further.blankLeft, further.blankRight⟩

def write (further : Further Text) : Text :=
  further.left ++ (comma ++ (further.right ++ further.item))

end Further

/-- A piece and those behind it. -/
def writePieces (piece : Text) (further : List (Further Text)) : Text :=
  piece ++ further.flatMap Further.write

theorem isPlain_of_isBlank {c : Char} (h : Text.isBlank c = true) : isPlain c = true := by
  have hne {x : Char} (hx : Text.isBlank x = false) : c ≠ x := by
    rintro rfl
    rw [h] at hx
    cases hx
  simp [isPlain, hne (x := ',') rfl, hne (x := quoteMark) rfl, hne (x := '[') rfl,
    hne (x := '(') rfl, hne (x := ')') rfl]

theorem unsplitAt_of_isBlank {depth : Nat} {s : Text} (h : ∀ c ∈ s, Text.isBlank c = true) :
    UnsplitAt depth s :=
  .of_isPlain fun c hc => isPlain_of_isBlank (h c hc)

private theorem map_trim_piecesFrom {w : Text} {further : List (Further Text)} (hw : Unsplit w)
    (hfurther : ∀ f ∈ further, Unsplit f.item ∧ Text.trim f.item = f.item) (piece : Text) :
    (piecesFrom comma .code 0 piece (writePieces w further)).map Text.trim =
      Text.trim (piece.reverse ++ w) :: further.map (·.item) := by
  induction further generalizing w piece with
  | nil =>
      rw [writePieces, hw]
      simp [piecesFrom]
  | cons f further ih =>
      obtain ⟨⟨hunsplit, htrim⟩, hfurther⟩ := List.forall_mem_cons.mp hfurther
      have hleft : Unsplit f.left := unsplitAt_of_isBlank f.blankLeft
      have hright : Unsplit f.right := unsplitAt_of_isBlank f.blankRight
      have hcut : writePieces w (f :: further) =
          w ++ (f.left ++ ',' :: writePieces (f.right ++ f.item) further) := by
        simp [writePieces, Further.write, comma]
      rw [hcut, hw, hleft, piecesFrom_separator, List.map_cons,
        ih (hright.append hunsplit) hfurther, List.reverse_nil, List.nil_append,
        Text.trim_blanks_append f.blankRight, htrim]
      simp [← List.append_assoc, Text.trim_append_blanks _ f.blankLeft]

/-- Splitting undoes joining trimmed texts that are not split themselves. -/
theorem splitTopLevel_writePieces {w : Text} {further : List (Further Text)}
    (h : ∀ v ∈ w :: further.map (·.item), Unsplit v ∧ Text.trim v = v ∧ v ≠ []) :
    splitTopLevel comma (writePieces w further) = w :: further.map (·.item) := by
  obtain ⟨⟨hunsplit, htrim, -⟩, hfurther⟩ := List.forall_mem_cons.mp h
  rw [splitTopLevel, map_trim_piecesFrom hunsplit fun f hf =>
    let hf := hfurther f.item (List.mem_map_of_mem hf)
    ⟨hf.1, hf.2.1⟩]
  rw [List.reverse_nil, List.nil_append, htrim, List.filter_eq_self]
  intro v hv
  simpa using (h v hv).2.2

theorem unsplitAt_writePieces {depth : Nat} {w : Text} {further : List (Further Text)}
    (h : ∀ v ∈ w :: further.map (·.item), UnsplitAt (depth + 1) v) :
    UnsplitAt (depth + 1) (writePieces w further) := by
  obtain ⟨hw, hfurther⟩ := List.forall_mem_cons.mp h
  have hcomma : UnsplitAt (depth + 1) comma := .of_isPlain_or_comma (by simp [comma])
  refine hw.append (.flatMap fun f hf => (unsplitAt_of_isBlank f.blankLeft).append ?_)
  refine hcomma.append ((unsplitAt_of_isBlank f.blankRight).append ?_)
  exact hfurther f.item (List.mem_map_of_mem hf)

theorem closed_writePieces {w : Text} {further : List (Further Text)}
    (h : ∀ v ∈ w :: further.map (·.item), Closed v) : Closed (writePieces w further) := by
  obtain ⟨hw, hfurther⟩ := List.forall_mem_cons.mp h
  have hcomma : Closed comma := .of_all rfl
  refine hw.append (.flatMap fun f hf => (Closed.of_blanks f.blankLeft).append ?_)
  refine hcomma.append ((Closed.of_blanks f.blankRight).append ?_)
  exact hfurther f.item (List.mem_map_of_mem hf)

private theorem joinWith_eq_writePieces (w : Text) (ws : List Text) :
    Text.joinWith [',', ' '] (w :: ws) =
      writePieces w (ws.map fun v => ⟨[], [' '], v, by simp, by simp⟩) := by
  induction ws generalizing w with
  | nil => simp [Text.joinWith, writePieces]
  | cons v ws ih =>
      rw [Text.joinWith, List.intercalate_cons_cons, ← Text.joinWith, ih]
      simp [writePieces, Further.write, comma]

theorem splitTopLevel_joinWith {w : Text} {ws : List Text} (hws : ∀ v ∈ w :: ws, Unsplit v)
    (htrim : ∀ v ∈ w :: ws, Text.trim v = v) (hne : ∀ v ∈ w :: ws, v ≠ []) :
    splitTopLevel comma (Text.joinWith [',', ' '] (w :: ws)) = w :: ws := by
  have hpieces (f : Text → Further Text) (hf : ∀ v, (f v).item = v) :
      w :: (ws.map f).map (·.item) = w :: ws := by
    simp [Function.comp_def, hf]
  rw [joinWith_eq_writePieces, splitTopLevel_writePieces]
  · exact hpieces _ fun _ => rfl
  · rw [hpieces _ fun _ => rfl]
    exact fun v hv => ⟨hws v hv, htrim v hv, hne v hv⟩

end ProcCatalog.Sql
