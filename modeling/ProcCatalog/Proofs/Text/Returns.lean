import ProcCatalog.Proofs.Text.Classes
import ProcCatalog.Proofs.Text.Lines

/-!
# Carriage returns in front of line feeds

A text and the same text with a carriage return in front of some of its line feeds have the same
lines, and trimming and collapsing treat them alike.
-/

namespace ProcCatalog.Text

/-- The text with a carriage return in front of each line feed. -/
def withReturns (s : Text) : Text := s.flatMap fun c => if c = '\n' then ['\r', '\n'] else [c]

def withoutReturns (s : Text) : Text := s.filter (· != '\r')

/-- The second text is the first, which has no carriage return, with one in front of some of its
line feeds. -/
inductive Returned : Text → Text → Prop
  | nil : Returned [] []
  | feed {s s' : Text} (h : Returned s s') : Returned ('\n' :: s) ('\r' :: '\n' :: s')
  | char {c : Char} {s s' : Text} (hc : c ≠ '\r') (h : Returned s s') :
      Returned (c :: s) (c :: s')

variable {s s' t t' : Text}

@[simp] theorem withoutReturns_append (s t : Text) :
    withoutReturns (s ++ t) = withoutReturns s ++ withoutReturns t := List.filter_append ..

@[simp] theorem withoutReturns_return (s : Text) :
    withoutReturns ('\r' :: s) = withoutReturns s := rfl

@[simp] theorem withoutReturns_cons {c : Char} (hc : c ≠ '\r') (s : Text) :
    withoutReturns (c :: s) = c :: withoutReturns s :=
  List.filter_cons_of_pos (by simpa using hc)

namespace Returned

theorem withReturns (h : '\r' ∉ s) : Returned s (withReturns s) := by
  induction s with
  | nil => exact .nil
  | cons c s ih =>
      rw [List.mem_cons, not_or] at h
      by_cases hc : c = '\n'
      · subst hc
        exact .feed (ih h.2)
      · have htext : Text.withReturns (c :: s) = c :: Text.withReturns s := by
          simp [Text.withReturns, hc]
        rw [htext]
        exact .char (Ne.symm h.1) (ih h.2)

theorem refl (h : '\r' ∉ s) : Returned s s := by
  induction s with
  | nil => exact .nil
  | cons c s ih =>
      rw [List.mem_cons, not_or] at h
      exact .char (Ne.symm h.1) (ih h.2)

theorem withoutReturns (h : Returned s s') : withoutReturns s' = s := by
  induction h with
  | nil => rfl
  | feed _ ih => simp [ih]
  | char hc _ ih => rw [withoutReturns_cons hc, ih]

theorem append (h : Returned s s') (ht : Returned t t') : Returned (s ++ t) (s' ++ t') := by
  induction h with
  | nil => exact ht
  | feed _ ih => exact .feed ih
  | char hc _ ih => exact .char hc ih

theorem exists_append (h : Returned (s ++ t) s') :
    ∃ u v, s' = u ++ v ∧ Returned s u ∧ Returned t v := by
  induction s generalizing s' with
  | nil => exact ⟨[], s', rfl, .nil, h⟩
  | cons c s ih =>
      cases h with
      | feed h =>
          obtain ⟨u, v, rfl, hu, hv⟩ := ih h
          exact ⟨'\r' :: '\n' :: u, v, rfl, .feed hu, hv⟩
      | char hc h =>
          obtain ⟨u, v, rfl, hu, hv⟩ := ih h
          exact ⟨c :: u, v, rfl, .char hc hu, hv⟩

theorem exists_cons {c : Char} (hc : c ≠ '\n') (h : Returned (c :: s) s') :
    ∃ t, s' = c :: t ∧ Returned s t := by
  cases h with
  | feed => exact absurd rfl hc
  | char _ h => exact ⟨_, rfl, h⟩

theorem exists_cons' {c : Char} (hc : c ≠ '\r') (h : Returned s (c :: s')) :
    ∃ t, s = c :: t ∧ Returned t s' := by
  cases h with
  | feed => exact absurd rfl hc
  | char _ h => exact ⟨_, rfl, h⟩

theorem eq_nil_iff (h : Returned s s') : s = [] ↔ s' = [] := by cases h <;> simp

theorem head?_eq_some_iff (h : Returned s s') {c : Char} (hfeed : c ≠ '\n') (hreturn : c ≠ '\r') :
    s'.head? = some c ↔ s.head? = some c := by
  cases h with
  | nil => rfl
  | feed => simp [Ne.symm hfeed, Ne.symm hreturn]
  | char => rfl

theorem dropLast (h : Returned s s') (hlast : s.getLast? ≠ some '\n') :
    Returned s.dropLast s'.dropLast := by
  obtain rfl | ⟨t, x, rfl⟩ := List.eq_nil_or_concat s
  · rw [h.eq_nil_iff.mp rfl]
    exact .nil
  · rw [List.concat_eq_append] at h hlast ⊢
    obtain ⟨t', u, rfl, ht, hu⟩ := h.exists_append
    obtain ⟨v, rfl, hv⟩ := hu.exists_cons (by simpa using hlast)
    cases hv
    simpa using ht

theorem isEmpty_eq (h : Returned s s') : s'.isEmpty = s.isEmpty := by cases h <;> rfl

theorem mem_iff (h : Returned s s') {x : Char} (hx : x ≠ '\r') : x ∈ s' ↔ x ∈ s := by
  rw [← h.withoutReturns, Text.withoutReturns, List.mem_filter]
  simp [hx]

/-- Each added character stands in front of a line feed. -/
theorem getLast?_eq (h : Returned s s') : s'.getLast? = s.getLast? := by
  induction h with
  | nil => rfl
  | feed _ ih => rw [List.getLast?_cons_cons, List.getLast?_cons, List.getLast?_cons, ih]
  | char _ _ ih => rw [List.getLast?_cons, List.getLast?_cons, ih]

theorem eq_of_not_feed (h : Returned s s') (hs : '\n' ∉ s) : s' = s := by
  induction h with
  | nil => rfl
  | feed => simp at hs
  | char _ _ ih => rw [ih fun hmem => hs (by simp [hmem])]

/-! ## Trimming -/

theorem dropWhile {drop : Char → Bool} (hdrop : drop '\r' = drop '\n') (h : Returned s s') :
    Returned (s.dropWhile drop) (s'.dropWhile drop) := by
  induction h with
  | nil => exact .nil
  | feed h ih =>
      cases hfeed : drop '\n' with
      | true => simpa [hdrop, hfeed] using ih
      | false => simpa [hdrop, hfeed] using h.feed
  | @char c _ _ hc h ih =>
      cases hfeed : drop c with
      | true => simpa [hfeed] using ih
      | false => simpa [hfeed] using h.char hc

/-- What stands in front of a line feed ends with its carriage return. -/
theorem dropWhile_notFeed (h : Returned s s') :
    Returned (s.dropWhile (· != '\n')) (s'.dropWhile (· != '\n')) := by
  induction h with
  | nil => exact .nil
  | feed h _ => exact .char (by decide) h
  | @char c _ _ hc h ih =>
      by_cases hfeed : c = '\n'
      · simpa [hfeed] using h.char (c := '\n') (by decide)
      · simpa [hfeed] using ih

theorem isBlank (h : Returned s s') (hs : ∀ x ∈ s, isBlank x = true) :
    ∀ x ∈ s', Text.isBlank x = true := by
  intro x hx
  by_cases hreturn : x = '\r'
  · subst hreturn
    rfl
  · exact hs x ((h.mem_iff hreturn).mp hx)

theorem trim (h : Returned s s') : Returned (trim s) (trim s') := by
  have hstart : Returned (s.dropWhile Text.isBlank) (s'.dropWhile Text.isBlank) :=
    h.dropWhile rfl
  rw [Text.trim, Text.trim, trimWith, trimWith]
  generalize s.dropWhile Text.isBlank = u at hstart
  generalize s'.dropWhile Text.isBlank = u' at hstart
  obtain ⟨b, hu, hb⟩ := exists_trimEndWith Text.isBlank u
  have hlast := getLast?_trimEndWith Text.isBlank u
  generalize trimEndWith Text.isBlank u = v at hu hlast
  subst hu
  obtain ⟨v', b', rfl, hv, hb'⟩ := hstart.exists_append
  rwa [trimEndWith_append (by rwa [hv.getLast?_eq]) (hb'.isBlank hb)]

end Returned

/-! ## Lines -/

private theorem linesFrom_returned {line line' : Text} (hline : Returned line.reverse line'.reverse)
    (h : Returned s s') :
    List.Forall₂ Returned (linesFrom isLineBreak line s) (linesFrom isLineBreak line' s') := by
  induction h generalizing line line' with
  | nil =>
      rw [linesFrom_nil, linesFrom_nil]
      have hempty : line'.isEmpty = line.isEmpty := by
        simpa using hline.isEmpty_eq
      rw [hempty]
      split
      · exact .nil
      · exact .cons hline .nil
  | feed _ ih =>
      have hbreak : isLineBreak '\n' = true := rfl
      rw [linesFrom_crlf, linesFrom_cons _ (by simp), if_pos hbreak]
      refine .cons ?_ (ih .nil)
      simpa using hline.append (.feed .nil)
  | @char c _ _ hc _ ih =>
      have hpush : Returned (c :: line).reverse (c :: line').reverse := by
        simpa using hline.append (.char hc .nil)
      rw [linesFrom_cons _ fun _ hreturn => absurd hreturn hc,
        linesFrom_cons _ fun _ hreturn => absurd hreturn hc]
      split
      · exact .cons hpush (ih .nil)
      · exact ih hpush

namespace Returned

theorem lines (h : Returned s s') : List.Forall₂ Returned (lines s) (lines s') :=
  linesFrom_returned .nil h

theorem withoutBreak_eq (h : Returned s s') : withoutBreak s' = withoutBreak s := by
  induction h with
  | nil => rfl
  | feed _ ih => exact ih
  | char _ _ ih =>
      rw [withoutBreak] at ih
      rw [withoutBreak, withoutBreak, List.filter_cons, List.filter_cons, ih, withoutBreak]

theorem bareLines_eq (h : Returned s s') : bareLines s' = bareLines s := by
  have hlines := h.lines
  rw [bareLines, bareLines]
  generalize Text.lines s = ls at hlines
  generalize Text.lines s' = ls' at hlines
  induction hlines with
  | nil => rfl
  | cons hl _ ih => rw [List.map_cons, List.map_cons, ih, hl.withoutBreak_eq]

theorem lineCount_eq (h : Returned s s') : lineCount s' = lineCount s := by
  rw [lineCount, lineCount, h.trim.bareLines_eq]

theorem preview_eq (h : Returned s s') (limit : Int) : preview limit s' = preview limit s := by
  rw [preview, preview, h.trim.bareLines_eq]

/-! ## Collapsing -/

theorem collapse_eq (h : Returned s s') : collapse s' = collapse s := by
  suffices hgo : ∀ inRun, collapse.go inRun s' = collapse.go inRun s by
    rw [collapse, collapse, hgo]
  induction h with
  | nil => exact fun _ => rfl
  | feed _ ih =>
      rintro (_ | _)
      · simp [collapse.go, ih]
      · simp [collapse.go, ih]
  | char _ _ ih =>
      intro inRun
      rw [collapse.go, collapse.go, ih, ih]

end Returned

/-! ## Parts of a text -/

/-- As `Returned`, but the end of the second text may stand between a carriage return and its line
feed. -/
def ReturnedCut (s s' : Text) : Prop :=
  Returned s s' ∨ ∃ t, s' = t ++ ['\r'] ∧ Returned s t

theorem Returned.cut_of_append {s u v : Text} (h : Returned s (u ++ v)) :
    ReturnedCut (Text.withoutReturns u) u := by
  generalize htext : u ++ v = s' at h
  induction h generalizing u with
  | nil =>
      obtain ⟨rfl, -⟩ := List.append_eq_nil_iff.mp htext
      exact .inl .nil
  | feed h ih =>
      match u with
      | [] => exact .inl .nil
      | [x] =>
          simp only [List.cons_append, List.cons.injEq] at htext
          obtain ⟨rfl, -⟩ := htext
          exact .inr ⟨[], rfl, .nil⟩
      | x :: y :: u =>
          simp only [List.cons_append, List.cons.injEq] at htext
          obtain ⟨rfl, rfl, htext⟩ := htext
          rcases ih htext with hu | ⟨t, rfl, ht⟩
          · exact .inl (.feed hu)
          · exact .inr ⟨'\r' :: '\n' :: t, rfl, by simpa using ht.feed⟩
  | @char c _ _ hc h ih =>
      cases u with
      | nil => exact .inl .nil
      | cons x u =>
          simp only [List.cons_append, List.cons.injEq] at htext
          obtain ⟨rfl, htext⟩ := htext
          rw [withoutReturns_cons hc]
          rcases ih htext with hu | ⟨t, rfl, ht⟩
          · exact .inl (.char hc hu)
          · exact .inr ⟨x :: t, rfl, ht.char hc⟩

namespace ReturnedCut

theorem withoutReturns (h : ReturnedCut s s') : Text.withoutReturns s' = s := by
  rcases h with h | ⟨t, rfl, ht⟩
  · exact h.withoutReturns
  · rw [withoutReturns_append, ht.withoutReturns]
    exact List.append_nil s

theorem returned (h : ReturnedCut s s') (hlast : s'.getLast? ≠ some '\r') : Returned s s' := by
  rcases h with h | ⟨t, rfl, ht⟩
  · exact h
  · simp at hlast

theorem trim (h : ReturnedCut s s') : Returned (trim s) (trim s') := by
  rcases h with h | ⟨t, rfl, ht⟩
  · exact h.trim
  · rw [trim_append_blanks t (by simp)]
    exact ht.trim

end ReturnedCut

end ProcCatalog.Text
