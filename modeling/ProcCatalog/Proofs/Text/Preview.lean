import ProcCatalog.Proofs.Text.Classes
import ProcCatalog.Proofs.Text.Lines
import ProcCatalog.Proofs.Text.Parts

/-!
# Lines and previews

The lines of a text are free of breaks, and with line feeds between them they are lines again. A
trimmed text begins and ends with a line that is not blank, so where a preview shows all lines it
has as many; where it ends early, blank lines at its end count no more.
-/

namespace ProcCatalog.Text

/-! ## The lines of a text -/

def Unbroken (l : Text) : Prop := ∀ c ∈ l, isLineBreak c = false

/-- What breaks a line of prose. -/
def IsBreak (br : Text) : Prop := br = ['\r', '\n'] ∨ ∃ c, isLineBreak c = true ∧ br = [c]

/-- The lines of a text, with a break between each two of them, and perhaps one at the end. A
carriage return is no break of its own in front of a line feed. -/
inductive Lined : Text → List Text → Prop
  | nil : Lined [] []
  | last {l : Text} (hl : Unbroken l) (hne : l ≠ []) : Lined l [l]
  | cons {l br s : Text} {ls : List Text} (hl : Unbroken l) (hbr : IsBreak br)
      (hreturn : br = ['\r'] → s.head? ≠ some '\n') (hs : Lined s ls) :
      Lined (l ++ (br ++ s)) (l :: ls)

variable {l s t : Text} {ls : List Text}

theorem withoutBreak_append (hl : Unbroken l) (br : Text) (hbr : ∀ c ∈ br, isLineBreak c = true) :
    withoutBreak (l ++ br) = l := by
  rw [withoutBreak, List.filter_append, List.filter_eq_self.mpr (by simpa [Unbroken] using hl),
    List.filter_eq_nil_iff.mpr (by simpa using hbr), List.append_nil]

private theorem lined_linesFrom {line : Text} (hline : Unbroken line) (s : Text) :
    Lined (line.reverse ++ s) ((linesFrom isLineBreak line s).map withoutBreak) := by
  have hreverse {line : Text} (hline : Unbroken line) : Unbroken line.reverse := by
    simpa [Unbroken] using hline
  fun_induction linesFrom isLineBreak line s with
  | case1 line hempty =>
      obtain rfl := List.isEmpty_iff.mp hempty
      exact .nil
  | case2 line hempty =>
      have hbare : withoutBreak line.reverse = line.reverse := by
        simpa using withoutBreak_append (hreverse hline) [] (by simp)
      rw [List.append_nil, List.map_singleton, hbare]
      exact .last (hreverse hline) (by simpa using hempty)
  | case3 line s ih =>
      have hbare := withoutBreak_append (hreverse hline) ['\r', '\n'] (by simp; decide)
      have hrest := Lined.cons (hreverse hline) (.inl rfl) (by simp) (ih (by simp [Unbroken]))
      simpa [hbare] using hrest
  | case4 line c s hreturn hc ih =>
      have hbare := withoutBreak_append (hreverse hline) [c] (by simpa using hc)
      have hfeed : [c] = ['\r'] → s.head? ≠ some '\n' := by
        intro heq hhead
        obtain ⟨t, rfl⟩ := List.head?_eq_some_iff.mp hhead
        exact hreturn t (by simpa using heq) rfl
      have hrest := Lined.cons (hreverse hline) (.inr ⟨c, hc, rfl⟩) hfeed (ih (by simp [Unbroken]))
      simpa [hbare] using hrest
  | case5 line c s _ hc ih =>
      have hcons : Unbroken (c :: line) := by
        simpa [Unbroken, hc] using hline
      simpa using ih hcons

theorem lined_bareLines (s : Text) : Lined s (bareLines s) :=
  lined_linesFrom (List.forall_mem_nil _) s

private theorem bareLines_append {br : Text} (hl : Unbroken l) (hbr : IsBreak br)
    (hreturn : br = ['\r'] → s.head? ≠ some '\n') :
    bareLines (l ++ (br ++ s)) = l :: bareLines s := by
  rw [bareLines, lines, linesFrom_body rfl hl, List.append_nil]
  rcases hbr with rfl | ⟨c, hc, rfl⟩
  · have hbare := withoutBreak_append hl ['\r', '\n'] (by simp; decide)
    rw [List.cons_append, List.singleton_append, linesFrom_crlf]
    simp [hbare, bareLines, lines]
  · have hbare := withoutBreak_append hl [c] (by simpa using hc)
    have hfeed : ∀ t, c = '\r' → s ≠ '\n' :: t := by
      rintro t rfl rfl
      exact hreturn rfl rfl
    rw [List.singleton_append, linesFrom_cons _ hfeed, if_pos hc]
    simp [hbare, bareLines, lines]

/-- There is one way to cut a text into lines. -/
theorem lined_iff : Lined s ls ↔ ls = bareLines s := by
  refine ⟨fun h => ?_, fun h => h ▸ lined_bareLines s⟩
  induction h with
  | nil => rfl
  | @last l hl hne =>
      have hbare : withoutBreak l = l := by simpa using withoutBreak_append hl [] (by simp)
      have hlines : linesFrom isLineBreak [] l = linesFrom isLineBreak l.reverse [] := by
        simpa using linesFrom_body rfl hl [] []
      rw [bareLines, lines, hlines, linesFrom_nil]
      simp [hne, hbare]
  | cons hl hbr hreturn _ ih => rw [bareLines_append hl hbr hreturn, ← ih]

/-! ## Line feeds between the lines -/

theorem lined_joinWith (hls : ∀ l ∈ ls, Unbroken l) (hlast : ls.getLast? ≠ some []) :
    Lined (joinWith ['\n'] ls) ls := by
  induction ls with
  | nil => exact .nil
  | cons l ls ih =>
      obtain ⟨hl, hls⟩ := List.forall_mem_cons.mp hls
      cases ls with
      | nil =>
          rw [joinWith, List.intercalate_singleton]
          exact .last hl (by simpa using hlast)
      | cons m ms =>
          rw [joinWith_cons_cons]
          refine .cons hl (.inr ⟨'\n', rfl, rfl⟩) (fun heq => absurd heq (by decide)) (ih hls ?_)
          simpa using hlast

theorem count_joinWith (hls : ∀ l ∈ ls, Unbroken l) :
    (joinWith ['\n'] ls).count '\n' = ls.length - 1 := by
  have hcount {l : Text} (hl : Unbroken l) : l.count '\n' = 0 :=
    List.count_eq_zero.mpr fun hmem => absurd (hl '\n' hmem) (by decide)
  induction ls with
  | nil => rfl
  | cons l ls ih =>
      obtain ⟨hl, hls⟩ := List.forall_mem_cons.mp hls
      cases ls with
      | nil => simpa [joinWith] using hcount hl
      | cons m ms =>
          rw [joinWith_cons_cons, List.count_append, List.count_append, hcount hl, ih hls]
          simp
          omega

theorem mem_joinWith {c : Char} (h : c ∈ joinWith ['\n'] ls) : c = '\n' ∨ ∃ l ∈ ls, c ∈ l := by
  induction ls with
  | nil => simp [joinWith] at h
  | cons l ls ih =>
      cases ls with
      | nil => exact .inr ⟨l, by simp, by simpa [joinWith] using h⟩
      | cons m ms =>
          rw [joinWith_cons_cons, List.mem_append, List.mem_append, List.mem_singleton] at h
          rcases h with hl | hfeed | hrest
          · exact .inr ⟨l, by simp, hl⟩
          · exact .inl hfeed
          · obtain hfeed | ⟨k, hk, hc⟩ := ih hrest
            · exact .inl hfeed
            · exact .inr ⟨k, List.mem_cons_of_mem _ hk, hc⟩

theorem Lined.unbroken (h : Lined s ls) : ∀ l ∈ ls, Unbroken l := by
  induction h with
  | nil => simp
  | last hl _ => simpa using hl
  | cons hl _ _ _ ih => exact List.forall_mem_cons.mpr ⟨hl, ih⟩

theorem Lined.eq_nil_iff (h : Lined s ls) : ls = [] ↔ s = [] := by
  cases h with
  | nil => simp
  | last _ hne => simp [hne]
  | cons _ hbr => rcases hbr with rfl | ⟨c, -, rfl⟩ <;> simp

private theorem IsBreak.ends {br : Text} (h : IsBreak br) :
    br ≠ [] ∧ (∀ x ∈ br.head?, isLineBreak x = true) ∧
      ∀ x ∈ br.getLast?, isLineBreak x = true := by
  rcases h with rfl | ⟨c, hc, rfl⟩
  · simp
    decide
  · simpa using hc

theorem Lined.head?_joinWith (h : Lined s ls) (hs : ∀ x ∈ s.head?, isLineBreak x = false) :
    (joinWith ['\n'] ls).head? = s.head? := by
  cases h with
  | nil => rfl
  | last => rw [joinWith, List.intercalate_singleton]
  | @cons l br s ls hl hbr =>
      have hne : l ≠ [] := by
        rintro rfl
        obtain ⟨hbr, hhead, -⟩ := hbr.ends
        obtain ⟨c, br, rfl⟩ := List.exists_cons_of_ne_nil hbr
        exact Bool.false_ne_true ((hs c rfl).symm.trans (hhead c rfl))
      rw [List.head?_append_of_ne_nil _ hne]
      cases ls with
      | nil => rw [joinWith, List.intercalate_singleton]
      | cons m ms => rw [joinWith_cons_cons, List.head?_append_of_ne_nil _ hne]

/-- A text that ends with no break ends with its last line. -/
theorem Lined.getLast? (h : Lined s ls) (hs : ∀ x ∈ s.getLast?, isLineBreak x = false) :
    (joinWith ['\n'] ls).getLast? = s.getLast? ∧ ls.getLast? ≠ some [] := by
  induction h with
  | nil => simp [joinWith]
  | last _ hne => simpa [joinWith] using hne
  | @cons l br s ls _ hbr _ hrest ih =>
      obtain ⟨hbr, -, hlast⟩ := hbr.ends
      have hne : s ≠ [] := by
        rintro rfl
        have hmem := List.getLast?_eq_some_getLast hbr
        rw [List.append_nil, List.getLast?_append_of_ne_nil _ hbr] at hs
        exact Bool.false_ne_true ((hs _ hmem).symm.trans (hlast _ hmem))
      rw [List.getLast?_append_of_ne_nil _ (by simp [hne]),
        List.getLast?_append_of_ne_nil _ hne] at hs ⊢
      obtain ⟨hjoined, hended⟩ := ih hs
      cases ls with
      | nil => exact absurd (hrest.eq_nil_iff.mp rfl) hne
      | cons m ms =>
          have hjoin : joinWith ['\n'] (m :: ms) ≠ [] := by
            intro hnil
            rw [hnil] at hjoined
            exact hne (List.getLast?_eq_none_iff.mp hjoined.symm)
          rw [joinWith_cons_cons, List.getLast?_append_of_ne_nil _ (by simp),
            List.getLast?_append_of_ne_nil _ hjoin]
          exact ⟨hjoined, by simpa using hended⟩

theorem Lined.length_le (h : Lined s ls) (hs : ∀ c ∈ s, isLineBreak c = true → c = '\n') :
    ls.length ≤ s.count '\n' + 1 := by
  induction h with
  | nil => simp
  | last => simp
  | @cons l br s ls _ hbr _ _ ih =>
      have hrest := ih fun c hc => hs c (by simp [hc])
      have hfeed : 1 ≤ br.count '\n' := by
        rcases hbr with rfl | ⟨c, hc, rfl⟩
        · decide
        · rw [hs c (by simp) hc]
          decide
      rw [List.count_append, List.count_append, List.length_cons]
      omega

/-! ## Counts and previews -/

private theorem isLineBreak_eq_false {c : Char} (h : isBlank c = false) : isLineBreak c = false :=
  Bool.eq_false_iff.mpr fun hc => by simp [isBlank_of_isLineBreak hc] at h

theorem lineCount_eq (h : Lined (trim t) ls) : lineCount t = ls.length := by
  rw [lineCount, ← lined_iff.mp h]

theorem preview_eq (h : Lined (trim t) ls) (n : Nat) :
    preview n t = joinWith ['\n'] (ls.take n) := by
  rw [preview, ← lined_iff.mp h, upTo, if_pos (Int.natCast_nonneg n), Int.toNat_natCast]

/-- All lines of a text, with line feeds between them, are its lines again. -/
theorem lined_trim_joinWith (h : Lined (trim t) ls) :
    Lined (trim (joinWith ['\n'] ls)) ls := by
  have hhead := h.head?_joinWith fun x hx => isLineBreak_eq_false (head?_trim t x hx)
  obtain ⟨hlast, hended⟩ := h.getLast? fun x hx => isLineBreak_eq_false (getLast?_trim t x hx)
  rw [trim_eq_self (by simpa only [hhead] using head?_trim t)
    (by simpa only [hlast] using getLast?_trim t)]
  exact lined_joinWith h.unbroken hended

theorem lineCount_joinWith_le (hls : ∀ l ∈ ls, Unbroken l) :
    lineCount (joinWith ['\n'] ls) ≤ ls.length := by
  obtain ⟨u, v, hjoin, -, -⟩ := exists_trim (joinWith ['\n'] ls)
  have hcount := count_joinWith hls
  have hfeeds : ∀ c ∈ trim (joinWith ['\n'] ls), isLineBreak c = true → c = '\n' := by
    intro c hc hbreak
    have hmem : c ∈ joinWith ['\n'] ls := by
      rw [hjoin]
      simp [hc]
    rcases mem_joinWith hmem with hfeed | ⟨l, hl, hcl⟩
    · exact hfeed
    · exact absurd ((hls l hl c hcl).symm.trans hbreak) Bool.false_ne_true
  have hle := (lined_bareLines (trim (joinWith ['\n'] ls))).length_le hfeeds
  have hparts := congrArg (List.count '\n') hjoin
  rw [List.count_append, List.count_append] at hparts
  rcases ls with _ | ⟨l, ls⟩
  · rfl
  · rw [List.length_cons] at hcount ⊢
    rw [lineCount]
    omega

/-- The preview shows the first of the counted lines. -/
theorem preview_shows_counted_lines (t : Text) (n : Nat) :
    ∃ ls, Lined (trim t) ls ∧ lineCount t = ls.length ∧ (∀ l ∈ ls, Unbroken l) ∧
      preview n t = joinWith ['\n'] (ls.take (min n (lineCount t))) ∧
      ((∃ c ∈ t, isBlank c = false) → 1 ≤ n →
        (preview n t).count '\n' + 1 = min n (lineCount t)) ∧
      (lineCount t ≤ n →
        lineCount (preview n t) = lineCount t ∧ preview n (preview n t) = preview n t) ∧
      lineCount (preview n t) ≤ min n (lineCount t) := by
  have h := lined_bareLines (trim t)
  generalize bareLines (trim t) = ls at h
  have hcount := lineCount_eq h
  have hfirst : ∀ l ∈ ls.take n, Unbroken l := fun l hl => h.unbroken l (List.mem_of_mem_take hl)
  have htake : (ls.take n).length = min n (lineCount t) := by rw [List.length_take, hcount]
  refine ⟨ls, h, hcount, h.unbroken, ?_, fun hsome hn => ?_, fun hall => ?_, ?_⟩
  · rw [preview_eq h, hcount, List.take_eq_take_min]
  · have hne : ls ≠ [] := by
      rw [Ne, h.eq_nil_iff, trim_eq_nil_iff]
      obtain ⟨c, hc, hblank⟩ := hsome
      exact fun hblanks => Bool.false_ne_true (hblank.symm.trans (hblanks c hc))
    have hpos := List.length_pos_iff.mpr hne
    rw [preview_eq h, count_joinWith hfirst, htake]
    omega
  · have hlined := lined_trim_joinWith h
    rw [preview_eq h, List.take_of_length_le (hcount ▸ hall), preview_eq hlined,
      List.take_of_length_le (hcount ▸ hall), lineCount_eq hlined, hcount]
    exact ⟨rfl, rfl⟩
  · rw [preview_eq h, ← htake]
    exact lineCount_joinWith_le hfirst

/-- A form feed, a group separator, a next line and an em space: three of them break lines. -/
theorem preview_shows_counted_lines_of_mixed_breaks :
    let t := "\x0c a\r\n\x1d\n  b\u0085c \n\u2003\n".toList
    lineCount t = 5 ∧ (preview 3 t).count '\n' + 1 = 3 ∧ lineCount (preview 3 t) ≤ 3 ∧
      lineCount (preview 9 t) = 5 ∧ preview 9 (preview 9 t) = preview 9 t := by
  intro t
  have hfive : lineCount t = 5 := by decide +kernel
  obtain ⟨-, -, -, -, -, hfeeds, -, hle⟩ := preview_shows_counted_lines t 3
  obtain ⟨-, -, -, -, -, -, hall, -⟩ := preview_shows_counted_lines t 9
  have hsome := hfeeds ⟨'a', by decide +kernel, rfl⟩ (by decide)
  obtain ⟨hcount, hagain⟩ := hall (hfive ▸ by decide)
  rw [hfive] at hsome hle hcount
  exact ⟨hfive, hsome, hle, hcount, hagain⟩

end ProcCatalog.Text
