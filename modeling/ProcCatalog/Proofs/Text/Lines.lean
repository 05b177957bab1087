import ProcCatalog.Text.Line
import Mathlib

/-!
# Lines of prose and lines of a file

Every break of a file line breaks a line of prose too, so the lines of prose part the lines of a
file further. Inside a line of a file, each line of prose but the last ends with a break that breaks
no line of a file.
-/

namespace ProcCatalog.Text

/-! ## Equations -/

theorem linesFrom_nil (breaks : Char → Bool) (line : Text) :
    linesFrom breaks line [] = if line.isEmpty then [] else [line.reverse] := rfl

theorem linesFrom_crlf (breaks : Char → Bool) (line s : Text) :
    linesFrom breaks line ('\r' :: '\n' :: s) =
      ('\n' :: '\r' :: line).reverse :: linesFrom breaks [] s := rfl

theorem linesFrom_cons {breaks : Char → Bool} {c : Char} {s : Text} (line : Text)
    (h : ∀ t, c = '\r' → s ≠ '\n' :: t) :
    linesFrom breaks line (c :: s) =
      if breaks c then (c :: line).reverse :: linesFrom breaks [] s
      else linesFrom breaks (c :: line) s := by
  rw [linesFrom]
  exact h

theorem isLineBreak_of_isFileLineBreak {c : Char} (h : isFileLineBreak c = true) :
    isLineBreak c = true := by
  simp only [isFileLineBreak, Bool.or_eq_true, beq_iff_eq] at h
  rcases h with rfl | rfl <;> rfl

theorem isBlank_of_isLineBreak {c : Char} (h : isLineBreak c = true) : isBlank c = true := by
  simp only [isLineBreak, isBlank, Bool.or_eq_true, Bool.and_eq_true, decide_eq_true_eq,
    beq_iff_eq] at h ⊢
  omega

theorem ne_nil_of_mem_linesFrom {breaks : Char → Bool} {line s l : Text}
    (h : l ∈ linesFrom breaks line s) : l ≠ [] := by
  fun_induction linesFrom breaks line s with
  | case1 => simp at h
  | case2 line hline =>
      obtain rfl : l = line.reverse := by simpa using h
      simpa using hline
  | case3 line s ih =>
      rcases List.mem_cons.mp h with rfl | h
      · simp
      · exact ih h
  | case4 line c s _ _ ih =>
      rcases List.mem_cons.mp h with rfl | h
      · simp
      · exact ih h
  | case5 line c s _ _ ih => exact ih h

theorem ne_nil_of_mem_lines {s l : Text} (h : l ∈ lines s) : l ≠ [] := ne_nil_of_mem_linesFrom h

/-! ## Lines of prose in lines of a file -/

/-- `line` is the line of a file so far, of which the lines of prose `done` are complete and
`piece` is left. -/
private theorem lines_eq_flatMap_from (line s : Text) (done : List Text) (piece : Text)
    (h : ∀ t, lines (line.reverse ++ t) = done ++ linesFrom isLineBreak piece t) :
    done ++ linesFrom isLineBreak piece s = (linesFrom isFileLineBreak line s).flatMap lines := by
  fun_induction linesFrom isFileLineBreak line s generalizing done piece with
  | case1 line hline =>
      rw [← h, List.append_nil, List.isEmpty_iff.mp hline]
      rfl
  | case2 line hline => rw [← h, List.append_nil, List.flatMap_singleton]
  | case3 line s ih =>
      have hline : lines ('\n' :: '\r' :: line).reverse =
          done ++ [('\n' :: '\r' :: piece).reverse] := by
        simpa [linesFrom_crlf, linesFrom_nil] using h ['\r', '\n']
      have hrest := ih [] [] fun t => rfl
      rw [List.nil_append] at hrest
      rw [List.flatMap_cons, ← hrest, hline, linesFrom_crlf, List.append_assoc]
      rfl
  | case4 line c s hc hbreak ih =>
      have hprose := isLineBreak_of_isFileLineBreak hbreak
      have hline : lines (c :: line).reverse = done ++ [(c :: piece).reverse] := by
        have hc := h [c]
        rw [linesFrom_cons _ (by simp), if_pos hprose] at hc
        simpa [linesFrom_nil] using hc
      have hrest := ih [] [] fun t => rfl
      rw [List.nil_append] at hrest
      rw [List.flatMap_cons, ← hrest, hline, linesFrom_cons _ hc, if_pos hprose,
        List.append_assoc]
      rfl
  | case5 line c s hc hbreak ih =>
      have hreturn : ∀ (s t : Text), c = '\r' → s ≠ '\n' :: t := by
        rintro s t rfl
        exact absurd rfl hbreak
      rw [linesFrom_cons _ (hreturn s)]
      split
      · rename_i hprose
        have := ih (done ++ [(c :: piece).reverse]) [] fun t => by
          have := h (c :: t)
          rw [linesFrom_cons _ (hreturn t), if_pos hprose] at this
          simpa using this
        simpa using this
      · rename_i hprose
        refine ih done (c :: piece) fun t => ?_
        have := h (c :: t)
        rw [linesFrom_cons _ (hreturn t), if_neg hprose] at this
        simpa using this

/-- The lines of prose part the lines of a file further. -/
theorem lines_eq_flatMap_fileLines (s : Text) : lines s = (fileLines s).flatMap lines :=
  lines_eq_flatMap_from [] s [] [] fun _ => rfl

/-- What ends a line of a file, if it is not cut off by the end of the file. -/
def IsFileBreak (br : Text) : Prop := br = [] ∨ br = ['\n'] ∨ br = ['\r'] ∨ br = ['\r', '\n']

theorem exists_of_mem_fileLines {s f : Text} (h : f ∈ fileLines s) :
    ∃ body br, f = body ++ br ∧ (∀ c ∈ body, isFileLineBreak c = false) ∧ IsFileBreak br := by
  suffices hfrom : ∀ line s, (∀ c ∈ line, isFileLineBreak c = false) →
      f ∈ linesFrom isFileLineBreak line s →
      ∃ body br, f = body ++ br ∧ (∀ c ∈ body, isFileLineBreak c = false) ∧ IsFileBreak br from
    hfrom [] s (by simp) h
  clear h s
  intro line s hline h
  fun_induction linesFrom isFileLineBreak line s with
  | case1 => simp at h
  | case2 line _ =>
      obtain rfl : f = line.reverse := by simpa using h
      exact ⟨line.reverse, [], by simp, by simpa using hline, .inl rfl⟩
  | case3 line s ih =>
      rcases List.mem_cons.mp h with rfl | h
      · exact ⟨line.reverse, ['\r', '\n'], by simp, by simpa using hline, .inr (.inr (.inr rfl))⟩
      · exact ih (by simp) h
  | case4 line c s _ hc ih =>
      rcases List.mem_cons.mp h with rfl | h
      · refine ⟨line.reverse, [c], by simp, by simpa using hline, ?_⟩
        simp only [isFileLineBreak, Bool.or_eq_true, beq_iff_eq] at hc
        rcases hc with rfl | rfl
        · exact .inr (.inl rfl)
        · exact .inr (.inr (.inl rfl))
      · exact ih (by simp) h
  | case5 line c s _ hc ih =>
      refine ih (fun d hd => ?_) h
      rcases List.mem_cons.mp hd with rfl | hd
      · simpa using hc
      · exact hline d hd

/-- A character that ends a line of prose but no line of a file. -/
def isStrayBreak (c : Char) : Bool := isLineBreak c && !isFileLineBreak c

theorem isBlank_of_isStrayBreak {c : Char} (h : isStrayBreak c = true) : isBlank c = true :=
  isBlank_of_isLineBreak (Bool.and_eq_true_iff.mp h).1

private theorem stray_of_mem_dropLast {line body br l : Text}
    (hbody : ∀ c ∈ body, isFileLineBreak c = false) (hbr : IsFileBreak br)
    (h : l ∈ (linesFrom isLineBreak line (body ++ br)).dropLast) :
    ∃ x ∈ l.getLast?, isStrayBreak x = true := by
  induction body generalizing line with
  | nil =>
      rcases hbr with rfl | rfl | rfl | rfl
      · rw [List.nil_append, linesFrom_nil] at h
        split at h <;> simp at h
      · simp [linesFrom, isLineBreak] at h
      · simp [linesFrom, isLineBreak] at h
      · simp [linesFrom] at h
  | cons c body ih =>
      have hc : isFileLineBreak c = false := hbody c (by simp)
      have hrest : ∀ d ∈ body, isFileLineBreak d = false := fun d hd => hbody d (by simp [hd])
      rw [List.cons_append, linesFrom_cons _ (by rintro t rfl; exact absurd hc (by decide))] at h
      split at h
      · rename_i hprose
        cases hmore : linesFrom isLineBreak [] (body ++ br) with
        | nil => simp [hmore] at h
        | cons m ms =>
            rw [hmore, List.dropLast_cons_of_ne_nil (List.cons_ne_nil _ _), ← hmore] at h
            rcases List.mem_cons.mp h with rfl | h
            · exact ⟨c, by simp, by simp [isStrayBreak, hprose, hc]⟩
            · exact ih hrest h
      · exact ih hrest h

theorem stray_of_mem_dropLast_lines {s f l : Text} (hf : f ∈ fileLines s)
    (hl : l ∈ (lines f).dropLast) : ∃ x ∈ l.getLast?, isStrayBreak x = true := by
  obtain ⟨body, br, rfl, hbody, hbr⟩ := exists_of_mem_fileLines hf
  exact stray_of_mem_dropLast hbody hbr hl

theorem lines_ne_nil {s f : Text} (hf : f ∈ fileLines s) : lines f ≠ [] := by
  intro hnil
  have hflat : (lines f).flatten = f := flatten_lines f
  rw [hnil] at hflat
  exact ne_nil_of_mem_linesFrom hf hflat.symm

/-- Without such a character, a line of a file is one line of prose. -/
theorem lines_eq_singleton {s f : Text} (hf : f ∈ fileLines s)
    (h : ∀ c ∈ f, isStrayBreak c = false) : lines f = [f] := by
  have hflat : (lines f).flatten = f := flatten_lines f
  have hdrop : (lines f).dropLast = [] := by
    refine List.eq_nil_iff_forall_not_mem.mpr fun l hl => ?_
    obtain ⟨x, hx, hstray⟩ := stray_of_mem_dropLast_lines hf hl
    have hmem : x ∈ f := by
      rw [← hflat]
      exact List.mem_flatten.mpr ⟨l, List.mem_of_mem_dropLast hl, List.mem_of_getLast? hx⟩
    simp [h x hmem] at hstray
  have hne : lines f ≠ [] := lines_ne_nil hf
  obtain ⟨l, hl⟩ : ∃ l, lines f = [l] := by
    refine ⟨(lines f).getLast hne, ?_⟩
    conv_lhs => rw [← List.dropLast_append_getLast hne, hdrop]
    rfl
  rw [hl] at hflat ⊢
  simpa using hflat

/-! ## The lines of a file -/

/-- A text cut into lines of a file: each of them but the last has a break at its end, none has one
in front of its end, and a carriage return is not parted from the line feed after it. -/
structure FileCut (t : Text) (ls : List Text) : Prop where
  flatten : ls.flatten = t
  nonempty : ∀ l ∈ ls, l ≠ []
  line : ∀ l ∈ ls, ∃ body br, l = body ++ br ∧ (∀ c ∈ body, isFileLineBreak c = false) ∧
    IsFileBreak br
  ended : ∀ l ∈ ls.dropLast, ∃ x ∈ l.getLast?, isFileLineBreak x = true
  unparted : ls.IsChain fun l m => l.getLast? = some '\r' → m.head? ≠ some '\n'

private theorem mem_dropLast_cons {l m : Text} {ls : List Text} (h : l ∈ (m :: ls).dropLast) :
    l = m ∨ l ∈ ls.dropLast := by
  cases ls with
  | nil => simp at h
  | cons k ls => simpa [List.dropLast_cons_cons] using h

private theorem ended_linesFrom (line s : Text) :
    ∀ l ∈ (linesFrom isFileLineBreak line s).dropLast,
      ∃ x ∈ l.getLast?, isFileLineBreak x = true := by
  intro l hl
  fun_induction linesFrom isFileLineBreak line s with
  | case1 => simp at hl
  | case2 => simp at hl
  | case3 line s ih =>
      rcases mem_dropLast_cons hl with rfl | hl
      · exact ⟨'\n', by simp, rfl⟩
      · exact ih hl
  | case4 line c s _ hc ih =>
      rcases mem_dropLast_cons hl with rfl | hl
      · exact ⟨c, by simp, hc⟩
      · exact ih hl
  | case5 line c s _ _ ih => exact ih hl

/-- The first line begins with the text. -/
private theorem head?_of_mem_head?_linesFrom {breaks : Char → Bool} {s l : Text}
    (h : l ∈ (linesFrom breaks [] s).head?) : l.head? = s.head? := by
  have hflat : (linesFrom breaks [] s).flatten = s := flatten_linesFrom breaks [] s
  obtain ⟨ls, hls⟩ := List.head?_eq_some_iff.mp h
  have hne : l ≠ [] := ne_nil_of_mem_linesFrom (List.mem_of_head? h)
  rw [← hflat, hls, List.flatten_cons, List.head?_append_of_ne_nil _ hne]

private theorem unparted_linesFrom (line s : Text) :
    (linesFrom isFileLineBreak line s).IsChain
      fun l m => l.getLast? = some '\r' → m.head? ≠ some '\n' := by
  fun_induction linesFrom isFileLineBreak line s with
  | case1 => exact .nil
  | case2 => exact List.isChain_singleton _
  | case3 line s ih => exact List.isChain_cons.mpr ⟨fun m _ hlast => by simp at hlast, ih⟩
  | case4 line c s hreturn _ ih =>
      refine List.isChain_cons.mpr ⟨fun m hm hlast hhead => ?_, ih⟩
      obtain rfl : c = '\r' := by simpa using hlast
      rw [head?_of_mem_head?_linesFrom hm] at hhead
      obtain ⟨t, rfl⟩ := List.head?_eq_some_iff.mp hhead
      exact hreturn t rfl rfl
  | case5 line c s _ _ ih => exact ih

theorem fileCut_fileLines (t : Text) : FileCut t (fileLines t) where
  flatten := flatten_fileLines t
  nonempty _ := ne_nil_of_mem_linesFrom
  line _ := exists_of_mem_fileLines
  ended := ended_linesFrom [] t
  unparted := unparted_linesFrom [] t

theorem linesFrom_body {breaks : Char → Bool} (hreturn : breaks '\r' = true) {body : Text}
    (h : ∀ c ∈ body, breaks c = false) (line s : Text) :
    linesFrom breaks line (body ++ s) = linesFrom breaks (body.reverse ++ line) s := by
  induction body generalizing line with
  | nil => rfl
  | cons c body ih =>
      obtain ⟨hc, hbody⟩ := List.forall_mem_cons.mp h
      have hne : c ≠ '\r' := by
        rintro rfl
        rw [hreturn] at hc
        cases hc
      rw [List.cons_append, linesFrom_cons _ fun _ heq => absurd heq hne, hc,
        if_neg Bool.false_ne_true, ih hbody]
      simp

private theorem fileLines_ended {body br s : Text}
    (hbody : ∀ c ∈ body, isFileLineBreak c = false) (hbr : IsFileBreak br) (hne : br ≠ [])
    (hnext : br.getLast? = some '\r' → s.head? ≠ some '\n') :
    fileLines (body ++ (br ++ s)) = (body ++ br) :: fileLines s := by
  rw [fileLines, linesFrom_body rfl hbody, List.append_nil]
  rcases hbr with rfl | rfl | rfl | rfl
  · exact absurd rfl hne
  · rw [List.singleton_append, linesFrom_cons _ (by simp),
      if_pos (show isFileLineBreak '\n' = true from rfl)]
    simp [fileLines]
  · have hfeed : ∀ t, '\r' = '\r' → s ≠ '\n' :: t := by
      rintro t - rfl
      exact hnext rfl rfl
    rw [List.singleton_append, linesFrom_cons _ hfeed,
      if_pos (show isFileLineBreak '\r' = true from rfl)]
    simp [fileLines]
  · rw [List.cons_append, List.singleton_append, linesFrom_crlf]
    simp [fileLines]

/-- There is one way to cut a text into lines of a file. -/
theorem fileCut_iff {t : Text} {ls : List Text} : FileCut t ls ↔ ls = fileLines t := by
  refine ⟨fun h => ?_, fun h => h ▸ fileCut_fileLines t⟩
  induction ls generalizing t with
  | nil =>
      obtain rfl : [] = t := h.flatten
      rfl
  | cons l ls ih =>
      obtain ⟨hhead, htail⟩ := List.isChain_cons.mp h.unparted
      obtain ⟨hl, hls⟩ := List.forall_mem_cons.mp h.nonempty
      have hdrop {m : Text} (hm : m ∈ l :: ls.dropLast) (hne : ls ≠ []) :
          m ∈ (l :: ls).dropLast := by
        rwa [List.dropLast_cons_of_ne_nil hne]
      have hrest : FileCut ls.flatten ls := by
        refine ⟨rfl, hls, fun m hm => h.line m (by simp [hm]), fun m hm => h.ended m ?_, htail⟩
        exact hdrop (by simp [hm]) (by rintro rfl; simp at hm)
      obtain ⟨body, br, rfl, hbody, hbr⟩ := h.line l (by simp)
      rw [← h.flatten, List.flatten_cons, List.append_assoc]
      by_cases hne : br = []
      · -- A line without a break at its end is the last one.
        subst hne
        rw [List.append_nil] at hl
        obtain rfl : ls = [] := by
          by_contra hmore
          obtain ⟨x, hx, hbreak⟩ := h.ended _ (hdrop List.mem_cons_self hmore)
          rw [List.append_nil] at hx
          rw [hbody x (List.mem_of_getLast? hx)] at hbreak
          cases hbreak
        rw [fileLines, linesFrom_body rfl hbody]
        simp [linesFrom_nil, hl]
      · rw [fileLines_ended hbody hbr hne, ← ih hrest]
        intro hlast hfeed
        cases ls with
        | nil => simp at hfeed
        | cons m ls =>
            rw [List.flatten_cons, List.head?_append_of_ne_nil m (hls m (by simp))] at hfeed
            refine hhead m rfl ?_ hfeed
            rwa [List.getLast?_append_of_ne_nil _ hne]

/-! ## Breaks of a file -/

theorem unifyBreaks_eq_self {s : Text} (h : '\r' ∉ s) : unifyBreaks s = s := by
  induction s with
  | nil => rfl
  | cons c s ih =>
      rw [List.mem_cons, not_or] at h
      rw [unifyBreaks, ih h.2, if_neg (by simpa using Ne.symm h.1)]
      exact fun t heq _ => h.1 heq.symm

end ProcCatalog.Text
