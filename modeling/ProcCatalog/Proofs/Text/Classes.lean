import ProcCatalog.Text.Blank
import ProcCatalog.Text.Fold
import ProcCatalog.Text.Lower
import Mathlib

/-!
# Blanks, words and trimmed texts

No blank is a word character, and a letter is a word character in either case. Trimming takes the
blanks from both ends of a text and nothing else; a text without blanks is collapsed to itself.
ASCII texts are written in small letters one by one.
-/

namespace ProcCatalog.Text

/-! ## Character classes -/

private theorem inRanges_blanks :
    ∀ n ∈ [0x85, 0xa0, 0x1680, 0x2028, 0x2029, 0x202f, 0x205f, 0x3000] ++
        (List.range 11).map (0x2000 + ·), inRanges wordRanges n = false := by
  decide +kernel

theorem isWord_eq_false_of_isBlank {c : Char} (h : isBlank c = true) : isWord c = false := by
  simp only [isBlank, Bool.or_eq_true, Bool.and_eq_true, decide_eq_true_eq, beq_iff_eq] at h
  by_cases hc : c.toNat < 128
  · have hline : c ≠ '_' := by
      rintro rfl
      simp at h
    simp only [isWord, hc, if_true, isAsciiLetter, isAsciiUpper, isAsciiLower, isAsciiDigit,
      Bool.or_eq_false_iff, Bool.and_eq_false_iff, decide_eq_false_iff_not,
      beq_eq_false_iff_ne]
    refine ⟨⟨⟨?_, ?_⟩, ?_⟩, hline⟩ <;> omega
  · simp only [isWord, hc, if_false]
    apply inRanges_blanks
    by_cases hquad : 0x2000 ≤ c.toNat ∧ c.toNat ≤ 0x200a
    · refine List.mem_append_right _ (List.mem_map.mpr ⟨c.toNat - 0x2000, ?_, ?_⟩)
      · simp
        omega
      · omega
    · apply List.mem_append_left
      simp only [List.mem_cons, List.not_mem_nil, or_false]
      omega

theorem isBlank_eq_false_of_isWord {c : Char} (h : isWord c = true) : isBlank c = false := by
  cases hc : isBlank c with
  | false => rfl
  | true => simp [isWord_eq_false_of_isBlank hc] at h

theorem any_isWord_ends {w : Text} (hne : w ≠ []) (h : ∀ x ∈ w, isWord x = true) :
    w.head?.any isWord = true ∧ w.getLast?.any isWord = true := by
  constructor
  · obtain ⟨x, w, rfl⟩ := List.exists_cons_of_ne_nil hne
    exact h x List.mem_cons_self
  · rw [List.getLast?_eq_getLast_of_ne_nil hne]
    exact h _ (List.getLast_mem hne)

theorem isWord_foldCase (c : Char) : isWord (foldCase c) = isWord c := by
  by_cases hupper : isAsciiUpper c = true
  · have hrange : 65 ≤ c.toNat ∧ c.toNat ≤ 90 := by
      simpa [isAsciiUpper] using hupper
    have hlower : (Char.ofNat (c.toNat + 32)).toNat = c.toNat + 32 := by
      rw [Char.toNat_ofNat, if_pos]
      exact .inl (by omega)
    rw [foldCase, if_pos hupper]
    simp only [isWord, hlower, isAsciiLetter, isAsciiUpper, isAsciiLower]
    simp [hrange.1, hrange.2, show c.toNat < 128 by omega, show c.toNat + 32 < 128 by omega]
  · rw [foldCase, if_neg hupper]
    have hspecial : ∀ n ∈ [0x17f, 0x212a, 0x130, 0x131], inRanges wordRanges n = true := by
      decide +kernel
    have hword : ∀ n ∈ [0x17f, 0x212a, 0x130, 0x131], c.toNat = n → isWord c = true := by
      intro n hn hc
      have hlarge : ¬ n < 128 := by
        simp only [List.mem_cons, List.not_mem_nil, or_false] at hn
        omega
      rw [isWord, hc, if_neg hlarge, hspecial n hn]
    split
    · rename_i hc
      rw [hword 0x17f (by simp) hc]
      rfl
    · split
      · rename_i hc
        rw [hword 0x212a (by simp) hc]
        rfl
      · split
        · rename_i hc
          simp only [Bool.or_eq_true, decide_eq_true_eq] at hc
          rcases hc with hc | hc
          · rw [hword 0x130 (by simp) hc]
            rfl
          · rw [hword 0x131 (by simp) hc]
            rfl
        · rfl

theorem isWord_eq_of_sameLetter {a c : Char} (h : sameLetter a c = true) :
    isWord c = isWord a := by
  have hfold : foldCase a = foldCase c := by
    simpa [sameLetter] using h
  rw [← isWord_foldCase c, ← hfold, isWord_foldCase]

@[simp] theorem isBlank_space : isBlank ' ' = true := rfl

@[simp] theorem isBlank_tab : isBlank '\t' = true := rfl

@[simp] theorem isBlank_lineFeed : isBlank '\n' = true := rfl

@[simp] theorem isBlank_return : isBlank '\r' = true := rfl

/-! ## Trimming -/

theorem trimEndWith_append {α : Type} {drop : α → Bool} {s t : List α}
    (hs : ∀ x ∈ s.getLast?, drop x = false) (ht : ∀ x ∈ t, drop x = true) :
    trimEndWith drop (s ++ t) = s := by
  rw [trimEndWith, List.reverse_append, List.dropWhile_append_of_pos (by simpa using ht)]
  rw [← List.head?_reverse] at hs
  rw [← List.reverse_reverse s]
  generalize s.reverse = r at hs
  cases r with
  | nil => rfl
  | cons x r => simp [hs x rfl]

theorem exists_trimEndWith {α : Type} (drop : α → Bool) (s : List α) :
    ∃ t, s = trimEndWith drop s ++ t ∧ ∀ x ∈ t, drop x = true := by
  refine ⟨(s.reverse.takeWhile drop).reverse, ?_, ?_⟩
  · rw [trimEndWith, ← List.reverse_append, List.takeWhile_append_dropWhile, List.reverse_reverse]
  · intro x hx
    exact List.mem_takeWhile_imp (List.mem_reverse.mp hx)

theorem exists_trimWith {α : Type} (drop : α → Bool) (s : List α) :
    ∃ u v, s = u ++ (trimWith drop s ++ v) ∧ (∀ x ∈ u, drop x = true) ∧
      ∀ x ∈ v, drop x = true := by
  obtain ⟨v, htrim, hv⟩ := exists_trimEndWith drop (s.dropWhile drop)
  refine ⟨s.takeWhile drop, v, ?_, fun x hx => List.mem_takeWhile_imp hx, hv⟩
  conv_lhs => rw [← List.takeWhile_append_dropWhile (p := drop) (l := s), htrim]
  rfl

theorem trimWith_append {α : Type} {drop : α → Bool} {u s v : List α}
    (hu : ∀ x ∈ u, drop x = true) (hs : ∀ x ∈ s, drop x = false) (hv : ∀ x ∈ v, drop x = true) :
    trimWith drop (u ++ (s ++ v)) = s := by
  rw [trimWith, List.dropWhile_append_of_pos hu]
  cases s with
  | nil => rw [List.nil_append, List.dropWhile_eq_nil_iff.mpr hv, trimEndWith, List.reverse_nil,
      List.dropWhile_nil, List.reverse_nil]
  | cons x s =>
      rw [List.cons_append, List.dropWhile_cons_of_neg (by simp [hs x]), ← List.cons_append]
      exact trimEndWith_append (fun y hy => hs y (List.mem_of_getLast? hy)) hv

theorem mem_of_mem_trimWith {α : Type} {drop : α → Bool} {s : List α} {x : α}
    (h : x ∈ trimWith drop s) : x ∈ s := by
  obtain ⟨u, v, hs, -, -⟩ := exists_trimWith drop s
  rw [hs]
  simp [h]

/-- Whatever is not to be dropped stays. -/
theorem filter_trimWith {α : Type} (drop : α → Bool) (s : List α) :
    ((trimWith drop s).filter fun x => !drop x) = s.filter fun x => !drop x := by
  obtain ⟨u, v, hs, hu, hv⟩ := exists_trimWith drop s
  have hnil {t : List α} (ht : ∀ x ∈ t, drop x = true) : (t.filter fun x => !drop x) = [] :=
    List.filter_eq_nil_iff.mpr fun x hx => by simp [ht x hx]
  conv_rhs => rw [hs, List.filter_append, List.filter_append, hnil hu, hnil hv]
  rw [List.append_nil, List.nil_append]

theorem getLast?_trimEndWith {α : Type} (drop : α → Bool) (s : List α) :
    ∀ x ∈ (trimEndWith drop s).getLast?, drop x = false := by
  intro x hx
  rw [trimEndWith, List.getLast?_reverse, Option.mem_def] at hx
  have hhead := List.head?_dropWhile_not drop s.reverse
  rwa [hx] at hhead

theorem trim_blanks_append {t : Text} (ht : ∀ x ∈ t, isBlank x = true) (s : Text) :
    trim (t ++ s) = trim s := by
  rw [trim, trim, trimWith, trimWith, List.dropWhile_append_of_pos ht]

theorem trim_append_blanks (s : Text) {t : Text} (ht : ∀ x ∈ t, isBlank x = true) :
    trim (s ++ t) = trim s := by
  have hnil : t.dropWhile isBlank = [] := List.dropWhile_eq_nil_iff.mpr ht
  rw [trim, trim, trimWith, trimWith, List.dropWhile_append]
  split
  · rename_i hs
    rw [hnil, List.isEmpty_iff.mp hs]
  · rw [trimEndWith, trimEndWith, List.reverse_append,
      List.dropWhile_append_of_pos (by simpa using ht)]

theorem trim_eq_self {s : Text} (hhead : ∀ x ∈ s.head?, isBlank x = false)
    (hlast : ∀ x ∈ s.getLast?, isBlank x = false) : trim s = s := by
  have hstart : s.dropWhile isBlank = s := by
    cases s with
    | nil => rfl
    | cons x s => simp [hhead x rfl]
  have hend : s.reverse.dropWhile isBlank = s.reverse := by
    rw [← List.head?_reverse] at hlast
    generalize s.reverse = t at hlast
    cases t with
    | nil => rfl
    | cons x t => simp [hlast x rfl]
  rw [trim, trimWith, hstart, trimEndWith, hend, List.reverse_reverse]

theorem forall_head?_append {p : Char → Prop} {u : Text} (v : Text) (hne : u ≠ [])
    (h : ∀ x ∈ u, p x) : ∀ x ∈ (u ++ v).head?, p x := by
  intro x hx
  rw [List.head?_append_of_ne_nil _ hne] at hx
  exact h x (List.mem_of_head? hx)

theorem exists_trimStart (s : Text) :
    ∃ u, s = u ++ trimStart s ∧ (∀ x ∈ u, isBlank x = true) ∧
      ∀ x ∈ (trimStart s).head?, isBlank x = false := by
  refine ⟨s.takeWhile isBlank, List.takeWhile_append_dropWhile.symm,
    fun x hx => List.mem_takeWhile_imp hx, fun x hx => ?_⟩
  have hhead := List.head?_dropWhile_not isBlank s
  rw [trimStart, Option.mem_def] at hx
  rwa [hx] at hhead

theorem exists_trim (s : Text) :
    ∃ u v, s = u ++ (trim s ++ v) ∧ (∀ x ∈ u, isBlank x = true) ∧ ∀ x ∈ v, isBlank x = true :=
  exists_trimWith isBlank s

theorem head?_trim (s : Text) : ∀ x ∈ (trim s).head?, isBlank x = false := by
  obtain ⟨-, -, -, hhead⟩ := exists_trimStart s
  obtain ⟨v, htrim, -⟩ := exists_trimEndWith isBlank (trimStart s)
  intro x hx
  obtain ⟨u, hu⟩ := List.head?_eq_some_iff.mp hx
  refine hhead x ?_
  rw [htrim, show trimEndWith isBlank (trimStart s) = x :: u from hu]
  rfl

theorem getLast?_trim (s : Text) : ∀ x ∈ (trim s).getLast?, isBlank x = false :=
  getLast?_trimEndWith isBlank _

theorem trim_eq_nil_iff {s : Text} : trim s = [] ↔ ∀ c ∈ s, isBlank c = true := by
  constructor
  · intro hnil
    obtain ⟨u, v, hs, hu, hv⟩ := exists_trim s
    rw [hnil, List.nil_append] at hs
    rw [hs]
    exact List.forall_mem_append.mpr ⟨hu, hv⟩
  · intro hs
    rw [← List.append_nil s, trim_blanks_append hs]
    rfl

theorem trim_trim (s : Text) : trim (trim s) = trim s := by
  obtain ⟨u, v, hs, hu, hv⟩ := exists_trim s
  conv_rhs => rw [hs, trim_blanks_append hu, trim_append_blanks _ hv]

theorem takeWhile_append_of_head? {accepts : Char → Bool} {u v : Text}
    (hu : ∀ x ∈ u, accepts x = true) (hv : ∀ x ∈ v.head?, accepts x = false) :
    (u ++ v).takeWhile accepts = u := by
  rw [List.takeWhile_append_of_pos hu]
  cases v with
  | nil => simp
  | cons x v => rw [List.takeWhile_cons_of_neg (by simp [hv x rfl]), List.append_nil]

theorem dropWhile_append_of_head? {accepts : Char → Bool} {u v : Text}
    (hu : ∀ x ∈ u, accepts x = true) (hv : ∀ x ∈ v.head?, accepts x = false) :
    (u ++ v).dropWhile accepts = v := by
  rw [List.dropWhile_append_of_pos hu]
  cases v with
  | nil => rfl
  | cons x v => rw [List.dropWhile_cons_of_neg (by simp [hv x rfl])]

/-- A run of one class ends where the next character is not of it. -/
theorem append_inj_of_head? {accepts : Char → Bool} {u u' v v' : Text}
    (hu : ∀ x ∈ u, accepts x = true) (hv : ∀ x ∈ v.head?, accepts x = false)
    (hu' : ∀ x ∈ u', accepts x = true) (hv' : ∀ x ∈ v'.head?, accepts x = false)
    (h : u ++ v = u' ++ v') : u = u' ∧ v = v' := by
  have hruns := congrArg (List.takeWhile accepts) h
  rw [takeWhile_append_of_head? hu hv, takeWhile_append_of_head? hu' hv'] at hruns
  subst hruns
  exact ⟨rfl, List.append_cancel_left h⟩

/-- The same from the other end. -/
theorem append_inj_of_getLast? {accepts : Char → Bool} {u u' v v' : Text}
    (hu : ∀ x ∈ u, accepts x = true) (hv : ∀ x ∈ v.getLast?, accepts x = false)
    (hu' : ∀ x ∈ u', accepts x = true) (hv' : ∀ x ∈ v'.getLast?, accepts x = false)
    (h : v ++ u = v' ++ u') : v = v' ∧ u = u' := by
  have hreverse := congrArg List.reverse h
  rw [List.reverse_append, List.reverse_append] at hreverse
  obtain ⟨hrun, hrest⟩ := append_inj_of_head? (by simpa using hu) (by simpa using hv)
    (by simpa using hu') (by simpa using hv') hreverse
  exact ⟨List.reverse_injective hrest, List.reverse_injective hrun⟩

theorem trimStart_append {u v : Text} (hu : ∀ x ∈ u, isBlank x = true)
    (hv : ∀ x ∈ v.head?, isBlank x = false) : trimStart (u ++ v) = v :=
  dropWhile_append_of_head? hu hv

def notBlank (c : Char) : Bool := !isBlank c

theorem takeWhile_notBlank_append {u v : Text} (hu : ∀ x ∈ u, isBlank x = false)
    (hv : ∀ x ∈ v.head?, isBlank x = true) : (u ++ v).takeWhile notBlank = u :=
  takeWhile_append_of_head? (by simpa [notBlank] using hu) (by simpa [notBlank] using hv)

theorem dropWhile_notBlank_append {u v : Text} (hu : ∀ x ∈ u, isBlank x = false)
    (hv : ∀ x ∈ v.head?, isBlank x = true) : (u ++ v).dropWhile notBlank = v :=
  dropWhile_append_of_head? (by simpa [notBlank] using hu) (by simpa [notBlank] using hv)

theorem forall_getLast?_append {p : Char → Prop} {s t : Text} (hs : ∀ x ∈ s.getLast?, p x)
    (ht : ∀ x ∈ t.getLast?, p x) : ∀ x ∈ (s ++ t).getLast?, p x := by
  by_cases hne : t = []
  · rwa [hne, List.append_nil]
  · rwa [List.getLast?_append_of_ne_nil _ hne]

/-- No blank stands at the end of the text. -/
def Solid (s : Text) : Prop := ∀ x ∈ s.getLast?, isBlank x = false

namespace Solid

theorem of_forall {s : Text} (h : ∀ x ∈ s, isBlank x = false) : Solid s :=
  fun x hx => h x (List.mem_of_getLast? hx)

theorem append_of_ne_nil (s : Text) {t : Text} (ht : Solid t) (hne : t ≠ []) : Solid (s ++ t) := by
  intro x hx
  rw [List.getLast?_append_of_ne_nil _ hne] at hx
  exact ht x hx

theorem append {s t : Text} (hs : Solid s) (ht : Solid t) : Solid (s ++ t) :=
  forall_getLast?_append hs ht

theorem trim_eq_self {x : Char} {s : Text} (hx : isBlank x = false) (h : Solid (x :: s)) :
    trim (x :: s) = x :: s := by
  refine Text.trim_eq_self ?_ h
  rintro y hy
  obtain rfl : x = y := by simpa using hy
  exact hx

end Solid

/-! ## Texts of one class -/

/-- A text of at least one character, all of one class. -/
structure Token (accepts : Char → Bool) where
  text : Text
  nonempty : text ≠ []
  accepted : ∀ x ∈ text, accepts x = true

namespace Token

variable {accepts : Char → Bool}

def ofAll (s : Text) (hne : s.isEmpty = false) (h : s.all accepts = true) : Token accepts :=
  ⟨s, List.isEmpty_eq_false_iff.mp hne, List.all_eq_true.mp h⟩

theorem exists_cons (t : Token accepts) : ∃ x s, t.text = x :: s ∧ accepts x = true := by
  cases h : t.text with
  | nil => exact absurd h t.nonempty
  | cons x s => exact ⟨x, s, rfl, t.accepted x (by simp [h])⟩

theorem forall_of (t : Token accepts) {p : Char → Prop} (h : ∀ x, accepts x = true → p x) :
    ∀ x ∈ t.text, p x := fun x hx => h x (t.accepted x hx)

end Token

/-! ## Collapsing -/

private theorem collapse_go_eq_self {s : Text} (h : ∀ x ∈ s, isBlank x = false) (inRun : Bool) :
    collapse.go inRun s = s := by
  induction s generalizing inRun with
  | nil => rfl
  | cons x s ih =>
      have hx : isBlank x = false := h x (by simp)
      simp [collapse.go, hx, ih fun y hy => h y (by simp [hy])]

theorem collapse_eq_self {s : Text} (h : ∀ x ∈ s, isBlank x = false) : collapse s = s := by
  rw [collapse, collapse_go_eq_self h]
  exact trim_eq_self (fun x hx => h x (List.mem_of_head? hx)) (Solid.of_forall h)

/-! ## Small letters -/

private theorem lowerFrom_of_ascii {t : Text} (h : ∀ x ∈ t, x.toNat < 128) (before : Text) :
    lowerFrom before t = t.map foldCase := by
  induction t generalizing before with
  | nil => rfl
  | cons x t ih =>
      obtain ⟨hx, ht⟩ := List.forall_mem_cons.mp h
      have hsmall : smallLetter x = foldCase x := by
        simp [smallLetter, hx, foldCase, show ¬ x.toNat = 0x17f by omega,
          show ¬ x.toNat = 0x212a by omega, show ¬ x.toNat = 0x130 by omega,
          show ¬ x.toNat = 0x131 by omega]
      rw [lowerFrom, if_neg (show ¬ x.toNat = 0x130 by omega),
        if_neg (show ¬ x.toNat = 0x3a3 by omega), hsmall, ih ht]
      rfl

theorem lower_of_ascii {t : Text} (h : ∀ x ∈ t, x.toNat < 128) : lower t = t.map foldCase :=
  lowerFrom_of_ascii h []

/-- An ASCII character that no other character counts as. -/
def staysAscii (c : Char) : Bool :=
  decide (c.toNat < 128) && foldCase c != 's' && foldCase c != 'k' && foldCase c != 'i'

theorem ascii_of_sameLetter {a x : Char} (h : sameLetter a x = true) (ha : staysAscii a = true) :
    x.toNat < 128 := by
  simp only [staysAscii, Bool.and_eq_true, decide_eq_true_eq, bne_iff_ne] at ha
  obtain ⟨⟨⟨ha, hs⟩, hk⟩, hi⟩ := ha
  have hfold : foldCase a = foldCase x := by
    simpa [sameLetter] using h
  by_contra hx
  have hupper : isAsciiUpper x = false := by
    simp only [isAsciiUpper, Bool.and_eq_false_iff, decide_eq_false_iff_not]
    omega
  have hself : foldCase x = x := by
    rw [hfold] at hs hk hi
    rw [foldCase, hupper, if_neg Bool.false_ne_true] at hs hk hi ⊢
    split_ifs at hs hk hi ⊢ <;> simp_all
  have hlow : (foldCase a).toNat < 128 := by
    rw [foldCase]
    split_ifs with hup
    · simp only [isAsciiUpper, Bool.and_eq_true, decide_eq_true_eq] at hup
      rw [Char.toNat_ofNat, if_pos (.inl (by omega))]
      omega
    all_goals first | decide | exact ha
  rw [hfold, hself] at hlow
  exact hx hlow

end ProcCatalog.Text
