import ProcCatalog.Proofs.Sql.Pieces

/-!
# Balanced texts

A text is balanced if each literal, each bracketed identifier and each pair of parentheses in it is
closed. A comma in parentheses does not separate, so joining balanced texts by commas is undone by
splitting.
-/

namespace ProcCatalog.Sql

/-- A character that opens or closes nothing. -/
def isOrdinary (c : Char) : Bool :=
  c != quoteMark && c != '[' && c != ']' && c != '(' && c != ')'

/-- Ordinary characters, literals, bracketed identifiers and balanced texts in parentheses. Commas
stand in parentheses, and outside of them where `commas` lets them. -/
inductive Balanced : Bool → Text → Prop
  | nil {commas : Bool} : Balanced commas []
  | char {commas : Bool} {c : Char} {s : Text} (hc : isOrdinary c = true)
      (hcomma : c = ',' → commas = true) (hs : Balanced commas s) : Balanced commas (c :: s)
  | literal {commas : Bool} {s : Text} (content : Text) (hs : Balanced commas s) :
      Balanced commas (Sql.literal content ++ s)
  | bracketed {commas : Bool} {content s : Text} (hcontent : ∀ c ∈ content, c ≠ ']')
      (hs : Balanced commas s) : Balanced commas ('[' :: (content ++ [']']) ++ s)
  | parens {commas : Bool} {w s : Text} (hw : Balanced true w) (hs : Balanced commas s) :
      Balanced commas ('(' :: (w ++ [')']) ++ s)

namespace Balanced

variable {commas : Bool} {s : Text}

theorem unsplitAt (h : Balanced commas s) (depth : Nat) (hdepth : commas = true → depth ≠ 0) :
    UnsplitAt depth s := by
  induction h generalizing depth with
  | nil => exact .nil
  | @char commas c s hc hcomma _ ih =>
      refine UnsplitAt.append (s := [c]) ?_ (ih depth hdepth)
      by_cases hsep : c = ','
      · obtain ⟨depth, rfl⟩ := Nat.exists_eq_succ_of_ne_zero (hdepth (hcomma hsep))
        exact .of_isPlain_or_comma (by simp [hsep])
      · refine .of_isPlain fun d hd => ?_
        obtain rfl := List.mem_singleton.mp hd
        simp only [isOrdinary, Bool.and_eq_true, bne_iff_ne] at hc
        simp [isPlain, hsep, hc]
  | literal content _ ih => exact (UnsplitAt.literal content).append (ih depth hdepth)
  | bracketed hcontent _ ih => exact (UnsplitAt.bracketed hcontent).append (ih depth hdepth)
  | parens _ _ ihw ihs =>
      exact (UnsplitAt.enclosed (ihw (depth + 1) fun _ => depth.succ_ne_zero)).append
        (ihs depth hdepth)

theorem unsplit (h : Balanced false s) : Unsplit s := h.unsplitAt 0 nofun

theorem chars {u : Text} (hu : u.all (fun c => isOrdinary c && (c != ',' || commas)) = true)
    (hs : Balanced commas s) : Balanced commas (u ++ s) := by
  induction u with
  | nil => exact hs
  | cons c u ih =>
      rw [List.all_cons, Bool.and_eq_true, Bool.and_eq_true] at hu
      obtain ⟨⟨hc, hcomma⟩, hu⟩ := hu
      exact .char hc (fun h => by simpa [h] using hcomma) (ih hu)

end Balanced

/-- Pieces with a comma between each two, and blanks on either side of each comma. -/
def Joined : List Text → Text → Prop
  | [], s => s = []
  | w :: ws, s => ∃ further : List (Further Text),
      further.map (·.item) = ws ∧ s = writePieces w further

theorem splitTopLevel_of_joined {pieces : List Text} {s : Text} (h : Joined pieces s)
    (hpieces : ∀ p ∈ pieces, Balanced false p ∧ Text.trim p = p ∧ p ≠ []) :
    splitTopLevel comma s = pieces := by
  cases pieces with
  | nil =>
      obtain rfl : s = [] := h
      rfl
  | cons w ws =>
      obtain ⟨further, rfl, rfl⟩ := h
      exact splitTopLevel_writePieces fun v hv => ⟨(hpieces v hv).1.unsplit, (hpieces v hv).2⟩

end ProcCatalog.Sql
