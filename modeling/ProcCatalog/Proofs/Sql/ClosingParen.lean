import ProcCatalog.Proofs.Sql.Enclosed
import ProcCatalog.Proofs.Sql.Rejoined

/-!
# Parentheses and the texts between them

Inside of parentheses, the walk to the closing one goes through the same regions and depths as
splitting does. It passes balanced texts, and what it finds encloses a text that is not split.
-/

namespace ProcCatalog.Sql

variable {region : Region} {c : Char} {depth index : Nat} {s t : Text}

/-! ## One step -/

def Ends (region : Region) (depth : Nat) (c : Char) : Prop :=
  region = .code ∧ c = ')' ∧ depth = 1

instance : Decidable (Ends region depth c) := inferInstanceAs (Decidable (_ ∧ _ ∧ _))

/-- Where it does not end, the walk is as deep behind a character as splitting is. -/
theorem closingFrom_succ :
    closingFrom region ((depth + 1 : Nat) : Int) index (c :: s) =
      if Ends region (depth + 1) c then some index
      else
        closingFrom (region.next c s)
          ((if region = .code then deepen (depth + 1) c else depth + 1 : Nat) : Int)
          (index + 1) s := by
  have hends : (region = .code ∧ c = ')' ∧ ((depth + 1 : Nat) : Int) = 1) ↔
      Ends region (depth + 1) c := by
    rw [Ends]
    norm_cast
  rw [closingFrom]
  by_cases h : Ends region (depth + 1) c
  · rw [if_pos (hends.mpr h), if_pos h]
  · rw [if_neg (mt hends.mp h), if_neg h]
    congr 1
    rw [deepen]
    split_ifs <;> omega

/-- There the walk is still inside of parentheses. -/
theorem exists_depth (h : ¬ Ends region (depth + 1) c) :
    ∃ deeper, (if region = .code then deepen (depth + 1) c else depth + 1) = deeper + 1 := by
  refine Nat.exists_eq_succ_of_ne_zero ?_
  rw [deepen]
  split_ifs with hregion hopen hclose
  · omega
  · rintro hdepth
    exact h ⟨hregion, hclose, by omega⟩
  · omega
  · omega

/-- A character that is no parenthesis, or means nothing where it stands, leaves the depth. -/
theorem closingFrom_plain (h : region = .code → c ≠ '(' ∧ c ≠ ')') :
    closingFrom region ((depth + 1 : Nat) : Int) index (c :: s) =
      closingFrom (region.next c s) ((depth + 1 : Nat) : Int) (index + 1) s := by
  rw [closingFrom_succ, if_neg fun hends => (h hends.1).2 hends.2.1]
  congr 2
  split_ifs with hregion
  · simp [deepen, h hregion]
  · rfl

theorem closingFrom_open :
    closingFrom .code ((depth + 1 : Nat) : Int) index ('(' :: s) =
      closingFrom .code ((depth + 2 : Nat) : Int) (index + 1) s := by
  rw [closingFrom_succ, if_neg fun hends => absurd hends.2.1 (by decide)]
  rfl

theorem closingFrom_close :
    closingFrom .code ((depth + 2 : Nat) : Int) index (')' :: s) =
      closingFrom .code ((depth + 1 : Nat) : Int) (index + 1) s := by
  rw [closingFrom_succ, if_neg fun hends => absurd hends.2.2 (by omega)]
  simp [deepen, Region.next, quoteMark]

/-! ## Balanced texts -/

/-- The walk passes the text inside of parentheses, however many are open. -/
def Passed (s : Text) : Prop :=
  ∀ (depth index : Nat) (rest : Text),
    closingFrom .code ((depth + 1 : Nat) : Int) index (s ++ rest) =
      closingFrom .code ((depth + 1 : Nat) : Int) (index + s.length) rest

private theorem closingFrom_doubled (content rest : Text) (depth index : Nat) :
    closingFrom .literal ((depth + 1 : Nat) : Int) index (doubled content ++ quoteMark :: rest) =
      closingFrom .code ((depth + 1 : Nat) : Int) (index + (doubled content ++ [quoteMark]).length)
        rest := by
  induction content generalizing index with
  | nil => exact closingFrom_plain (by simp)
  | cons c content ih =>
      by_cases hc : c = quoteMark
      · subst hc
        rw [doubled_quote, List.cons_append, List.cons_append, closingFrom_plain (by simp),
          Region.next, if_pos rfl, closingFrom_plain (by decide), Region.next, if_pos rfl, ih]
        simp only [List.length_append, List.length_cons, Nat.add_assoc, Nat.add_comm,
          Nat.add_left_comm]
      · rw [doubled_cons hc, List.cons_append, closingFrom_plain (by simp), Region.next, if_neg hc,
          ih]
        simp only [List.length_append, List.length_cons, Nat.add_assoc, Nat.add_comm,
          Nat.add_left_comm]

private theorem closingFrom_bracketed {content : Text} (h : ∀ c ∈ content, c ≠ ']') (rest : Text)
    (depth index : Nat) :
    closingFrom .bracketed ((depth + 1 : Nat) : Int) index (content ++ ']' :: rest) =
      closingFrom .code ((depth + 1 : Nat) : Int) (index + (content ++ [']']).length) rest := by
  induction content generalizing index with
  | nil => exact closingFrom_plain (by simp)
  | cons c content ih =>
      obtain ⟨hc, hcontent⟩ := List.forall_mem_cons.mp h
      rw [List.cons_append, closingFrom_plain (by simp), Region.next, if_neg hc, ih hcontent]
      simp only [List.length_append, List.length_cons, Nat.add_comm, Nat.add_left_comm]

namespace Passed

theorem nil : Passed [] := fun _ _ _ => rfl

theorem append (hs : Passed s) (ht : Passed t) : Passed (s ++ t) := by
  intro depth index rest
  rw [List.append_assoc, hs, ht, List.length_append, Nat.add_assoc]

theorem of_isOrdinary (h : isOrdinary c = true) : Passed [c] := by
  simp only [isOrdinary, Bool.and_eq_true, bne_iff_ne] at h
  obtain ⟨⟨⟨⟨hquote, hbracket⟩, -⟩, hopen⟩, hclose⟩ := h
  intro depth index rest
  rw [List.singleton_append, closingFrom_plain fun _ => ⟨hopen, hclose⟩]
  simp [Region.next, hquote, hbracket]

theorem literal (content : Text) : Passed (literal content) := by
  intro depth index rest
  rw [Sql.literal, List.cons_append, List.append_assoc, List.singleton_append,
    closingFrom_plain (by decide), Region.next, if_pos rfl, closingFrom_doubled, List.length_cons,
    Nat.add_assoc, Nat.add_comm 1]

theorem bracketed {content : Text} (h : ∀ c ∈ content, c ≠ ']') :
    Passed ('[' :: (content ++ [']'])) := by
  intro depth index rest
  have hopen : Region.code.next '[' (content ++ ']' :: rest) = .bracketed := by
    simp [Region.next, quoteMark]
  rw [List.cons_append, List.append_assoc, List.singleton_append, closingFrom_plain (by decide),
    hopen, closingFrom_bracketed h, List.length_cons, Nat.add_assoc, Nat.add_comm 1]

theorem enclosed (h : Passed s) : Passed ('(' :: (s ++ [')'])) := by
  intro depth index rest
  rw [List.cons_append, List.append_assoc, List.singleton_append, closingFrom_open, h,
    closingFrom_close]
  simp only [List.length_append, List.length_cons, List.length_nil, Nat.add_comm,
    Nat.add_left_comm]

end Passed

theorem Balanced.passed {commas : Bool} (h : Balanced commas s) : Passed s := by
  induction h with
  | nil => exact .nil
  | char hc _ _ ih => exact (Passed.of_isOrdinary hc).append ih
  | literal content _ ih => exact (Passed.literal content).append ih
  | bracketed hcontent _ ih => exact (Passed.bracketed hcontent).append ih
  | parens _ _ ihw ihs => exact ihw.enclosed.append ihs

theorem closingFrom_first :
    closingFrom .code 0 index ('(' :: s) =
      closingFrom .code ((0 + 1 : Nat) : Int) (index + 1) s := by
  simp [closingFrom, Region.next, quoteMark]

/-- A balanced text in parentheses is closed at its end, whatever stands on either side. -/
theorem closingParen?_of_balanced {commas : Bool} {w : Text} (hw : Balanced commas w)
    (before behind : Text) :
    closingParen? (before ++ '(' :: (w ++ ')' :: behind)) before.length =
      some (before.length + 1 + w.length) := by
  rw [closingParen?, List.drop_left' rfl, closingFrom_first, hw.passed, closingFrom_succ,
    if_pos ⟨rfl, rfl, rfl⟩]

/-! ## From a parenthesis to the one that closes it -/

namespace Crosses

variable {behind behind' : Text} {depth' : Nat}

/-- A walk that leaves brackets comes past their end. -/
theorem bracket_mem (h : Crosses behind .bracketed depth s .code depth') : ']' ∈ s := by
  generalize hregion : Region.bracketed = region at h
  generalize hend : Region.code = region' at h
  induction h with
  | nil =>
      subst hregion
      cases hend
  | @cons _ _ _ _ c s _ _ ih =>
      subst hregion
      by_cases hc : c = ']'
      · exact hc ▸ List.mem_cons_self
      · exact List.mem_cons_of_mem _ (ih (by rw [Region.next, if_neg hc]) hend)

/-- Where the way through a text ends outside of brackets, those that are opened in it are closed
in it, so it is the same without the brackets that stand behind it. -/
theorem congr_of_code (h : Crosses behind region depth s .code depth')
    (hbehind : ']' ∈ behind' → ']' ∈ behind) : Crosses behind' region depth s .code depth' := by
  generalize hend : Region.code = region' at h
  induction h with
  | nil => exact .nil
  | @cons region region' depth depth' c s hseparates hs ih =>
      subst hend
      have hnext : region.next c (s ++ behind) = region.next c (s ++ behind') := by
        by_cases hmem : ']' ∈ s
        · exact Region.next_congr (by simp [hmem]) c
        · cases region with
          | literal | bracketed => rfl
          | code =>
              have hopen : c = '[' → ']' ∉ behind := by
                rintro rfl hclosed
                rw [Region.next, if_neg (by decide), if_pos (by simp [hclosed])] at hs
                exact hmem hs.bracket_mem
              by_cases hc : c = '['
              · simp [Region.next, hmem, hopen hc, mt hbehind (hopen hc)]
              · simp [Region.next, hc]
      exact .cons hseparates (hnext ▸ ih rfl)

end Crosses

/-- The walk to the closing parenthesis crosses what stands in front of it, and nothing separates
there. -/
theorem exists_crosses_of_closingFrom {j : Nat}
    (h : closingFrom region ((depth + 1 : Nat) : Int) index s = some j) :
    ∃ u behind, s = u ++ ')' :: behind ∧ j = index + u.length ∧
      Crosses (')' :: behind) region (depth + 1) u .code 1 := by
  induction s generalizing region depth index with
  | nil => cases h
  | cons c s ih =>
      rw [closingFrom_succ] at h
      split at h
      · rename_i hends
        obtain ⟨rfl, rfl, hdepth⟩ := hends
        obtain rfl : depth = 0 := Nat.succ_inj.mp hdepth
        exact ⟨[], s, rfl, (Option.some.inj h).symm, .nil⟩
      · rename_i hends
        obtain ⟨deeper, hdeeper⟩ := exists_depth hends
        rw [hdeeper] at h
        obtain ⟨u, behind, rfl, rfl, hu⟩ := ih h
        refine ⟨c :: u, behind, rfl, by rw [List.length_cons, Nat.add_right_comm, Nat.add_assoc],
          .cons (by simp [separates]) ?_⟩
        rwa [hdeeper]

/-- What stands between a parenthesis and the one that closes it is not split there. -/
theorem exists_of_closingParen? {i j : Nat} (hopen : s[i]? = some '(')
    (h : closingParen? s i = some j) :
    ∃ u behind, s.drop i = '(' :: (u ++ ')' :: behind) ∧ j = i + 1 + u.length ∧
      splitTopLevel comma ('(' :: (u ++ [')'])) = ['(' :: (u ++ [')'])] := by
  obtain ⟨hi, hopen⟩ := List.getElem?_eq_some_iff.mp hopen
  rw [closingParen?, List.drop_eq_getElem_cons hi, hopen, closingFrom_first] at h
  obtain ⟨u, behind, hcut, rfl, hu⟩ := exists_crosses_of_closingFrom h
  refine ⟨u, behind, by rw [List.drop_eq_getElem_cons hi, hopen, hcut], rfl, ?_⟩
  have hinside : Crosses [')'] .code 1 u .code 1 := hu.congr_of_code (by simp)
  rw [splitTopLevel, piecesFrom_open, hinside.piecesFrom ['('], piecesFrom_close, piecesFrom]
  simp [trim_enclosed]

def between (s : Text) (i j : Nat) : Text := (s.drop i).take (j + 1 - i)

/-- The parenthesis that closes a balanced text is found. Whatever is found closes a text that is
one piece, so no comma in it separates. -/
theorem closing_found_and_unsplit :
    (∀ before w behind : Text, Balanced true w →
      closingParen? (before ++ '(' :: (w ++ ')' :: behind)) before.length =
        some (before.length + 1 + w.length)) ∧
    ∀ (s : Text) (i j : Nat), s[i]? = some '(' → closingParen? s i = some j →
      i < j ∧ s[j]? = some ')' ∧ splitTopLevel comma (between s i j) = [between s i j] := by
  refine ⟨fun before w behind hw => closingParen?_of_balanced hw before behind, ?_⟩
  intro s i j hopen h
  obtain ⟨u, behind, hcut, rfl, hpiece⟩ := exists_of_closingParen? hopen h
  have hbetween : between s i (i + 1 + u.length) = '(' :: (u ++ [')']) := by
    have hfront : '(' :: (u ++ ')' :: behind) = '(' :: (u ++ [')']) ++ behind := by simp
    rw [between, hcut, hfront, List.take_left']
    simp only [List.length_cons, List.length_append, List.length_nil]
    omega
  refine ⟨by omega, ?_, by rw [hbetween, hpiece]⟩
  rw [Nat.add_assoc, ← List.getElem?_drop, hcut, Nat.add_comm, List.getElem?_cons_succ,
    List.getElem?_append_right le_rfl, Nat.sub_self]
  rfl

/-- Parentheses in parentheses, in a literal and in brackets, with a quote and a bracket open on
either side. -/
theorem closing_found_and_unsplit_among_marks :
    Balanced true "a decimal(18,2) = ')', [b)] int".toList ∧
    closingParen? "[x' (a decimal(18,2) = ')', [b)] int) AS [".toList 4 = some 36 ∧
    "[x' (a decimal(18,2) = ')', [b)] int) AS [".toList[4]? = some '(' ∧
    "[x' (a decimal(18,2) = ')', [b)] int) AS [".toList[36]? = some ')' ∧
    splitTopLevel comma "(a decimal(18,2) = ')', [b)] int)".toList =
      ["(a decimal(18,2) = ')', [b)] int)".toList] := by
  have hbracketed : Balanced true "[b)] int".toList :=
    @Balanced.bracketed true "b)".toList " int".toList (by simp)
      (.chars (u := " int".toList) rfl .nil)
  have hliteral : Balanced true "')', [b)] int".toList :=
    .literal ")".toList (.chars (u := ", ".toList) rfl hbracketed)
  have hw : Balanced true "a decimal(18,2) = ')', [b)] int".toList :=
    .chars (u := "a decimal".toList) rfl (.parens (.chars (u := "18,2".toList) rfl .nil)
      (.chars (u := " = ".toList) rfl hliteral))
  have hfound := closing_found_and_unsplit.1 "[x' ".toList _ " AS [".toList hw
  obtain ⟨-, hclose, hpiece⟩ := closing_found_and_unsplit.2 _ 4 36 rfl hfound
  exact ⟨hw, hfound, rfl, hclose, hpiece⟩

end ProcCatalog.Sql
