import ProcCatalog.Proofs.Signature.HeaderEnd
import ProcCatalog.Proofs.Sql.Parentheses

/-!
# The AS behind a parenthesized list

Behind the parenthesis that closes the parameter list stands the AS of the header. It is found
exactly if the first AS of the header and the body that ends its line does not stand alone on a
line: one that does is taken for the AS of the header.
-/

namespace ProcCatalog.Signature

open Pattern
open Text (Token)

variable {before : Option Char} {a u v rest s t : Text}

/-! ## AS at the end of a line, seen from in front of it -/

theorem LineEnd.exists_cons {word gap br : Text} (h : LineEnd v word gap br) :
    ∃ x w, v = x :: w ∧ Text.isWord x = true := by
  obtain ⟨x, y, hword, hx, -⟩ := exists_of_spells_as h.spells
  exact ⟨x, y :: (gap ++ br), by rw [h.text, hword]; rfl, hx⟩

theorem LineEnd.exists_concat {word gap br : Text} (h : LineEnd v word gap br) :
    ∃ w, v = w ++ ['\n'] ∧ '\n' ∉ w := by
  have hword : '\n' ∉ word := fun hmem => absurd (h.spells.isWord rfl '\n' hmem) (by decide)
  have hgap : '\n' ∉ gap := fun hmem => absurd (h.gap '\n' hmem) (by decide)
  rcases h.lineBreak with rfl | rfl
  · exact ⟨word ++ gap, by simp [h.text], by simp [hword, hgap]⟩
  · exact ⟨word ++ (gap ++ ['\r']), by simp [h.text], by simp [hword, hgap]⟩

/-- An AS that begins in front of a line feed ends its line there or earlier. -/
theorem begins_before_lineFeed {y r : Text} (hne : y ≠ []) (r' : Text)
    (h : asAtLineEnd.Begins before (y ++ '\n' :: r)) :
    asAtLineEnd.Begins before (y ++ '\n' :: r') := by
  obtain ⟨v, w, hs, hspan⟩ := h
  obtain ⟨hbefore, word, gap, br, hend⟩ := spans_asAtLineEnd_iff.mp hspan
  suffices hprefix : ∃ w', y ++ '\n' :: r' = v ++ w' by
    obtain ⟨w', hw'⟩ := hprefix
    exact ⟨v, w', hw', spans_asAtLineEnd_iff.mpr ⟨hbefore, word, gap, br, hend⟩⟩
  rcases List.append_eq_append_iff.mp hs with ⟨z, rfl, hz⟩ | ⟨z, rfl, -⟩
  · obtain ⟨w'', hlast, hnot⟩ := hend.exists_concat
    cases z with
    | nil => exact ⟨'\n' :: r', by simp⟩
    | cons x z =>
        obtain rfl : '\n' = x := (List.cons.inj hz).1
        -- the line feed behind `y` is the only one of the span, so it is the last character
        obtain rfl | ⟨z, x, rfl⟩ := List.eq_nil_or_concat z
        · exact ⟨r', by simp⟩
        · exfalso
          rw [List.concat_eq_append, ← List.cons_append, ← List.append_assoc] at hlast
          obtain ⟨rfl, -⟩ := List.append_inj' hlast rfl
          simp at hnot
  · exact ⟨z ++ '\n' :: r', by simp⟩

private theorem avoids_before_lineFeed {r : Text} (r' : Text)
    (h : asAtLineEnd.Avoids before a ('\n' :: r)) : asAtLineEnd.Avoids before a ('\n' :: r') :=
  fun x y hxy hne hbegins => h x y hxy hne (begins_before_lineFeed hne r hbegins)

/-- Of what stands in front, only the end of a word matters. -/
theorem avoids_congr (before before' : Option Char)
    (hbefore : before.any Text.isWord = before'.any Text.isWord)
    (h : asAtLineEnd.Avoids before a rest) : asAtLineEnd.Avoids before' a rest := by
  rintro x y rfl hne ⟨v, w, hs, hspan⟩
  refine h x y rfl hne ⟨v, w, hs, ?_⟩
  rw [spans_asAtLineEnd_iff] at hspan ⊢
  cases x with
  | nil => simpa [hbefore] using hspan
  | cons c x => exact hspan

/-! ## Lines with AS alone -/

/-- A line with AS alone comes before every other AS that ends its line. -/
def LoneAsFirst (s : Text) : Prop :=
  ∃ a u rest, s = a ++ (u ++ rest) ∧ asOnOwnLine.Spans (lastOr none a) u rest ∧
    asAtLineEnd.Avoids none a (u ++ rest)

private theorem exists_lineFeed_cons (h : asOnOwnLine.Spans before u rest) :
    ∃ w, u = '\n' :: w := by
  obtain ⟨indent, v, rfl, -⟩ := spans_asOnOwnLine_iff.mp h
  exact ⟨_, rfl⟩

/-- The first line with AS alone is the one that has no other line-ending AS in front of it. -/
private theorem eq_of_loneAsFirst {found : Found} {a' u' : Text}
    (hat : FoundAt asOnOwnLine none 0 (a ++ (u ++ rest)) found a' u')
    (hspan : asOnOwnLine.Spans (lastOr none a) u rest)
    (havoids : asAtLineEnd.Avoids none a (u ++ rest)) : a' = a := by
  have hle := hat.length_le rfl ⟨u, rest, rfl, hspan⟩
  obtain ⟨w, rfl⟩ := exists_lineFeed_cons hspan
  obtain ⟨indent, v, hu', hindent, word, gap, br, hend⟩ := spans_asOnOwnLine_iff.mp hat.spans
  obtain ⟨x, w', rfl, hx⟩ := hend.exists_cons
  rcases List.append_eq_append_iff.mp hat.text.symm with ⟨y, rfl, hy⟩ | ⟨y, rfl, -⟩
  · cases y with
    | nil => simp
    | cons c y =>
        exfalso
        rw [hu', List.cons_append, List.cons_append, List.cons.injEq] at hy
        obtain ⟨rfl, hy⟩ := hy
        rw [List.append_assoc] at hy
        rcases List.append_eq_append_iff.mp hy with ⟨z, rfl, hz⟩ | ⟨z, rfl, hz⟩
        · cases z with
          | nil =>
              obtain ⟨rfl, -⟩ := List.cons.inj hz
              exact absurd hx (by decide)
          | cons d z =>
              refine havoids (a' ++ '\n' :: indent) (d :: z) (by simp) (by simp) ?_
              refine ⟨x :: w', found.stop.rest, by rw [hz], ?_⟩
              exact spans_asAtLineEnd_iff.mpr ⟨closed_indent a' hindent, word, gap, br, hend⟩
        · cases z with
          | nil =>
              obtain ⟨rfl, -⟩ := List.cons.inj hz
              exact absurd hx (by decide)
          | cons d z =>
              obtain ⟨rfl, -⟩ := List.cons.inj hz
              exact absurd (hindent '\n' (by simp)) (by decide)
  · have : y = [] := by simpa using hle
    simp [this]

private theorem take_stop_of_foundAt {p : Pattern} {found : Found}
    (hat : FoundAt p none 0 s found a u) : s.take found.stop.offset = a ++ u := by
  have hstop : found.stop.offset = (a ++ u).length := by simpa using hat.stop
  rw [hat.text, ← List.append_assoc, hstop, List.take_left']
  rfl

private theorem ownLine?_of_avoids {found : Found} (hfind : asOnOwnLine.find? s = some found)
    (hat : FoundAt asOnOwnLine none 0 s found a u) (havoids : asAtLineEnd.Avoids none a u) :
    ownLine? s = some ⟨.ownLine, a.length, (a ++ u).length⟩ := by
  have htake := take_stop_of_foundAt hat
  have hstart : found.start = a.length := by simpa using hat.start
  have hstop : found.stop.offset = (a ++ u).length := by simpa using hat.stop
  have hboundary : boundaryOf .ownLine found = ⟨.ownLine, a.length, (a ++ u).length⟩ := by
    rw [boundaryOf, hstart, hstop]
  cases hearlier : asAtLineEnd.find? (a ++ u) with
  | none =>
      rw [ownLine?, hfind]
      simp only [htake, hearlier, hboundary]
  | some earlier =>
      obtain ⟨b, w, hb⟩ := find?_eq_some hearlier
      have hge : a.length ≤ b.length := by
        by_contra hlt
        rcases List.append_eq_append_iff.mp hb.text with ⟨z, rfl, -⟩ | ⟨z, rfl, hz⟩
        · simp at hlt
        · have hne : z ≠ [] := by
            rintro rfl
            simp at hlt
          exact havoids b z rfl hne ⟨w, _, hz.symm, hb.spans⟩
      have hnot : ¬ earlier.start < found.start := by
        have hb : earlier.start = b.length := by simpa using hb.start
        omega
      rw [← htake] at hearlier
      rw [ownLine?_of_find? hfind hearlier, if_neg hnot, hboundary]

private theorem ownLine?_of_not_avoids {found : Found} (hfind : asOnOwnLine.find? s = some found)
    (hat : FoundAt asOnOwnLine none 0 s found a u) (hmeets : ¬ asAtLineEnd.Avoids none a u) :
    ownLine? s = none := by
  have htake := take_stop_of_foundAt hat
  have hstart : found.start = a.length := by simpa using hat.start
  obtain ⟨x, y, rfl, hne, hbegins⟩ : ∃ x y, a = x ++ y ∧ y ≠ [] ∧
      asAtLineEnd.Begins (lastOr none x) (y ++ u) := by
    simpa [Avoids] using hmeets
  cases hearlier : asAtLineEnd.find? (x ++ y ++ u) with
  | none =>
      rw [find?_eq_none_iff] at hearlier
      exact absurd hbegins (hearlier x (y ++ u) (by simp))
  | some earlier =>
      obtain ⟨b, w, hb⟩ := find?_eq_some hearlier
      have hle := hb.length_le (List.append_assoc x y u) hbegins
      have hlt : earlier.start < found.start := by
        have hb : earlier.start = b.length := by simpa using hb.start
        have hy := List.length_pos_iff.mpr hne
        rw [hb, hstart, List.length_append]
        omega
      rw [← htake] at hearlier
      rw [ownLine?_of_find? hfind hearlier, if_pos hlt]

theorem ownLine?_of_loneAsFirst (h : LoneAsFirst s) :
    ∃ a u rest, s = a ++ (u ++ rest) ∧ asOnOwnLine.Spans (lastOr none a) u rest ∧
      ownLine? s = some ⟨.ownLine, a.length, (a ++ u).length⟩ := by
  obtain ⟨a, u, rest, rfl, hspan, havoids⟩ := h
  cases hfind : asOnOwnLine.find? (a ++ (u ++ rest)) with
  | none =>
      rw [find?_eq_none_iff] at hfind
      exact absurd ⟨u, rest, rfl, hspan⟩ (hfind a (u ++ rest) rfl)
  | some found =>
      obtain ⟨a', u', hat⟩ := find?_eq_some hfind
      obtain rfl := eq_of_loneAsFirst hat hspan havoids
      obtain ⟨w, rfl⟩ := exists_lineFeed_cons hat.spans
      refine ⟨a', '\n' :: w, found.stop.rest, hat.text, hat.spans, ?_⟩
      refine ownLine?_of_avoids hfind hat
        (avoids_before_lineFeed w (r := w ++ found.stop.rest) ?_)
      rwa [List.append_cancel_left hat.text, List.cons_append] at havoids

theorem ownLine?_eq_none (h : ¬ LoneAsFirst s) : ownLine? s = none := by
  cases hfind : asOnOwnLine.find? s with
  | none => rw [ownLine?, hfind]
  | some found =>
      obtain ⟨a, u, hat⟩ := find?_eq_some hfind
      refine ownLine?_of_not_avoids hfind hat fun havoids => h ⟨a, u, _, hat.text, hat.spans, ?_⟩
      obtain ⟨w, rfl⟩ := exists_lineFeed_cons hat.spans
      exact avoids_before_lineFeed _ havoids

theorem isSome_ownLine?_iff : (ownLine? s).isSome = true ↔ LoneAsFirst s := by
  constructor
  · intro hsome
    by_contra hlone
    simp [ownLine?_eq_none hlone] at hsome
  · intro hlone
    obtain ⟨a, u, rest, -, -, hown⟩ := ownLine?_of_loneAsFirst hlone
    simp [hown]

instance : DecidablePred LoneAsFirst := fun _ => decidable_of_iff _ isSome_ownLine?_iff

/-- A line with AS alone begins behind a part that has no line-ending AS and no blank at its
end. -/
theorem Quiet.exists_of_onOwnLine {h : Text} (hh : Quiet h)
    (hlast : ∀ x ∈ h.getLast?, Text.isBlank x = false) (hspan : asOnOwnLine.Spans before u rest)
    (htext : h ++ t = a ++ (u ++ rest)) : ∃ y, a = h ++ y ∧ t = y ++ (u ++ rest) := by
  obtain ⟨indent, v, rfl, hindent, word, gap, br, hend⟩ := spans_asOnOwnLine_iff.mp hspan
  obtain ⟨z, hz, ht⟩ := hh.exists_eq_append hend (closed_indent a hindent) (by simpa using htext)
  rcases List.append_eq_append_iff.mp hz with ⟨y, hy, hindentEq⟩ | ⟨y, rfl, rfl⟩
  · obtain rfl | ⟨y, x, rfl⟩ := List.eq_nil_or_concat y
    · have hz : '\n' :: indent = z := by simpa using hindentEq
      exact ⟨[], by simpa using hy.symm, by simp [ht, ← hz]⟩
    · have hx : Text.isBlank x = true := isBlank_indent hindent x (by simp [hindentEq])
      simp [hlast x (by simp [hy])] at hx
  · exact ⟨y, rfl, by simpa using ht⟩

/-- In front of a text, a part in which no AS ends a line and that ends with neither a word nor a
blank changes nothing. -/
theorem loneAsFirst_append_iff {h : Text} (hh : Quiet h)
    (hlast : ∀ x ∈ h.getLast?, Text.isBlank x = false) :
    LoneAsFirst (h ++ t) ↔ LoneAsFirst t := by
  have hspans {b b' : Option Char} {u rest : Text} (hspan : asOnOwnLine.Spans b u rest) :
      asOnOwnLine.Spans b' u rest :=
    spans_asOnOwnLine_iff.mpr (spans_asOnOwnLine_iff.mp hspan)
  constructor
  · rintro ⟨a, u, rest, htext, hspan, havoids⟩
    obtain ⟨y, rfl, rfl⟩ := hh.exists_of_onOwnLine hlast hspan htext
    exact ⟨y, u, rest, rfl, hspans hspan,
      avoids_congr _ none hh.closed (avoids_append.mp havoids).2⟩
  · rintro ⟨a, u, rest, rfl, hspan, havoids⟩
    exact ⟨h ++ a, u, rest, by simp, hspans hspan,
      avoids_append.mpr ⟨hh.avoids _, avoids_congr none _ hh.closed.symm havoids⟩⟩

/-! ## The list -/

def parenthesized (list : Text) : Text := '(' :: (list ++ [')'])

/-- A parameter list in parentheses and the body behind its AS. -/
structure ParenthesizedHeader (list body : Text) : Prop where
  plain : ¬ HoldsAs list
  closes : Sql.closingParen? (parenthesized list) 0 = some (list.length + 1)
  /-- A bracket that is open at the end of the list is not closed in the body. -/
  bracketed : ']' ∈ body →
    Sql.closingParen? (parenthesized list ++ [']']) 0 = some (list.length + 1)
  blank : ∃ x ∈ body.head?, Text.isBlank x = true

theorem holdsAs_of_cons {x : Char} (hx : Text.isWord x = false) (h : HoldsAs (x :: s)) :
    HoldsAs s := by
  obtain ⟨a, u, b, hs, hspells, hbefore, hrest⟩ := h
  cases a with
  | nil =>
      obtain ⟨y, z, rfl, hy, -⟩ := exists_of_spells_as hspells
      obtain ⟨rfl, -⟩ := List.cons.inj hs
      simp [hx] at hy
  | cons y a =>
      obtain ⟨rfl, rfl⟩ := List.cons.inj hs
      refine ⟨a, u, b, rfl, hspells, ?_, hrest⟩
      cases a with
      | nil => rfl
      | cons z a => simpa using hbefore

namespace ParenthesizedHeader

variable {list body : Text}

def lead (list : Text) : Text := ' ' :: parenthesized list

theorem lead_eq (list : Text) : lead list = (' ' :: '(' :: list) ++ [')'] := rfl

theorem length_lead (list : Text) : (lead list).length = list.length + 3 := by
  simp [lead_eq]

theorem quiet_lead (h : ParenthesizedHeader list body) : Quiet (lead list) := by
  rw [lead_eq]
  refine quiet_of_not_holdsAs (fun hholds => h.plain ?_) rfl
  exact holdsAs_of_cons rfl (holdsAs_of_cons rfl hholds)

def behind (body : Text) : Text := ' ' :: ("AS".toList ++ body)

theorem append_behind (s body : Text) : s ++ behind body = (s ++ " AS".toList) ++ body := by
  rw [List.append_assoc]
  rfl

theorem closingParen?_lead (h : ParenthesizedHeader list body) :
    Sql.closingParen? (lead list ++ behind body) 1 = some (list.length + 2) := by
  have hlength : list.length + 1 < 0 + (parenthesized list).length := by simp [parenthesized]
  have hmem : ']' ∈ behind body ↔ ']' ∈ body := by simp [behind]
  have hclose : Sql.closingFrom .code 0 0 (parenthesized list ++ behind body) =
      some (list.length + 1) := by
    by_cases hbody : ']' ∈ body
    · exact Sql.closingFrom_append (t := [']']) (by simp [hmem, hbody]) hlength (h.bracketed hbody)
    · refine Sql.closingFrom_append (t := []) (by simpa [hmem] using hbody) hlength ?_
      rw [List.append_nil]
      exact h.closes
  have hshift : Sql.closingFrom .code 0 (0 + 1) (parenthesized list ++ behind body) =
      (Sql.closingFrom .code 0 0 (parenthesized list ++ behind body)).map (· + 1) :=
    Sql.closingFrom_add 1
  rw [hclose] at hshift
  exact hshift

private theorem matchAt_asAfterParen (hblank : ∃ x ∈ body.head?, Text.isBlank x = true)
    (offset : Nat) :
    ∃ found, asAfterParen.matchAt ⟨none, ')' :: behind body, offset, []⟩ = some found ∧
      found.stop.offset = offset + 4 := by
  obtain ⟨x, hx, hblank⟩ := hblank
  obtain ⟨s, rfl⟩ : ∃ s, body = x :: s := by
    cases body with
    | nil => simp at hx
    | cons y s => exact ⟨s, by simpa using hx⟩
  let close : Cursor :=
    Cursor.past ⟨none, ')' :: behind (x :: s), offset, []⟩ [')'] (behind (x :: s))
  let gap : Cursor := close.past [' '] ("AS".toList ++ (x :: s))
  let word : Cursor := gap.past "AS".toList (x :: s)
  have hedge : (all [.wordEdge]).run word some = some word := by
    have hnext : word.nextIsWord = false := by
      simp [word, Cursor.nextIsWord, Text.isWord_eq_false_of_isBlank hblank]
    have hbefore : word.beforeIsWord = true := rfl
    rw [run_all_cons, run, if_pos (by rw [hbefore, hnext]; rfl), run_all_nil]
  have hrun : asAfterParen.run ⟨none, ')' :: behind (x :: s), offset, []⟩ some = some word := by
    rw [asAfterParen, run_all_cons, run_char_past rfl, run_all_cons]
    refine run_many_past (u := [' ']) (v := "AS".toList ++ (x :: s)) rfl (by simp)
      (by rintro y ⟨⟩; rfl) ?_
    rw [run_all_cons, run_keyword_past rfl (spells_self _)]
    exact hedge
  exact ⟨⟨offset, word⟩, by rw [matchAt, hrun]; rfl, rfl⟩

theorem parenThenAs?_lead (h : ParenthesizedHeader list body) :
    parenThenAs? (lead list ++ behind body) =
      some ⟨.parenThenAs, (lead list).length, (lead list ++ " AS".toList).length⟩ := by
  have hstart : Text.trimStart (lead list ++ behind body) = parenthesized list ++ behind body :=
    Text.trimStart_append (u := [' ']) (by simp) (by rintro x ⟨⟩; rfl)
  have hindex : (lead list ++ behind body).length - (parenthesized list ++ behind body).length =
      1 := by
    simp only [lead, List.cons_append, List.length_cons]
    omega
  have hdrop : (lead list ++ behind body).drop (list.length + 2) = ')' :: behind body := by
    rw [lead_eq, List.append_assoc, List.drop_left' (by simp)]
    rfl
  obtain ⟨found, hfound, hstop⟩ := matchAt_asAfterParen h.blank (list.length + 2)
  have hhead : (parenthesized list ++ behind body).head? = some '(' := rfl
  rw [parenThenAs?]
  simp only [hstart, hindex, hhead, if_true, h.closingParen?_lead, hdrop, hfound, hstop]
  simp [length_lead]

/-! ## The definition -/

private theorem last_lead (list : Text) : ∀ x ∈ (lead list).getLast?, Text.isBlank x = false := by
  intro x hx
  rw [lead_eq, List.getLast?_concat] at hx
  cases hx
  rfl

/-- Where no line with AS alone comes first, the AS behind the parentheses ends the header. -/
theorem boundary?_lead (h : ParenthesizedHeader list body) (hlone : ¬ LoneAsFirst (behind body)) :
    boundary? (lead list ++ behind body) =
      some ⟨.parenThenAs, (lead list).length, (lead list ++ " AS".toList).length⟩ := by
  have hown : ownLine? (lead list ++ behind body) = none :=
    ownLine?_eq_none fun hfirst =>
      hlone ((loneAsFirst_append_iff h.quiet_lead (last_lead list)).mp hfirst)
  simp only [boundary?, strategies, List.findSome?, Strategy.find?, hown, h.parenThenAs?_lead]

/-- A line with AS alone that comes first moves the boundary into the body. -/
theorem boundary?_lead_of_loneAsFirst (h : ParenthesizedHeader list body)
    (hlone : LoneAsFirst (behind body)) :
    ∃ start stop, boundary? (lead list ++ behind body) = some ⟨.ownLine, start, stop⟩ ∧
      (lead list ++ " AS".toList).length < stop ∧ stop ≤ (lead list ++ behind body).length := by
  obtain ⟨a, u, rest, htext, hspan, hown⟩ :=
    ownLine?_of_loneAsFirst ((loneAsFirst_append_iff h.quiet_lead (last_lead list)).mpr hlone)
  refine ⟨a.length, (a ++ u).length, ?_, ?_, ?_⟩
  · simp only [boundary?, strategies, List.findSome?, Strategy.find?, hown]
  · obtain ⟨y, rfl, hy⟩ := h.quiet_lead.exists_of_onOwnLine (last_lead list) hspan htext
    obtain ⟨w, rfl⟩ := exists_lineFeed_cons hspan
    -- the line feed cannot be one of the three characters of the AS
    rcases y with _ | ⟨x, _ | ⟨x', _ | ⟨x'', y⟩⟩⟩
    · exact absurd (List.cons.inj hy).1 (by decide)
    · exact absurd (List.cons.inj (List.cons.inj hy).2).1 (by decide)
    · exact absurd (List.cons.inj (List.cons.inj (List.cons.inj hy).2).2).1 (by decide)
    · simp only [List.length_append, List.length_cons]
      have : " AS".toList.length = 3 := rfl
      omega
  · rw [htext]
    simp

end ParenthesizedHeader

open ParenthesizedHeader

private theorem parseParameters_lead (list : Text) :
    parseParameters (lead list) = parseParameters (parenthesized list) := by
  have hstrip : Sql.stripComments (lead list) =
      [' '] ++ Sql.stripComments (parenthesized list) := by
    rw [lead, Sql.stripComments, Sql.dropBlockComments, Sql.dropLineComments]
    · rfl
    · simp
    · simp
  have htrim : Text.trim (Sql.stripComments (lead list)) =
      Text.trim (Sql.stripComments (parenthesized list)) := by
    rw [hstrip, Text.trim_blanks_append (by rintro x ⟨⟩ <;> [rfl; contradiction])]
  rw [parseParameters, parseParameters, htrim]

/-- The AS behind the parentheses ends the header unless a line with AS alone comes first; then the
boundary lies in the body. -/
theorem parse?_parenthesized (schema name : Token Text.isWord) {list body : Text}
    (h : ParenthesizedHeader list body) (startLine : Int) :
    let text := writeName schema name ++ ((' ' :: parenthesized list) ++ (" AS".toList ++ body))
    (¬ LoneAsFirst (" AS".toList ++ body) → Definition.parse? text startLine =
        some ⟨schema.text, name.text, parseParameters (parenthesized list), body,
          some .parenThenAs, startLine⟩) ∧
      (LoneAsFirst (" AS".toList ++ body) → ∃ d, Definition.parse? text startLine = some d ∧
        d.boundary = some .ownLine ∧ d.body.length < body.length) := by
  intro text
  obtain ⟨found, hfind, hschema, hname, hrest⟩ :=
    find?_procedureName schema name (v := lead list ++ behind body) (by rintro x ⟨⟩; simp; rfl)
  have htext : text = writeName schema name ++ (lead list ++ behind body) := rfl
  constructor
  · intro hlone
    have htake : (lead list ++ behind body).take (lead list).length = lead list :=
      List.take_left' rfl
    have hdrop : (lead list ++ behind body).drop (lead list ++ " AS".toList).length = body := by
      rw [append_behind, List.drop_left' rfl]
    rw [htext, parse?_of_find? hfind hschema hname hrest (h.boundary?_lead hlone), htake, hdrop,
      parseParameters_lead]
  · intro hlone
    obtain ⟨start, stop, hboundary, hafter, hstop⟩ := h.boundary?_lead_of_loneAsFirst hlone
    rw [htext, Definition.parse?, hfind]
    refine ⟨_, rfl, ?_, ?_⟩
    · simp only [hrest, hboundary, Option.map_some]
    · have hlength : (lead list ++ behind body).length =
          (lead list ++ " AS".toList).length + body.length := by
        rw [append_behind, List.length_append]
      simp only [hrest, hboundary, Option.elim, List.length_drop]
      omega

/-- A bracket that only the body closes hides the closing parenthesis of the list. -/
example :
    Sql.closingParen? (parenthesized "@Id int /* [ */".toList) 0 = some 16 ∧
      Sql.closingParen?
        (parenthesized "@Id int /* [ */".toList ++ " AS SELECT x AS [a b])".toList) 0 =
          some 38 := by
  decide +kernel

theorem parse?_parenthesized_before_aliases :
    ParenthesizedHeader "@Id int, @Kind char(1) = '('".toList
        " SELECT @Id AS\n Id,\n @Kind\nAS\n Kind".toList ∧
      ¬ LoneAsFirst " AS SELECT @Id AS\n Id,\n @Kind\nAS\n Kind".toList ∧
      Definition.parse? ("CREATE PROCEDURE dbo.Find (@Id int, @Kind char(1) = '(') AS".toList ++
          " SELECT @Id AS\n Id,\n @Kind\nAS\n Kind".toList) 1 =
        some ⟨"dbo".toList, "Find".toList,
          [{ name := "@Id".toList, dataType := "int".toList },
            { name := "@Kind".toList, dataType := "char(1)".toList,
              default := some "'('".toList }],
          " SELECT @Id AS\n Id,\n @Kind\nAS\n Kind".toList, some .parenThenAs, 1⟩ := by
  let list : Text := "@Id int, @Kind char(1) = '('".toList
  let body : Text := " SELECT @Id AS\n Id,\n @Kind\nAS\n Kind".toList
  let schema : Token Text.isWord := .ofAll "dbo".toList rfl rfl
  let name : Token Text.isWord := .ofAll "Find".toList rfl rfl
  have hheader : ParenthesizedHeader list body :=
    ⟨by decide +kernel, by decide +kernel, by decide +kernel, ' ', rfl, rfl⟩
  have hlone : ¬ LoneAsFirst (" AS".toList ++ body) := by decide +kernel
  have hparameters : parseParameters (parenthesized list) =
      [{ name := "@Id".toList, dataType := "int".toList },
        { name := "@Kind".toList, dataType := "char(1)".toList,
          default := some "'('".toList }] := by
    decide +kernel
  have hparse := (parse?_parenthesized schema name hheader 1).1 hlone
  rw [hparameters] at hparse
  exact ⟨hheader, hlone, hparse⟩

/-- The common table expression takes the AS of the header, and with it the parameters. -/
theorem parse?_parenthesized_before_cte :
    ¬ HoldsAs "@Id int".toList ∧
      Sql.closingParen? "(@Id int)".toList 0 = some 8 ∧
      Definition.parse? ("CREATE PROCEDURE dbo.X (@Id int) AS".toList ++
          " SELECT 1;\nWITH c\nAS\n(SELECT 1 AS n) SELECT n FROM c".toList) 1 =
        some ⟨"dbo".toList, "X".toList, [], "(SELECT 1 AS n) SELECT n FROM c".toList,
          some .ownLine, 1⟩ ∧
      parseParameters "(@Id int)".toList =
        [{ name := "@Id".toList, dataType := "int".toList }] := by
  decide +kernel

end ProcCatalog.Signature
