import ProcCatalog.Proofs.Signature.Name
import ProcCatalog.Proofs.Sql.CommentFree

/-!
# The AS that ends a header

Where no whole word AS stands in front of it, an AS at the end of its line is the first one that a
search for such an AS meets. A line with AS alone is then either that line or one of the body; in
the second case the AS of the header speaks against it.
-/

namespace ProcCatalog.Signature

open Pattern
open Text (Token)

variable {before : Option Char} {u rest : Text}

/-! ## Whole words -/

/-- AS stands in the text as a whole word, in either case. -/
def HoldsAs (s : Text) : Prop :=
  ∃ a u b, s = a ++ (u ++ b) ∧ Spells "AS".toList u ∧
    a.getLast?.any Text.isWord = false ∧ b.head?.any Text.isWord = false

def wholeAs : Pattern := all [.wordEdge, keyword "AS", .wordEdge]

theorem exists_of_spells_as (h : Spells "AS".toList u) :
    ∃ x y, u = [x, y] ∧ Text.isWord x = true ∧ Text.isWord y = true := by
  have hword := h.isWord rfl
  have hlength : u.length = 2 := (List.Forall₂.length_eq h).symm
  obtain ⟨x, y, rfl⟩ := List.length_eq_two.mp hlength
  exact ⟨x, y, rfl, hword x (by simp), hword y (by simp)⟩

theorem spans_wholeAs_iff :
    wholeAs.Spans before u rest ↔ Spells "AS".toList u ∧
      before.any Text.isWord = false ∧ rest.head?.any Text.isWord = false := by
  constructor
  · rintro ⟨_, w, rfl, ⟨rfl, hbefore⟩, word, _, rfl, hword, _, _, rfl, ⟨rfl, hrest⟩, rfl⟩
    have hspells : Spells "AS".toList word := spans_keyword_iff.mp hword
    obtain ⟨x, y, rfl, hx, hy⟩ := exists_of_spells_as hspells
    refine ⟨by simpa using hspells, ?_, ?_⟩
    · simpa [hx] using hbefore
    · simpa [hy] using hrest
  · rintro ⟨hspells, hbefore, hrest⟩
    obtain ⟨x, y, rfl, hx, hy⟩ := exists_of_spells_as hspells
    refine .cons (v := []) ⟨rfl, by simp [hbefore, hx]⟩ ?_
    rw [← List.append_nil [x, y]]
    refine .cons (spans_keyword_iff.mpr hspells) (.last ⟨rfl, by simp [hrest, hy]⟩)

theorem occursIn_wholeAs_iff {s : Text} : wholeAs.occursIn s = true ↔ HoldsAs s := by
  rw [occursIn_iff]
  constructor
  · rintro ⟨a, _, rfl, u, b, rfl, hspan⟩
    obtain ⟨hspells, hbefore, hrest⟩ := spans_wholeAs_iff.mp hspan
    exact ⟨a, u, b, rfl, hspells, by rwa [← lastOr_none], hrest⟩
  · rintro ⟨a, u, b, rfl, hspells, hbefore, hrest⟩
    exact ⟨a, _, rfl, u, b, rfl,
      spans_wholeAs_iff.mpr ⟨hspells, by rwa [lastOr_none], hrest⟩⟩

instance : DecidablePred HoldsAs := fun _ => decidable_of_iff _ occursIn_wholeAs_iff

/-! ## AS at the end of a line -/

def isSpace (c : Char) : Bool := c == ' ' || c == '\t'

theorem isBlank_of_isSpace {c : Char} (h : isSpace c = true) : Text.isBlank c = true := by
  simp only [isSpace, Bool.or_eq_true, beq_iff_eq] at h
  rcases h with rfl | rfl <;> rfl

def IsLineBreak (s : Text) : Prop := s = ['\n'] ∨ s = ['\r', '\n']

/-- AS in either case, then spaces up to the end of the line. -/
structure LineEnd (u word gap br : Text) : Prop where
  text : u = word ++ (gap ++ br)
  spells : Spells "AS".toList word
  gap : ∀ x ∈ gap, isSpace x = true
  lineBreak : IsLineBreak br

theorem spans_lineBreak_iff : lineBreak.Spans before u rest ↔ IsLineBreak u := by
  constructor
  · rintro ⟨v, w, rfl, hv, hw⟩
    obtain rfl := spans_char.mp hw
    rcases hv with hv | rfl
    · obtain rfl := spans_char.mp hv
      exact .inr rfl
    · exact .inl rfl
  · rintro (rfl | rfl)
    · exact ⟨[], ['\n'], rfl, .inr rfl, spans_char.mpr rfl⟩
    · exact ⟨['\r'], ['\n'], rfl, .inl (spans_char.mpr rfl), spans_char.mpr rfl⟩

private theorem spans_lineEnd_iff :
    (all [keyword "AS", spaces, lineBreak]).Spans before u rest ↔
      ∃ word gap br, LineEnd u word gap br := by
  constructor
  · rintro ⟨word, _, rfl, hword, gap, _, rfl, hgap, br, _, rfl, hbr, rfl⟩
    exact ⟨word, gap, br, by simp, spans_keyword_iff.mp hword, hgap, spans_lineBreak_iff.mp hbr⟩
  · rintro ⟨word, gap, br, rfl, hword, hgap, hbr⟩
    exact .cons (spans_keyword_iff.mpr hword)
      (.cons hgap (.last (spans_lineBreak_iff.mpr hbr)))

theorem spans_asAtLineEnd_iff :
    asAtLineEnd.Spans before u rest ↔
      before.any Text.isWord = false ∧ ∃ word gap br, LineEnd u word gap br := by
  have hstart {word gap br : Text} (h : LineEnd u word gap br) :
      ∃ x s, u = x :: s ∧ Text.isWord x = true := by
    obtain ⟨x, y, rfl, hx, -⟩ := exists_of_spells_as h.spells
    exact ⟨x, _, h.text, hx⟩
  constructor
  · rintro ⟨_, w, rfl, ⟨rfl, hedge⟩, hend⟩
    obtain ⟨word, gap, br, hend⟩ := spans_lineEnd_iff.mp hend
    obtain ⟨x, s, rfl, hx⟩ := hstart hend
    exact ⟨by simpa [hx] using hedge, word, gap, br, hend⟩
  · rintro ⟨hbefore, word, gap, br, hend⟩
    refine .cons (v := []) ⟨rfl, ?_⟩ (spans_lineEnd_iff.mpr ⟨word, gap, br, hend⟩)
    obtain ⟨x, s, rfl, hx⟩ := hstart hend
    simp [hbefore, hx]

theorem spans_asOnOwnLine_iff :
    asOnOwnLine.Spans before u rest ↔
      ∃ indent v, u = '\n' :: (indent ++ v) ∧ (∀ x ∈ indent, isSpace x = true) ∧
        ∃ word gap br, LineEnd v word gap br := by
  constructor
  · rintro ⟨_, _, rfl, hbreak, indent, v, rfl, hindent, hend⟩
    obtain rfl := spans_char.mp hbreak
    exact ⟨indent, v, rfl, hindent, spans_lineEnd_iff.mp hend⟩
  · rintro ⟨indent, v, rfl, hindent, hend⟩
    exact .cons (v := ['\n']) (spans_char.mpr rfl) (.cons hindent (spans_lineEnd_iff.mpr hend))

namespace LineEnd

variable {u' word word' gap gap' br br' r r' : Text}

theorem length_word (h : LineEnd u word gap br) : word.length = 2 :=
  (List.Forall₂.length_eq h.spells).symm

theorem head?_lineBreak (h : LineEnd u word gap br) (r : Text) :
    ∀ x ∈ (br ++ r).head?, isSpace x = false := by
  rcases h.lineBreak with rfl | rfl
  · rintro x ⟨⟩
    rfl
  · rintro x ⟨⟩
    rfl

theorem isBlank_tail (h : LineEnd u word gap br) : ∀ x ∈ gap ++ br, Text.isBlank x = true := by
  intro x hx
  rcases List.mem_append.mp hx with hx | hx
  · exact isBlank_of_isSpace (h.gap x hx)
  · rcases h.lineBreak with rfl | rfl
    · obtain rfl : x = '\n' := by simpa using hx
      rfl
    · obtain rfl | rfl : x = '\r' ∨ x = '\n' := by simpa using hx
      · rfl
      · rfl

theorem head?_tail (h : LineEnd u word gap br) (r : Text) :
    ∀ x ∈ (gap ++ (br ++ r)).head?, Text.isBlank x = true := by
  rw [← List.append_assoc]
  refine Text.forall_head?_append r ?_ h.isBlank_tail
  rcases h.lineBreak with rfl | rfl <;> simp

private theorem takeWhile_gap (h : LineEnd u word gap br) (r : Text) :
    (gap ++ (br ++ r)).takeWhile isSpace = gap := by
  have hbreak := h.head?_lineBreak r
  rw [List.takeWhile_append_of_pos h.gap]
  cases hs : br ++ r with
  | nil => simp
  | cons x s =>
      have hx : isSpace x = false := hbreak x (by simp [hs])
      rw [List.takeWhile_cons_of_neg (by simp [hx]), List.append_nil]

theorem unique (h : LineEnd u word gap br) (h' : LineEnd u' word' gap' br')
    (heq : u ++ r = u' ++ r') : u = u' ∧ r = r' := by
  have hlength : word.length = word'.length := h.length_word.trans h'.length_word.symm
  rw [h.text, h'.text, List.append_assoc, List.append_assoc, List.append_assoc,
    List.append_assoc] at heq
  obtain ⟨rfl, htail⟩ := List.append_inj heq hlength
  have hgap : gap = gap' := by
    rw [← h.takeWhile_gap r, htail, h'.takeWhile_gap r']
  subst hgap
  have hbr : br = br' ∧ r = r' := by
    have hrest := List.append_cancel_left htail
    rcases h.lineBreak with rfl | rfl <;> rcases h'.lineBreak with rfl | rfl <;> simp_all
  exact ⟨by rw [h.text, h'.text, hbr.1], hbr.2⟩

end LineEnd

/-! ## The header -/

/-- What stands in front of the AS: no AS at the end of a line begins in it, and no word ends it. -/
structure Quiet (h : Text) : Prop where
  avoids : ∀ rest, asAtLineEnd.Avoids none h rest
  closed : (lastOr none h).any Text.isWord = false

theorem quiet_of_not_holdsAs {p : Text} (hp : ¬ HoldsAs p) {sep : Char}
    (hsep : Text.isWord sep = false) : Quiet (p ++ [sep]) := by
  refine ⟨?_, by simp [hsep]⟩
  rintro rest a b hab hne ⟨u, v, huv, hspan⟩
  obtain ⟨hbefore, word, gap, br, hend⟩ := spans_asAtLineEnd_iff.mp hspan
  obtain rfl | ⟨b, x, rfl⟩ := List.eq_nil_or_concat b
  · exact hne rfl
  rw [List.concat_eq_append] at huv
  rw [List.concat_eq_append, ← List.append_assoc] at hab
  obtain ⟨rfl, hx⟩ := List.append_inj' hab rfl
  obtain rfl : sep = x := by simpa using hx
  rw [lastOr_none] at hbefore
  have htext : b ++ (sep :: rest) = word ++ (gap ++ (br ++ v)) := by
    simpa [hend.text] using huv
  rcases List.append_eq_append_iff.mp htext with ⟨z, rfl, hz⟩ | ⟨z, rfl, hz⟩
  · cases z with
    | nil => exact hp ⟨a, b, [], by simp, by simpa using hend.spells, hbefore, rfl⟩
    | cons x z =>
        obtain rfl : sep = x := (List.cons.inj hz).1
        have hword := hend.spells.isWord rfl sep (by simp)
        simp [hsep] at hword
  · refine hp ⟨a, word, z, rfl, hend.spells, hbefore, ?_⟩
    have hhead := hend.head?_tail v
    rw [hz] at hhead
    cases z with
    | nil => rfl
    | cons x z => simp [Text.isWord_eq_false_of_isBlank (hhead x rfl)]

/-- The AS that ends a header: what stands behind it up to the end of its line. -/
structure HeaderEnd where
  gap : Text
  lineBreak : Text
  spaces : ∀ x ∈ gap, isSpace x = true
  breaks : IsLineBreak lineBreak

def HeaderEnd.write (e : HeaderEnd) : Text := "AS".toList ++ (e.gap ++ e.lineBreak)

theorem HeaderEnd.lineEnd (e : HeaderEnd) : LineEnd e.write "AS".toList e.gap e.lineBreak :=
  ⟨rfl, spells_self _, e.spaces, e.breaks⟩

theorem HeaderEnd.write_eq (e : HeaderEnd) : e.write = 'A' :: 'S' :: (e.gap ++ e.lineBreak) := rfl

variable {h : Text}

/-- The first AS at the end of a line is that of the header. -/
theorem Quiet.find?_asAtLineEnd (hh : Quiet h) (e : HeaderEnd) (body : Text) :
    ∃ found, asAtLineEnd.find? (h ++ (e.write ++ body)) = some found ∧
      found.start = h.length ∧ found.stop.offset = (h ++ e.write).length := by
  have hbegins : asAtLineEnd.Begins (lastOr none h) (e.write ++ body) :=
    ⟨e.write, body, rfl, spans_asAtLineEnd_iff.mpr ⟨hh.closed, _, _, _, e.lineEnd⟩⟩
  obtain ⟨found, u, hfind, hat⟩ := exists_find?_append (hh.avoids (e.write ++ body)) hbegins
  obtain ⟨-, word, gap, br, hend⟩ := spans_asAtLineEnd_iff.mp hat.spans
  obtain ⟨rfl, -⟩ := hend.unique e.lineEnd (List.append_cancel_left hat.text).symm
  exact ⟨found, hfind, by simpa using hat.start, by simpa using hat.stop⟩

/-! ## A line with AS alone -/

theorem isBlank_indent {indent : Text} (hindent : ∀ x ∈ indent, isSpace x = true) :
    ∀ x ∈ '\n' :: indent, Text.isBlank x = true := by
  intro x hx
  rcases List.mem_cons.mp hx with rfl | hx
  · rfl
  · exact isBlank_of_isSpace (hindent x hx)

theorem closed_indent (a : Text) {indent : Text} (h : ∀ x ∈ indent, isSpace x = true) :
    (lastOr none (a ++ '\n' :: indent)).any Text.isWord = false := by
  rw [lastOr_none, List.getLast?_append_of_ne_nil _ (List.cons_ne_nil _ _)]
  cases hlast : ('\n' :: indent).getLast? with
  | none => rfl
  | some x =>
      have hblank := isBlank_indent h x (List.mem_of_getLast? hlast)
      simp [Text.isWord_eq_false_of_isBlank hblank]

private theorem exists_write_append {e : HeaderEnd} {v word gap br z t body : Text}
    (hend : LineEnd v word gap br) (hz : 2 ≤ z.length)
    (htext : e.write ++ body = z ++ (v ++ t)) : ∃ t', z ++ v = e.write ++ t' := by
  rw [← List.append_assoc] at htext
  rcases List.append_eq_append_iff.mp htext with ⟨y, hy, -⟩ | ⟨y, hy, -⟩
  · exact ⟨y, hy⟩
  · exfalso
    obtain ⟨x, s, rfl, hx⟩ : ∃ x s, v = x :: s ∧ Text.isWord x = true := by
      obtain ⟨x, y, rfl, hx, -⟩ := exists_of_spells_as hend.spells
      exact ⟨x, _, hend.text, hx⟩
    match z, hz with
    | a :: b :: z, _ =>
        have htail : e.gap ++ e.lineBreak = z ++ (x :: s ++ y) := by
          simpa [e.write_eq] using congrArg (List.drop 2) hy
        have hblank := e.lineEnd.isBlank_tail x (by simp [htail])
        simp [Text.isBlank_eq_false_of_isWord hx] at hblank

theorem Quiet.exists_eq_append (hh : Quiet h) {a v word gap br s : Text}
    (hend : LineEnd v word gap br) (hclosed : (lastOr none a).any Text.isWord = false)
    (htext : h ++ s = a ++ (v ++ rest)) : ∃ z, a = h ++ z ∧ s = z ++ (v ++ rest) := by
  rcases List.append_eq_append_iff.mp htext with ⟨z, rfl, hz⟩ | ⟨z, rfl, hz⟩
  · exact ⟨z, rfl, hz⟩
  · cases z with
    | nil => exact ⟨[], by simp, hz.symm⟩
    | cons x z =>
        refine absurd ?_ (hh.avoids s a (x :: z) rfl (by simp))
        exact ⟨v, rest, hz.symm, spans_asAtLineEnd_iff.mpr ⟨hclosed, _, _, _, hend⟩⟩

/-- A line with AS alone is that of the header, or it begins behind the header. -/
theorem Quiet.onOwnLine_cases (hh : Quiet h) {e : HeaderEnd} {body a : Text}
    (hspan : asOnOwnLine.Spans before u rest)
    (htext : h ++ (e.write ++ body) = a ++ (u ++ rest)) :
    (∃ indent, (∀ x ∈ indent, isSpace x = true) ∧ h = a ++ '\n' :: indent ∧
        a ++ u = h ++ e.write) ∨
      h.length < a.length ∧ ∃ t, a ++ u = h ++ (e.write ++ t) := by
  obtain ⟨indent, v, rfl, hindent, word, gap, br, hend⟩ := spans_asOnOwnLine_iff.mp hspan
  have hblank := isBlank_indent hindent
  have htext' : h ++ (e.write ++ body) = (a ++ '\n' :: indent) ++ (v ++ rest) := by
    simpa using htext
  obtain ⟨z, hz, hbody⟩ := hh.exists_eq_append hend (closed_indent a hindent) htext'
  cases z with
  | nil =>
      obtain ⟨rfl, -⟩ := e.lineEnd.unique hend hbody
      have hh : h = a ++ '\n' :: indent := by simpa using hz.symm
      exact .inl ⟨indent, hindent, hh, by simp [hh]⟩
  | cons x z =>
      obtain rfl : 'A' = x := (List.cons.inj hbody).1
      refine .inr ?_
      rcases List.append_eq_append_iff.mp hz with ⟨y, hy, hlast⟩ | ⟨y, rfl, hy⟩
      · have hmem : 'A' ∈ '\n' :: indent := by simp [hlast]
        exact absurd (hblank 'A' hmem) (by decide)
      · cases y with
        | nil => exact absurd (List.cons.inj hy).1 (by decide)
        | cons x y =>
            have hlength : 2 ≤ ('A' :: z).length := by
              rw [hy, List.length_append, List.length_cons, List.length_cons]
              omega
            obtain ⟨t, ht⟩ := exists_write_append hend hlength hbody
            refine ⟨by simp, t, ?_⟩
            rw [← ht, hy]
            simp

theorem ownLine?_of_find? {s : Text} {found earlier : Found}
    (hfind : asOnOwnLine.find? s = some found)
    (hearlier : asAtLineEnd.find? (s.take found.stop.offset) = some earlier) :
    ownLine? s =
      if earlier.start < found.start then none else some (boundaryOf .ownLine found) := by
  rw [ownLine?, hfind]
  simp only [hearlier]

theorem Quiet.ownLine? (hh : Quiet h) (e : HeaderEnd) (body : Text) :
    ownLine? (h ++ (e.write ++ body)) = none ∨
      ∃ a indent, (∀ x ∈ indent, isSpace x = true) ∧ h = a ++ '\n' :: indent ∧
        ownLine? (h ++ (e.write ++ body)) =
          some ⟨.ownLine, a.length, (h ++ e.write).length⟩ := by
  cases hfind : asOnOwnLine.find? (h ++ (e.write ++ body)) with
  | none => exact .inl (by rw [Signature.ownLine?, hfind])
  | some found =>
      obtain ⟨a, u, hat⟩ := find?_eq_some hfind
      have hstart : found.start = a.length := by simpa using hat.start
      have hstop : found.stop.offset = (a ++ u).length := by simpa using hat.stop
      have htake : (h ++ (e.write ++ body)).take found.stop.offset = a ++ u := by
        rw [hat.text, ← List.append_assoc, hstop, List.take_left']
        rfl
      rcases hh.onOwnLine_cases hat.spans hat.text with ⟨indent, hindent, hh', htext⟩ | ⟨hlt, t, ht⟩
      · obtain ⟨earlier, hearlier, hearlierStart, -⟩ := hh.find?_asAtLineEnd e []
        have hle : ¬ earlier.start < found.start := by
          rw [hearlierStart, hstart, hh', List.length_append]
          omega
        rw [List.append_nil, ← htext, ← htake] at hearlier
        refine .inr ⟨a, indent, hindent, hh', ?_⟩
        rw [ownLine?_of_find? hfind hearlier, if_neg hle, boundaryOf, hstart, hstop, htext]
      · obtain ⟨earlier, hearlier, hearlierStart, -⟩ := hh.find?_asAtLineEnd e t
        have hlt : earlier.start < found.start := by rwa [hearlierStart, hstart]
        rw [← ht, ← htake] at hearlier
        exact .inl (by rw [ownLine?_of_find? hfind hearlier, if_pos hlt])

/-! ## The boundary -/

/-- What can stand between the name of a procedure and the separator in front of its AS. -/
structure HeaderText (p : Text) : Prop where
  blank : ∀ x ∈ p.head?, Text.isBlank x = true
  unwrapped : (Text.trimStart p).head? ≠ some '('
  plain : ¬ HoldsAs p

theorem parenThenAs?_eq_none {s : Text} (h : (Text.trimStart s).head? ≠ some '(') :
    parenThenAs? s = none := by
  rw [parenThenAs?]
  simp only [if_neg h]

private theorem trimStart_head?_append {p : Text} (hp : (Text.trimStart p).head? ≠ some '(')
    {sep : Char} (hsep : Text.isBlank sep = true) (e : HeaderEnd) (body : Text) :
    (Text.trimStart ((p ++ [sep]) ++ (e.write ++ body))).head? ≠ some '(' := by
  rw [List.append_assoc, Text.trimStart, List.dropWhile_append]
  split
  · have hstart : Text.trimStart ([sep] ++ (e.write ++ body)) = e.write ++ body :=
      Text.trimStart_append (by simpa using hsep) (by rintro x ⟨⟩; rfl)
    rw [← Text.trimStart, hstart, e.write_eq]
    simp
  · rename_i hne
    rw [List.isEmpty_iff] at hne
    rwa [List.head?_append_of_ne_nil _ hne]

/-- The boundary lies behind the AS of the header, and the parameters end in front of it. -/
theorem boundary?_header {p : Text} (hp : HeaderText p) {sep : Char}
    (hsep : Text.isBlank sep = true) (e : HeaderEnd) (body : Text) :
    ∃ strategy a blanks, (strategy = .ownLine ∨ strategy = .endOfLine) ∧
      p ++ [sep] = a ++ blanks ∧ (∀ x ∈ blanks, Text.isBlank x = true) ∧
      boundary? ((p ++ [sep]) ++ (e.write ++ body)) =
        some ⟨strategy, a.length, ((p ++ [sep]) ++ e.write).length⟩ := by
  have hquiet := quiet_of_not_holdsAs hp.plain (Text.isWord_eq_false_of_isBlank hsep)
  rcases hquiet.ownLine? e body with hnone | ⟨a, indent, hindent, hsplit, hsome⟩
  · obtain ⟨found, hfind, hstart, hstop⟩ := hquiet.find?_asAtLineEnd e body
    have hparen := parenThenAs?_eq_none (trimStart_head?_append hp.unwrapped hsep e body)
    refine ⟨.endOfLine, p ++ [sep], [], .inr rfl, by simp, by simp, ?_⟩
    simp only [boundary?, strategies, List.findSome?, Strategy.find?, hnone, hparen, hfind,
      Option.map_some, boundaryOf, hstart, hstop]
  · refine ⟨.ownLine, a, '\n' :: indent, .inl rfl, hsplit, isBlank_indent hindent, ?_⟩
    simp only [boundary?, strategies, List.findSome?, Strategy.find?, hsome]

/-! ## Definitions -/

theorem parseParameters_append_blanks (s : Text) {t : Text}
    (ht : ∀ x ∈ t, Text.isBlank x = true) : parseParameters (s ++ t) = parseParameters s := by
  rw [parseParameters, parseParameters, Sql.trim_stripComments_append s ht]

theorem head?_header {p : Text} (hp : ∀ x ∈ p.head?, Text.isBlank x = true) {sep : Char}
    (hsep : Text.isBlank sep = true) (s : Text) :
    ∀ x ∈ ((p ++ [sep]) ++ s).head?, Text.isWord x = false ∧ x ≠ ']' := by
  have hblanks : ∀ x ∈ (p ++ [sep]).head?, Text.isBlank x = true := by
    cases p with
    | nil => simpa using hsep
    | cons y p => exact hp
  intro x hx
  rw [List.head?_append_of_ne_nil _ (by simp)] at hx
  have hx := hblanks x hx
  refine ⟨Text.isWord_eq_false_of_isBlank hx, ?_⟩
  rintro rfl
  exact absurd hx (by decide)

/-- What follows a name is read as a header and a body. -/
theorem parse?_of_headerText {text schema name p : Text} {found : Found}
    (hfind : procedureName.find? text = some found) (hschema : found.mark? "schema" = some schema)
    (hname : found.mark? "name" = some name) (hp : HeaderText p) {sep : Char}
    (hsep : Text.isBlank sep = true) (e : HeaderEnd) (body : Text)
    (hrest : found.stop.rest = (p ++ [sep]) ++ (e.write ++ body)) (startLine : Int) :
    ∃ strategy, (strategy = .ownLine ∨ strategy = .endOfLine) ∧
      Definition.parse? text startLine =
        some ⟨schema, name, parseParameters p, body, some strategy, startLine⟩ := by
  obtain ⟨strategy, a, blanks, hstrategy, hsplit, hblanks, hboundary⟩ :=
    boundary?_header hp hsep e body
  have hparameters : parseParameters a = parseParameters p := by
    rw [← parseParameters_append_blanks a hblanks, ← hsplit,
      parseParameters_append_blanks p (by simpa using hsep)]
  have htake : ((p ++ [sep]) ++ (e.write ++ body)).take a.length = a := by
    rw [hsplit, List.append_assoc, List.take_left']
    rfl
  have hdrop : ((p ++ [sep]) ++ (e.write ++ body)).drop ((p ++ [sep]) ++ e.write).length =
      body := by
    rw [← List.append_assoc, List.drop_left']
    rfl
  refine ⟨strategy, hstrategy, ?_⟩
  rw [parse?_of_find? hfind hschema hname hrest hboundary, htake, hdrop, hparameters]

/-- An AS that ends its line and has no AS in front of it ends the header, whatever the body. -/
theorem parse?_headerEnd (schema name : Token Text.isWord) {p : Text} (hp : HeaderText p)
    {sep : Char} (hsep : sep = ' ' ∨ sep = '\t' ∨ sep = '\n') (e : HeaderEnd) (body : Text)
    (startLine : Int) :
    ∃ strategy, (strategy = .ownLine ∨ strategy = .endOfLine) ∧
      Definition.parse? (writeName schema name ++ ((p ++ [sep]) ++ (e.write ++ body))) startLine =
        some ⟨schema.text, name.text, parseParameters p, body, some strategy, startLine⟩ := by
  have hblank : Text.isBlank sep = true := by
    rcases hsep with rfl | rfl | rfl <;> rfl
  obtain ⟨found, hfind, hschema, hname, hrest⟩ :=
    find?_procedureName schema name (head?_header hp.blank hblank (e.write ++ body))
  exact parse?_of_headerText hfind hschema hname hp hblank e body hrest startLine

/-- A line with AS alone behind the header changes nothing. -/
theorem parse?_headerEnd_before_cte :
    HeaderText "\n  @Alias INT,\n  @Basis VARCHAR(10) = 'a'".toList ∧
      ∃ strategy, (strategy = .ownLine ∨ strategy = .endOfLine) ∧
        Definition.parse?
          ("CREATE PROCEDURE dbo.Load\n  @Alias INT,\n  @Basis VARCHAR(10) = 'a' AS \r\n".toList ++
            "WITH t\nAS\n(SELECT 1 AS n) SELECT CAST(n AS INT) FROM t".toList) 1 =
          some ⟨"dbo".toList, "Load".toList,
            [{ name := "@Alias".toList, dataType := "INT".toList },
              { name := "@Basis".toList, dataType := "VARCHAR(10)".toList,
                default := some "'a'".toList }],
            "WITH t\nAS\n(SELECT 1 AS n) SELECT CAST(n AS INT) FROM t".toList,
            some strategy, 1⟩ := by
  let header : Text := "\n  @Alias INT,\n  @Basis VARCHAR(10) = 'a'".toList
  let body : Text := "WITH t\nAS\n(SELECT 1 AS n) SELECT CAST(n AS INT) FROM t".toList
  let schema : Token Text.isWord := .ofAll "dbo".toList rfl rfl
  let name : Token Text.isWord := .ofAll "Load".toList rfl rfl
  let last : HeaderEnd := ⟨[' '], ['\r', '\n'], by simp [isSpace], .inr rfl⟩
  have hheader : HeaderText header :=
    ⟨by rintro x ⟨⟩; rfl, by decide +kernel, by decide +kernel⟩
  have hparameters : parseParameters header =
      [{ name := "@Alias".toList, dataType := "INT".toList },
        { name := "@Basis".toList, dataType := "VARCHAR(10)".toList,
          default := some "'a'".toList }] := by
    decide +kernel
  have htext :
      "CREATE PROCEDURE dbo.Load\n  @Alias INT,\n  @Basis VARCHAR(10) = 'a' AS \r\n".toList =
        writeName schema name ++ ((header ++ [' ']) ++ last.write) := by
    decide +kernel
  obtain ⟨strategy, hstrategy, hparse⟩ :=
    parse?_headerEnd schema name hheader (.inl rfl) last body 1
  refine ⟨hheader, strategy, hstrategy, ?_⟩
  rw [htext, ← hparameters, List.append_assoc, List.append_assoc (header ++ [' ']) last.write]
  exact hparse

end ProcCatalog.Signature
