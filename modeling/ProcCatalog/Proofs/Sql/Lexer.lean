import ProcCatalog.Proofs.Sql.Comments
import ProcCatalog.Proofs.Sql.Literal

/-!
# Comments and literals

Read from left to right, a text is cut into literals, comments and the characters between them. The
two passes of stripping know no literals, and the first one knows no line comments: they leave what
the reading leaves as long as no mark in a literal or a line comment is taken for a comment.
-/

namespace ProcCatalog.Sql

inductive Lexeme where
  | code (c : Char)
  | literal (content : Text)
  | lineComment (content : Text)
  | blockComment (content : Text)
  deriving DecidableEq, Repr

namespace Lexeme

def written : Lexeme → Text
  | code c => [c]
  | literal content => Sql.literal content
  | lineComment content => '-' :: '-' :: content
  | blockComment content => Sql.blockComment content

/-- What is left of a lexeme where comments are removed. -/
def kept : Lexeme → Text
  | lineComment _ => []
  | blockComment _ => [' ']
  | lexeme => lexeme.written

end Lexeme

/-! ## Reading -/

/-- The content of a literal that is open, and what follows its closing quote. -/
def closeLiteral? : Text → Option (Text × Text)
  | [] => none
  | '\x27' :: '\x27' :: s => (closeLiteral? s).map fun r => (quoteMark :: r.1, r.2)
  | '\x27' :: s => some ([], s)
  | c :: s => (closeLiteral? s).map fun r => (c :: r.1, r.2)

/-- The lexeme that begins with a character, and what follows it. -/
def firstLexeme? : Char → Text → Option (Lexeme × Text)
  | '\x27', s => (closeLiteral? s).map fun r => (.literal r.1, r.2)
  | '-', '-' :: s => some (.lineComment (s.takeWhile (· != '\n')), s.dropWhile (· != '\n'))
  | '/', '*' :: s =>
      (afterClosing? s).map fun rest => (.blockComment (s.take (s.length - rest.length - 2)), rest)
  | c, s => some (.code c, s)

/-- What the reading promises of a lexeme in front of a text. -/
def Lexeme.EndsBefore (rest : Text) : Lexeme → Prop
  | code c => c ≠ quoteMark ∧ (c = '-' → rest.head? ≠ some '-') ∧ (c = '/' → rest.head? ≠ some '*')
  | literal _ => rest.head? ≠ some quoteMark
  | lineComment content => '\n' ∉ content ∧ ∀ c ∈ rest.head?, c = '\n'
  | blockComment content => ¬ ['*', '/'] <:+: content

private theorem take_content (content rest : Text) :
    (content ++ '*' :: '/' :: rest).take
      ((content ++ '*' :: '/' :: rest).length - rest.length - 2) = content :=
  List.take_left' (by simp only [List.length_append, List.length_cons]; omega)

theorem closeLiteral?_eq_some {s content rest : Text} (h : closeLiteral? s = some (content, rest)) :
    s = doubled content ++ quoteMark :: rest ∧ rest.head? ≠ some quoteMark := by
  fun_induction closeLiteral? s generalizing content with
  | case1 => simp at h
  | case2 s ih =>
      obtain ⟨r, hr, heq⟩ := Option.map_eq_some_iff.mp h
      obtain ⟨rfl, rfl⟩ := Prod.mk.inj heq
      obtain ⟨rfl, hrest⟩ := ih hr
      exact ⟨rfl, hrest⟩
  | case3 s hopen =>
      obtain ⟨rfl, rfl⟩ := Prod.mk.inj (Option.some.inj h)
      refine ⟨rfl, fun hhead => ?_⟩
      obtain ⟨u, rfl⟩ := List.head?_eq_some_iff.mp hhead
      exact hopen u rfl
  | case4 c s hdoubled hclosing ih =>
      obtain ⟨r, hr, heq⟩ := Option.map_eq_some_iff.mp h
      obtain ⟨rfl, rfl⟩ := Prod.mk.inj heq
      obtain ⟨rfl, hrest⟩ := ih hr
      rw [doubled_cons hclosing]
      exact ⟨rfl, hrest⟩

theorem closeLiteral?_doubled (content : Text) {rest : Text}
    (h : rest.head? ≠ some quoteMark) :
    closeLiteral? (doubled content ++ quoteMark :: rest) = some (content, rest) := by
  induction content with
  | nil =>
      refine closeLiteral?.eq_3 rest ?_
      rintro u rfl
      exact h rfl
  | cons c content ih =>
      by_cases hc : c = quoteMark
      · subst hc
        exact congrArg (Option.map fun r => (quoteMark :: r.1, r.2)) ih
      · rw [doubled_cons hc]
        refine (closeLiteral?.eq_4 c _ (fun _ h _ => hc h) hc).trans ?_
        exact congrArg (Option.map fun r => (c :: r.1, r.2)) ih

theorem firstLexeme?_eq_some {c : Char} {s rest : Text} {lexeme : Lexeme}
    (h : firstLexeme? c s = some (lexeme, rest)) :
    c :: s = lexeme.written ++ rest ∧ lexeme.EndsBefore rest := by
  fun_cases firstLexeme? c s with
  | case1 s =>
      obtain ⟨r, hr, heq⟩ := Option.map_eq_some_iff.mp h
      obtain ⟨rfl, rfl⟩ := Prod.mk.inj heq
      obtain ⟨rfl, hrest⟩ := closeLiteral?_eq_some hr
      exact ⟨by simp [Lexeme.written, literal, quoteMark], hrest⟩
  | case2 s =>
      obtain ⟨rfl, rfl⟩ := Prod.mk.inj (Option.some.inj h)
      refine ⟨by simp [Lexeme.written], fun hfeed => ?_, fun d hd => ?_⟩
      · simpa using List.mem_takeWhile_imp hfeed
      · have hstop := List.head?_dropWhile_not (· != '\n') s
        rw [Option.mem_def.mp hd] at hstop
        simpa using hstop
  | case3 s =>
      obtain ⟨u, hclosed, heq⟩ := Option.map_eq_some_iff.mp h
      obtain ⟨rfl, rfl⟩ := Prod.mk.inj heq
      obtain ⟨content, hcontent, rfl⟩ := exists_of_afterClosing? hclosed
      rw [take_content]
      exact ⟨by simp [Lexeme.written, blockComment], hcontent⟩
  | case4 c s hquote hline hblock =>
      rw [firstLexeme?.eq_4 c s hquote hline hblock] at h
      obtain ⟨rfl, rfl⟩ := Prod.mk.inj (Option.some.inj h)
      refine ⟨rfl, hquote, fun hc hhead => ?_, fun hc hhead => ?_⟩
      · obtain ⟨u, rfl⟩ := List.head?_eq_some_iff.mp hhead
        exact hline u hc rfl
      · obtain ⟨u, rfl⟩ := List.head?_eq_some_iff.mp hhead
        exact hblock u hc rfl

theorem firstLexeme?_written {c : Char} {s rest : Text} {lexeme : Lexeme}
    (hs : c :: s = lexeme.written ++ rest) (hends : lexeme.EndsBefore rest) :
    firstLexeme? c s = some (lexeme, rest) := by
  cases lexeme with
  | code d =>
      obtain ⟨rfl, rfl⟩ := List.cons.inj hs
      obtain ⟨hquote, hdash, hslash⟩ := hends
      refine firstLexeme?.eq_4 c s hquote ?_ ?_
      · rintro u hc rfl
        exact hdash hc rfl
      · rintro u hc rfl
        exact hslash hc rfl
  | literal content =>
      rw [Lexeme.written, literal, List.cons_append, List.append_assoc] at hs
      obtain ⟨rfl, rfl⟩ := List.cons.inj hs
      have hclose := closeLiteral?_doubled content hends
      exact congrArg (Option.map fun r => (Lexeme.literal r.1, r.2)) hclose
  | lineComment content =>
      obtain ⟨rfl, rfl⟩ := List.cons.inj hs
      obtain ⟨hfeed, hbreak⟩ := hends
      have hinside : ∀ x ∈ content, (x != '\n') = true := by
        intro x hx
        have hne : x ≠ '\n' := fun h => hfeed (h ▸ hx)
        simpa using hne
      have hstop : rest.takeWhile (· != '\n') = [] ∧ rest.dropWhile (· != '\n') = rest := by
        cases rest with
        | nil => exact ⟨rfl, rfl⟩
        | cons x rest =>
            obtain rfl := hbreak x rfl
            exact ⟨rfl, rfl⟩
      refine (firstLexeme?.eq_2 (content ++ rest)).trans ?_
      rw [List.takeWhile_append_of_pos hinside, List.dropWhile_append_of_pos hinside, hstop.1,
        hstop.2, List.append_nil]
  | blockComment content =>
      rw [Lexeme.written, blockComment, List.cons_append, List.cons_append, List.append_assoc] at hs
      obtain ⟨rfl, rfl⟩ := List.cons.inj hs
      refine (firstLexeme?.eq_3 (content ++ '*' :: '/' :: rest)).trans ?_
      rw [afterClosing?_mark hends, Option.map_some, take_content]

theorem Lexeme.written_ne_nil (lexeme : Lexeme) : lexeme.written ≠ [] := by
  cases lexeme <;> simp [written, Sql.literal, Sql.blockComment]

theorem length_of_firstLexeme? {c : Char} {s rest : Text} {lexeme : Lexeme}
    (h : firstLexeme? c s = some (lexeme, rest)) : rest.length < (c :: s).length := by
  rw [(firstLexeme?_eq_some h).1, List.length_append]
  have := List.length_pos_iff.mpr lexeme.written_ne_nil
  omega

/-- The lexemes of a text, if each of its literals and block comments is closed. -/
def lexemes? (s : Text) : Option (List Lexeme) :=
  match s with
  | [] => some []
  | c :: s =>
      match h : firstLexeme? c s with
      | none => none
      | some (lexeme, rest) =>
          have : rest.length < s.length + 1 := length_of_firstLexeme? h
          (lexemes? rest).map (lexeme :: ·)
termination_by s.length

/-- A property of each lexeme and of what is written behind it. -/
def Throughout (p : Text → Lexeme → Prop) : List Lexeme → Prop
  | [] => True
  | lexeme :: ts => p (ts.flatMap Lexeme.written) lexeme ∧ Throughout p ts

theorem lexemes?_eq_some {s : Text} {ts : List Lexeme} (h : lexemes? s = some ts) :
    s = ts.flatMap Lexeme.written ∧ Throughout Lexeme.EndsBefore ts := by
  fun_induction lexemes? s generalizing ts with
  | case1 =>
      obtain rfl := Option.some.inj h
      exact ⟨rfl, trivial⟩
  | case2 => simp at h
  | case3 c s lexeme rest hfirst _ ih =>
      obtain ⟨us, hus, rfl⟩ := Option.map_eq_some_iff.mp h
      obtain ⟨hwritten, hends⟩ := firstLexeme?_eq_some hfirst
      obtain ⟨rfl, hall⟩ := ih hus
      exact ⟨hwritten, hends, hall⟩

theorem lexemes?_flatMap_written {ts : List Lexeme} (h : Throughout Lexeme.EndsBefore ts) :
    lexemes? (ts.flatMap Lexeme.written) = some ts := by
  induction ts with
  | nil =>
      rw [List.flatMap_nil, lexemes?]
  | cons lexeme ts ih =>
      obtain ⟨hends, hall⟩ := h
      rw [List.flatMap_cons]
      cases hs : lexeme.written ++ ts.flatMap Lexeme.written with
      | nil => exact absurd (List.append_eq_nil_iff.mp hs).1 lexeme.written_ne_nil
      | cons c s =>
          have hfirst := firstLexeme?_written hs.symm hends
          rw [lexemes?]
          split
          · rename_i hnone
            simp [hfirst] at hnone
          · rename_i other rest hother
            rw [hfirst] at hother
            cases hother
            rw [ih hall]
            rfl

/-- The reading finds the lexemes that a text is written from. -/
theorem lexemes?_eq_some_iff {s : Text} {ts : List Lexeme} :
    lexemes? s = some ts ↔ s = ts.flatMap Lexeme.written ∧ Throughout Lexeme.EndsBefore ts := by
  refine ⟨lexemes?_eq_some, ?_⟩
  rintro ⟨rfl, h⟩
  exact lexemes?_flatMap_written h

/-! ## Lexemes and stripping -/

namespace Lexeme

/-- A block comment that is opened in a line comment is closed there or not at all. -/
def LineHarmless (rest : Text) : Lexeme → Prop
  | lineComment content => ['/', '*'] <:+: dropBlockComments content → ¬ ['*', '/'] <:+: rest
  | _ => True

/-- A literal has no comment in it, and a mark that opens one in it is not closed behind it. -/
def LiteralHarmless (rest : Text) : Lexeme → Prop
  | literal content => Stripped (Sql.literal content) ∧
      (['/', '*'] <:+: Sql.literal content → ¬ ['*', '/'] <:+: rest)
  | _ => True

end Lexeme

/-! ### One lexeme -/

section

variable {content rest : Text}

theorem stripComments_code {c : Char} (hdash : c = '-' → rest.head? ≠ some '-')
    (hslash : c = '/' → rest.head? ≠ some '*') :
    stripComments (c :: rest) = c :: stripComments rest := by
  have hblock : dropBlockComments (c :: rest) = c :: dropBlockComments rest :=
    dropBlockComments_cons fun u hc hrest => hslash hc (by rw [hrest]; rfl)
  rw [stripComments, hblock, dropLineComments_cons]
  · rfl
  · exact fun u hc hu => hdash hc (head?_of_dropBlockComments (by rw [hu]; rfl) (by decide))

theorem stripComments_literal (hliteral : Stripped (literal content))
    (hopen : ['/', '*'] <:+: literal content → ¬ ['*', '/'] <:+: rest) :
    stripComments (literal content ++ rest) = literal content ++ stripComments rest := by
  obtain ⟨hdash, hblock⟩ := hliteral
  have hlast : (literal content).getLast? = some quoteMark :=
    List.getLast?_concat (l := quoteMark :: doubled content)
  have hpass : dropBlockComments (literal content ++ rest) =
      literal content ++ dropBlockComments rest := by
    rw [dropBlockComments_append, dropBlockComments_eq_self hblock]
    · simp [hlast, quoteMark]
    · rw [dropBlockComments_eq_self hblock, hlast]
      exact fun h => ⟨fun hstar => absurd hstar (by decide), hopen h⟩
  rw [stripComments, hpass, dropLineComments_append hdash (by simp [hlast, quoteMark])]
  rfl

theorem stripComments_lineComment (hfeed : '\n' ∉ content) (hbreak : ∀ c ∈ rest.head?, c = '\n')
    (hopen : ['/', '*'] <:+: dropBlockComments content → ¬ ['*', '/'] <:+: rest) :
    stripComments ('-' :: '-' :: (content ++ rest)) = stripComments rest := by
  have hpass : dropBlockComments (content ++ rest) =
      dropBlockComments content ++ dropBlockComments rest := by
    refine dropBlockComments_append (fun _ h => absurd (hbreak _ h) (by decide)) fun h => ?_
    exact ⟨fun _ hhead => absurd (hbreak _ hhead) (by decide), hopen h⟩
  have hinside : ∀ x ∈ dropBlockComments content, (x != '\n') = true := by
    intro x hx
    have hne : x ≠ '\n' := by
      rintro rfl
      exact hfeed (mem_of_dropBlockComments (by decide) hx)
    simpa using hne
  have hstop : (dropBlockComments rest).dropWhile (· != '\n') = dropBlockComments rest := by
    cases rest with
    | nil =>
        rw [dropBlockComments]
        rfl
    | cons x rest =>
        obtain rfl := hbreak x rfl
        rw [dropBlockComments_cons (by simp)]
        rfl
  rw [stripComments, dropBlockComments_cons (by simp), dropBlockComments_cons (by simp), hpass,
    dropLineComments_open, List.dropWhile_append_of_pos hinside, hstop]
  rfl

/-- Where a block comment that is open at the end of a text is closed behind it, the text is not
left as it is. -/
theorem stripComments_ne_of_open {s : Text} (hdash : ¬ ['-', '-'] <:+: s)
    (hopen : ['/', '*'] <:+: s) (hclosing : ['*', '/'] <:+: rest) (u : Text) :
    stripComments (s ++ rest) ≠ s ++ u := by
  induction s with
  | nil => simp at hopen
  | cons c s ih =>
      rw [pair_infix_cons, not_or] at hdash
      by_cases hmark : c = '/' ∧ s.head? = some '*'
      · obtain ⟨rfl, hhead⟩ := hmark
        obtain ⟨r, rfl⟩ := List.head?_eq_some_iff.mp hhead
        have hclosed : afterClosing? (r ++ rest) ≠ none := by
          rw [Ne, afterClosing?_eq_none_iff, not_not]
          exact pair_infix_append.mpr (.inr (.inr hclosing))
        obtain ⟨v, hv⟩ := Option.ne_none_iff_exists'.mp hclosed
        rw [stripComments, List.cons_append, List.cons_append, dropBlockComments_closed hv,
          dropLineComments_cons (by simp)]
        simp
      · have hlater : ['/', '*'] <:+: s := (pair_infix_cons.mp hopen).resolve_left hmark
        have hhead : (s ++ rest).head? = s.head? := by
          cases s with
          | nil => simp at hlater
          | cons d s => rfl
        rw [List.cons_append, stripComments_code]
        · exact fun h => ih hdash.2 hlater (List.cons.inj h).2
        · rw [hhead]
          exact fun hc h => hdash.1 ⟨hc, h⟩
        · rw [hhead]
          exact fun hc h => hmark ⟨hc, h⟩

end

/-! ### All lexemes -/

theorem stripComments_written {lexeme : Lexeme} {rest : Text} (hends : lexeme.EndsBefore rest)
    (hline : lexeme.LineHarmless rest) (hliteral : lexeme.LiteralHarmless rest) :
    stripComments (lexeme.written ++ rest) = lexeme.kept ++ stripComments rest := by
  cases lexeme with
  | code c => exact stripComments_code hends.2.1 hends.2.2
  | literal content => exact stripComments_literal hliteral.1 hliteral.2
  | lineComment content => exact stripComments_lineComment hends.1 hends.2 hline
  | blockComment content =>
      rw [stripComments, Lexeme.written, dropBlockComments_blockComment hends,
        dropLineComments_cons (by simp)]
      rfl

theorem literalHarmless_of_stripComments {lexeme : Lexeme} {rest u : Text}
    (h : stripComments (lexeme.written ++ rest) = lexeme.kept ++ u) :
    lexeme.LiteralHarmless rest := by
  cases lexeme with
  | literal content =>
      have hstripped : Stripped (literal content) := by
        have hall := stripped_stripComments (literal content ++ rest)
        have hpart : literal content <:+: stripComments (literal content ++ rest) :=
          ⟨[], u, h.symm⟩
        refine ⟨fun hdash => hall.1 (hdash.trans hpart), ?_⟩
        rintro ⟨inner, hinner⟩
        exact hall.2 ⟨inner, hinner.trans hpart⟩
      exact ⟨hstripped, fun hopen hclosing =>
        stripComments_ne_of_open hstripped.1 hopen hclosing u h⟩
  | _ => trivial

theorem stripComments_flatMap_written {ts : List Lexeme} (hends : Throughout Lexeme.EndsBefore ts)
    (hlines : Throughout Lexeme.LineHarmless ts) :
    stripComments (ts.flatMap Lexeme.written) = ts.flatMap Lexeme.kept ↔
      Throughout Lexeme.LiteralHarmless ts := by
  induction ts with
  | nil => exact iff_of_true (stripComments_eq_self ⟨by simp, by simp⟩) trivial
  | cons lexeme ts ih =>
      rw [List.flatMap_cons, List.flatMap_cons, Throughout, ← ih hends.2 hlines.2]
      constructor
      · intro h
        have hlexeme := literalHarmless_of_stripComments h
        rw [stripComments_written hends.1 hlines.1 hlexeme] at h
        exact ⟨hlexeme, List.append_cancel_left h⟩
      · rintro ⟨hlexeme, hrest⟩
        rw [stripComments_written hends.1 hlines.1 hlexeme, hrest]

/-- Where each literal and each block comment is closed and no line comment opens a block comment
that is closed behind it, stripping leaves what reading from left to right leaves, and does so
exactly if no mark in a literal is part of a comment. -/
theorem stripComments_eq_kept_iff {s : Text} {ts : List Lexeme} (hts : lexemes? s = some ts)
    (hlines : Throughout Lexeme.LineHarmless ts) :
    stripComments s = ts.flatMap Lexeme.kept ↔ Throughout Lexeme.LiteralHarmless ts := by
  obtain ⟨rfl, hends⟩ := lexemes?_eq_some_iff.mp hts
  exact stripComments_flatMap_written hends hlines

theorem stripComments_eq_kept_of_marks :
    lexemes? "'a''*/'--/* b */'\n/* '-- */1".toList =
      some [.literal "a'*/".toList, .lineComment "/* b */'".toList, .code '\n',
        .blockComment " '-- ".toList, .code '1'] ∧
    stripComments "'a''*/'--/* b */'\n/* '-- */1".toList = "'a''*/'\n 1".toList := by
  have hts : lexemes? "'a''*/'--/* b */'\n/* '-- */1".toList =
      some [.literal "a'*/".toList, .lineComment "/* b */'".toList, .code '\n',
        .blockComment " '-- ".toList, .code '1'] := by
    decide +kernel
  have hline : ¬ ['/', '*'] <:+: dropBlockComments "/* b */'".toList := by decide +kernel
  have hliteral : Unmarked (literal "a'*/".toList) := ⟨by decide, by decide⟩
  have hstripped : Stripped (literal "a'*/".toList) :=
    ⟨hliteral.1, fun h => hliteral.2 (infix_of_holdsBlockComment h)⟩
  have hkept := (stripComments_eq_kept_iff hts
    ⟨trivial, fun h => absurd h hline, trivial, trivial, trivial, trivial⟩).mpr
    ⟨⟨hstripped, fun h => absurd h hliteral.2⟩, trivial, trivial, trivial, trivial, trivial⟩
  exact ⟨hts, hkept⟩

/-- A line comment is seen in a literal, and a block comment from one line comment to another: the
end of the literal is lost, and so is the line between the line comments. -/
theorem stripComments_ne_kept :
    (lexemes? "SELECT 'a--b', 1".toList).map (·.flatMap Lexeme.kept) =
      some "SELECT 'a--b', 1".toList ∧
    stripComments "SELECT 'a--b', 1".toList = "SELECT 'a".toList ∧
    (lexemes? "-- /*\nSELECT 1\n-- */\n".toList).map (·.flatMap Lexeme.kept) =
      some "\nSELECT 1\n\n".toList ∧
    stripComments "-- /*\nSELECT 1\n-- */\n".toList = "\n".toList := by
  decide +kernel

end ProcCatalog.Sql
