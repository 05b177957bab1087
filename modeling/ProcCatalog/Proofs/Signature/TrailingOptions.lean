import ProcCatalog.Proofs.Signature.Written

/-!
# Options behind a parameter list

Clauses of options are written behind the parameters. Where the search for them could begin inside
the parameters, it fails: the text from there on would need an even number of quotes, a first word
made of word characters alone, and a second one that begins like an option.
-/

namespace ProcCatalog.Signature

open Pattern
open Text (Token)

inductive ProcedureOption where
  | recompile
  | encryption
  | nativeCompilation
  | schemaBinding
  | executeAs (user : Token Text.isWord)

def ProcedureOption.write : ProcedureOption → Text
  | .recompile => "RECOMPILE".toList
  | .encryption => "ENCRYPTION".toList
  | .nativeCompilation => "NATIVE_COMPILATION".toList
  | .schemaBinding => "SCHEMABINDING".toList
  | .executeAs user => "EXECUTE AS ".toList ++ user.text

inductive Clause where
  | options (first : ProcedureOption) (further : List ProcedureOption)
  | forReplication

def Clause.write : Clause → Text
  | .options first further =>
      " WITH ".toList ++ (first.write ++ (further.map fun o => ", ".toList ++ o.write).flatten)
  | .forReplication => " FOR REPLICATION".toList

def writeClauses (clauses : List Clause) : Text := (clauses.map (·.write)).flatten

/-! ## Comments and blanks in clauses -/

namespace ProcedureOption

theorem closed_write (o : ProcedureOption) : Sql.Closed o.write := by
  cases o with
  | executeAs user =>
      have hstart : Sql.Closed "EXECUTE AS ".toList := .of_all rfl
      exact hstart.append (closed_of_mild (user.forall_of fun _ => mild_of_isWord))
  | _ => exact .of_all rfl

theorem solid_write (o : ProcedureOption) : Text.Solid o.write := by
  cases o with
  | executeAs user =>
      refine .append_of_ne_nil _ (.of_forall ?_) user.nonempty
      exact user.forall_of fun _ hx => (mild_of_isWord hx).notBlank
  | _ => exact fun x hx => by cases hx; rfl

theorem write_ne_nil (o : ProcedureOption) : o.write ≠ [] := by
  cases o with
  | executeAs user => exact List.append_ne_nil_of_right_ne_nil _ user.nonempty
  | _ => decide

end ProcedureOption

theorem Clause.closed_write (c : Clause) : Sql.Closed c.write := by
  cases c with
  | options first further =>
      have hstart : Sql.Closed " WITH ".toList := .of_all rfl
      have hcomma : Sql.Closed ", ".toList := .of_all rfl
      refine hstart.append (first.closed_write.append (.flatten fun t ht => ?_))
      obtain ⟨o, -, rfl⟩ := List.mem_map.mp ht
      exact hcomma.append o.closed_write
  | forReplication => exact .of_all rfl

private theorem solid_further (further : List ProcedureOption) :
    Text.Solid (further.map fun o => ", ".toList ++ o.write).flatten := by
  induction further with
  | nil => exact fun x hx => by simp at hx
  | cons o further ih =>
      exact .append (.append_of_ne_nil _ o.solid_write o.write_ne_nil) ih

theorem Clause.solid_write (c : Clause) : Text.Solid c.write := by
  cases c with
  | options first further =>
      exact .append_of_ne_nil _ (first.solid_write.append (solid_further further))
        (by simp [first.write_ne_nil])
  | forReplication => exact fun x hx => by cases hx; rfl

theorem closed_writeClauses (clauses : List Clause) : Sql.Closed (writeClauses clauses) := by
  refine .flatten fun t ht => ?_
  obtain ⟨c, -, rfl⟩ := List.mem_map.mp ht
  exact c.closed_write

theorem solid_writeClauses (clauses : List Clause) : Text.Solid (writeClauses clauses) := by
  induction clauses with
  | nil => exact fun x hx => by simp [writeClauses] at hx
  | cons c clauses ih => exact c.solid_write.append ih

/-! ## Written clauses are met -/

variable {before : Option Char} {u rest : Text}

private theorem spans_blanks1_space : blanks1.Spans before [' '] rest :=
  spans_many1.mpr ⟨by simp, by simp⟩

private theorem spans_keyword_self (letters : String) :
    (keyword letters).Spans before letters.toList rest :=
  spans_keyword_iff.mpr (spells_self _)

theorem ProcedureOption.spans_write (o : ProcedureOption) :
    optionWord.Spans before o.write rest := by
  cases o with
  | recompile => exact .inl (spans_keyword_self "RECOMPILE")
  | encryption => exact .inr (.inl (spans_keyword_self "ENCRYPTION"))
  | nativeCompilation => exact .inr (.inr (.inl (spans_keyword_self "NATIVE_COMPILATION")))
  | schemaBinding => exact .inr (.inr (.inr (.inl (spans_keyword_self "SCHEMABINDING"))))
  | executeAs user =>
      have hwrite : (ProcedureOption.executeAs user).write =
          "EXEC".toList ++ ("UTE".toList ++ ([' '] ++ ("AS".toList ++ ([' '] ++ user.text)))) :=
        rfl
      rw [hwrite]
      refine .inr (.inr (.inr (.inr (.inl ?_))))
      refine .cons (spans_keyword_self "EXEC") (.cons (.inl (spans_keyword_self "UTE")) ?_)
      refine .cons spans_blanks1_space (.cons (spans_keyword_self "AS") ?_)
      refine .cons spans_blanks1_space (.last (.inr ?_))
      exact spans_many1.mpr ⟨user.nonempty, user.accepted⟩

private theorem spans_further (further : List ProcedureOption) :
    (Pattern.repeated (all [blanks, char ',', blanks, optionWord])).Spans before
      (further.map fun o => ", ".toList ++ o.write).flatten rest := by
  induction further generalizing before with
  | nil => exact .done _ _
  | cons o further ih =>
      refine Rounds.more (u := [','] ++ ([' '] ++ o.write)) (by simp) ?_ ih
      refine Spans.cons (v := []) (spans_many.mpr (by simp)) ?_
      refine .cons (spans_char.mpr rfl) (.cons (spans_many.mpr (by simp)) ?_)
      exact .last o.spans_write

theorem Clause.spans_write (c : Clause) : optionClause.Spans before c.write rest := by
  cases c with
  | options first further =>
      have hwrite : (Clause.options first further).write = [' '] ++ ("WITH".toList ++ ([' '] ++
          (first.write ++ (further.map fun o => ", ".toList ++ o.write).flatten))) := rfl
      rw [hwrite]
      refine .inl (.cons spans_blanks1_space (.cons (spans_keyword_self "WITH") ?_))
      exact .cons spans_blanks1_space (.cons first.spans_write (.last (spans_further further)))
  | forReplication =>
      have hwrite : Clause.forReplication.write =
          [' '] ++ ("FOR".toList ++ ([' '] ++ "REPLICATION".toList)) := rfl
      rw [hwrite]
      refine .inr (.cons spans_blanks1_space (.cons (spans_keyword_self "FOR") ?_))
      exact .cons spans_blanks1_space (.last (spans_keyword_self "REPLICATION"))

private theorem spans_clauses (clauses : List Clause) :
    (Pattern.repeated optionClause).Spans before (writeClauses clauses) rest := by
  induction clauses generalizing before with
  | nil => exact .done _ _
  | cons c clauses ih =>
      refine Rounds.more ?_ c.spans_write ih
      cases c <;> exact List.cons_ne_nil _ _

theorem begins_writeClauses (c : Clause) (clauses : List Clause) :
    trailingOptions.Begins before (writeClauses (c :: clauses)) := by
  have hwrite : writeClauses (c :: clauses) = c.write ++ (writeClauses clauses ++ ([] ++ [])) := by
    simp [writeClauses]
  refine ⟨writeClauses (c :: clauses), [], by simp, ?_⟩
  rw [hwrite]
  refine .cons c.spans_write (.cons (spans_clauses clauses) ?_)
  exact .cons (spans_many.mpr (by simp)) (.last ⟨rfl, .inl rfl⟩)

/-! ## What a clause needs -/

/-- The words that an option can begin with. -/
def openings : List String :=
  ["RECOMPILE", "ENCRYPTION", "NATIVE_COMPILATION", "SCHEMABINDING", "EXEC", "REPLICATION"]

def opensOption (s : Text) : Bool := openings.any fun letters => spelledAt letters.toList s

/-- A first word of word characters and a second that begins like an option, both behind blanks. -/
def TwoWords (s : Text) : Prop :=
  ∃ gap word gap' rest, s = gap ++ (word ++ (gap' ++ rest)) ∧
    (gap ≠ [] ∧ ∀ x ∈ gap, Text.isBlank x = true) ∧
    (word ≠ [] ∧ ∀ x ∈ word, Text.isWord x = true) ∧
    (gap' ≠ [] ∧ ∀ x ∈ gap', Text.isBlank x = true) ∧ opensOption rest = true

theorem TwoWords.ne_nil {s : Text} (h : TwoWords s) : s ≠ [] := by
  obtain ⟨gap, word, gap', rest, rfl, ⟨hgap, -⟩, -⟩ := h
  simp [hgap]

private theorem opensOption_append {letters : String} (hmem : letters ∈ openings) {u : Text}
    (h : Spells letters.toList u) (s : Text) : opensOption (u ++ s) = true :=
  List.any_eq_true.mpr ⟨letters, hmem, spelledAt_append h s⟩

private theorem opensOption_of_spans {s : Text} (h : optionWord.Spans before u rest) :
    opensOption (u ++ s) = true := by
  rcases h with h | h | h | h | h | h
  · exact opensOption_append (by simp [openings]) (spans_keyword_iff.mp h) s
  · exact opensOption_append (by simp [openings]) (spans_keyword_iff.mp h) s
  · exact opensOption_append (by simp [openings]) (spans_keyword_iff.mp h) s
  · exact opensOption_append (by simp [openings]) (spans_keyword_iff.mp h) s
  · obtain ⟨v, w, rfl, h, -⟩ := h
    rw [List.append_assoc]
    exact opensOption_append (by simp [openings]) (spans_keyword_iff.mp h) (w ++ s)
  · exact absurd h spans_any_nil

private theorem twoWords_of_spans {letters : String} {second : List Pattern} {s : Text}
    (hne : letters.toList ≠ []) (hletters : letters.toList.all Text.isWord = true)
    (hsecond : ∀ b w r, (all second).Spans b w r → opensOption (w ++ s) = true)
    (h : (all (blanks1 :: keyword letters :: blanks1 :: second)).Spans before u rest) :
    TwoWords (u ++ s) := by
  obtain ⟨gap, _, rfl, hgap, word, _, rfl, hword, gap', w, rfl, hgap', hw⟩ := h
  have hspells : Spells letters.toList word := spans_keyword_iff.mp hword
  refine ⟨gap, word, gap', w ++ s, by simp, spans_many1.mp hgap, ⟨?_, hspells.isWord hletters⟩,
    spans_many1.mp hgap', hsecond _ _ _ hw⟩
  rintro rfl
  exact hne (List.forall₂_nil_right_iff.mp hspells)

theorem twoWords_of_begins {s : Text} (h : trailingOptions.Begins before s) : TwoWords s := by
  obtain ⟨_, v, rfl, u, w, rfl, hclause, -⟩ := h
  rw [List.append_assoc]
  rcases hclause with hclause | hclause
  · refine twoWords_of_spans (by decide) rfl (fun b w' r h => ?_) hclause
    obtain ⟨u, u', rfl, hword, -⟩ := h
    rw [List.append_assoc]
    exact opensOption_of_spans hword
  · refine twoWords_of_spans (by decide) rfl (fun b w' r h => ?_) hclause
    obtain ⟨u, u', rfl, hword, -⟩ := h
    rw [List.append_assoc]
    exact opensOption_append (by simp [openings]) (spans_keyword_iff.mp hword) _

/-! ## Quotes in clauses -/

def EvenQuotes (s : Text) : Prop := Even (s.count Sql.quoteMark)

theorem EvenQuotes.append {s t : Text} (hs : EvenQuotes s) (ht : EvenQuotes t) :
    EvenQuotes (s ++ t) := by
  rw [EvenQuotes, List.count_append]
  exact Even.add hs ht

theorem evenQuotes_of_forall {s : Text} (h : ∀ x ∈ s, x ≠ Sql.quoteMark) : EvenQuotes s := by
  rw [EvenQuotes, List.count_eq_zero.mpr fun hmem => h _ hmem rfl]
  exact Even.zero

theorem evenQuotes_of_all {s : Text} (h : s.all (· != Sql.quoteMark) = true) : EvenQuotes s :=
  evenQuotes_of_forall (by simpa using h)

private theorem evenQuotes_of_isWord {s : Text} (h : ∀ x ∈ s, Text.isWord x = true) :
    EvenQuotes s := by
  refine evenQuotes_of_forall fun x hx => ?_
  rintro rfl
  exact absurd (h _ hx) (by decide)

private theorem evenQuotes_of_isBlank {s : Text} (h : ∀ x ∈ s, Text.isBlank x = true) :
    EvenQuotes s := by
  refine evenQuotes_of_forall fun x hx => ?_
  rintro rfl
  exact absurd (h _ hx) (by simp [Text.isBlank, Sql.quoteMark])

/-- Every span of the pattern holds an even number of quotes. -/
def KeepsQuotes (p : Pattern) : Prop := ∀ b u r, p.Spans b u r → EvenQuotes u

namespace KeepsQuotes

theorem keyword {letters : String} (h : letters.toList.all Text.isWord = true) :
    KeepsQuotes (Pattern.keyword letters) := fun _ _ _ hspan =>
  evenQuotes_of_isWord ((spans_keyword_iff.mp hspan).isWord h)

theorem blanks : KeepsQuotes Pattern.blanks := fun _ _ _ hspan => evenQuotes_of_isBlank hspan

theorem blanks1 : KeepsQuotes Pattern.blanks1 := fun _ _ _ hspan =>
  evenQuotes_of_isBlank (spans_many1.mp hspan).2

theorem word1 : KeepsQuotes Pattern.word1 := fun _ _ _ hspan =>
  evenQuotes_of_isWord (spans_many1.mp hspan).2

theorem char {c : Char} (h : c ≠ Sql.quoteMark) : KeepsQuotes (Pattern.char c) := by
  intro b u r hspan
  rw [spans_char.mp hspan]
  exact evenQuotes_of_forall (by simpa using h)

theorem textEnd : KeepsQuotes .textEnd := by
  rintro b u r ⟨rfl, -⟩
  exact evenQuotes_of_forall (by simp)

theorem alt {p q : Pattern} (hp : KeepsQuotes p) (hq : KeepsQuotes q) : KeepsQuotes (.alt p q) :=
  fun b u r hspan => hspan.elim (hp b u r) (hq b u r)

theorem option {p : Pattern} (hp : KeepsQuotes p) : KeepsQuotes (Pattern.option p) := by
  rintro b u r (hspan | rfl)
  · exact hp b u r hspan
  · exact evenQuotes_of_forall (by simp)

theorem nil : KeepsQuotes (all []) := by
  rintro b u r rfl
  exact evenQuotes_of_forall (by simp)

theorem cons {p : Pattern} {ps : List Pattern} (hp : KeepsQuotes p) (hps : KeepsQuotes (all ps)) :
    KeepsQuotes (all (p :: ps)) := by
  rintro b _ r ⟨v, w, rfl, hv, hw⟩
  exact (hp _ _ _ hv).append (hps _ _ _ hw)

theorem none : KeepsQuotes (any []) := fun _ _ _ hspan => absurd hspan spans_any_nil

theorem repeated {p : Pattern} (h : KeepsQuotes p) : KeepsQuotes (.repeated p) :=
  fun _ _ _ hspan => Rounds.of_each (evenQuotes_of_forall (by simp))
    (fun _ _ hv hw => EvenQuotes.append hv hw) h hspan

end KeepsQuotes

private theorem keepsQuotes_quoted : KeepsQuotes
    (all [char Sql.quoteMark, .many (· != Sql.quoteMark), char Sql.quoteMark]) := by
  rintro b _ r ⟨v, _, rfl, hv, w, _, rfl, hw, x, _, rfl, hx, rfl⟩
  rw [spans_char.mp hv, spans_char.mp hx]
  have hinner : w.count Sql.quoteMark = 0 :=
    List.count_eq_zero.mpr fun hmem => by simpa using hw _ hmem
  simp [EvenQuotes, List.count_append, hinner]

theorem keepsQuotes_optionWord : KeepsQuotes optionWord := by
  refine .alt (.keyword rfl) (.alt (.keyword rfl) (.alt (.keyword rfl) (.alt (.keyword rfl) ?_)))
  refine .alt (.cons (.keyword rfl) (.cons (.option (.keyword rfl)) (.cons .blanks1 ?_))) .none
  exact .cons (.keyword rfl) (.cons .blanks1 (.cons (.alt keepsQuotes_quoted .word1) .nil))

theorem keepsQuotes_optionClause : KeepsQuotes optionClause := by
  have hfurther : KeepsQuotes (.repeated (all [blanks, char ',', blanks, optionWord])) :=
    .repeated (.cons .blanks (.cons (.char (by decide)) (.cons .blanks
      (.cons keepsQuotes_optionWord .nil))))
  refine .alt (.cons .blanks1 (.cons (.keyword rfl) (.cons .blanks1 ?_)))
    (.cons .blanks1 (.cons (.keyword rfl) (.cons .blanks1 (.cons (.keyword rfl) .nil))))
  exact .cons keepsQuotes_optionWord (.cons hfurther .nil)

theorem evenQuotes_of_begins {s : Text} (h : trailingOptions.Begins before s) : EvenQuotes s := by
  have hspans : KeepsQuotes trailingOptions :=
    .cons keepsQuotes_optionClause (.cons (.repeated keepsQuotes_optionClause)
      (.cons .blanks (.cons .textEnd .nil)))
  obtain ⟨u, v, rfl, hspan⟩ := h
  refine (hspans _ _ _ hspan).append (evenQuotes_of_forall ?_)
  obtain ⟨_, _, -, -, _, _, -, -, _, _, -, -, _, _, -, ⟨-, hend⟩, rfl⟩ := hspan
  rcases hend with rfl | rfl
  · simp
  · simp [Sql.quoteMark]

/-! ## Where no clause begins -/

private theorem isBlank_head_of_opensOption {s : Text} (h : opensOption s = true) :
    ∀ x ∈ s.head?, Text.isBlank x = false := by
  obtain ⟨letters, hmem, hspelled⟩ := List.any_eq_true.mp h
  have hwords : ∀ letters ∈ openings, letters.toList.all Text.isWord = true ∧
      letters.toList ≠ [] := by
    decide +kernel
  obtain ⟨hall, hne⟩ := hwords letters hmem
  intro x hx
  cases hs : s with
  | nil => simp [hs] at hx
  | cons y s' =>
      obtain rfl : y = x := by simpa [hs] using hx
      cases hletters : letters.toList with
      | nil => exact absurd hletters hne
      | cons a as =>
          rw [hletters, hs, spelledAt, Bool.and_eq_true] at hspelled
          rw [hletters, List.all_cons, Bool.and_eq_true] at hall
          apply Text.isBlank_eq_false_of_isWord
          rw [Text.isWord_eq_of_sameLetter hspelled.1, hall.1]

/-- A clause begins with a blank, and its two words are found between runs of blanks. -/
theorem TwoWords.cut {s : Text} (h : TwoWords s) :
    (∀ x ∈ s.head?, Text.isBlank x = true) ∧
      (∀ x ∈ (Text.trimStart s).takeWhile Text.notBlank, Text.isWord x = true) ∧
      opensOption (Text.trimStart ((Text.trimStart s).dropWhile Text.notBlank)) = true := by
  obtain ⟨gap, word, gap', rest, rfl, ⟨hgap, hgapBlank⟩, ⟨hword, hwordWord⟩,
    ⟨hgap', hgapBlank'⟩, hopens⟩ := h
  have hwordBlank : ∀ x ∈ word, Text.isBlank x = false := fun x hx =>
    Text.isBlank_eq_false_of_isWord (hwordWord x hx)
  have hgapHead := Text.forall_head?_append rest hgap' hgapBlank'
  have hstart : Text.trimStart (gap ++ (word ++ (gap' ++ rest))) = word ++ (gap' ++ rest) :=
    Text.trimStart_append hgapBlank (Text.forall_head?_append _ hword hwordBlank)
  refine ⟨Text.forall_head?_append _ hgap hgapBlank, ?_, ?_⟩
  · rwa [hstart, Text.takeWhile_notBlank_append hwordBlank hgapHead]
  · rwa [hstart, Text.dropWhile_notBlank_append hwordBlank hgapHead,
      Text.trimStart_append hgapBlank' (isBlank_head_of_opensOption hopens)]

theorem not_begins_of_not_blank {x : Char} (hx : Text.isBlank x = false) (s : Text) :
    ¬ trailingOptions.Begins before (x :: s) := by
  intro h
  have hblank := (twoWords_of_begins h).cut.1 x rfl
  simp [hx] at hblank

private theorem trimStart_space_append {w s : Text} (hw : ∀ y ∈ w, Text.isBlank y = false)
    (hne : w ≠ []) : Text.trimStart (' ' :: (w ++ s)) = w ++ s :=
  Text.trimStart_append (u := [' ']) (by simp) (Text.forall_head?_append s hne hw)

/-- The first word would hold a character that is no word character. -/
theorem not_begins_of_mark {a : Text} {x : Char} (ha : ∀ y ∈ a, Text.isBlank y = false)
    (hx : Text.isBlank x = false) (hword : Text.isWord x = false) (s : Text) :
    ¬ trailingOptions.Begins before (' ' :: (a ++ x :: s)) := by
  intro h
  have hblank : ∀ y ∈ a ++ [x], Text.isBlank y = false := by
    simpa [or_imp, forall_and] using ⟨ha, hx⟩
  have hfirst := (twoWords_of_begins h).cut.2.1
  rw [show a ++ x :: s = (a ++ [x]) ++ s by simp, trimStart_space_append hblank (by simp),
    List.takeWhile_append_of_pos (by simpa [Text.notBlank] using hblank)] at hfirst
  have hmem := hfirst x (by simp)
  simp [hword] at hmem

/-- What follows a word and makes sure that no clause begins in front of that word. -/
def Blocks (s : Text) : Prop :=
  s = [] ∨ (∃ t, s = ',' :: t) ∨
    ∃ x t, s = ' ' :: x :: t ∧ Text.isBlank x = false ∧ opensOption (x :: t) = false

theorem not_begins_of_blocks {w s : Text} (hw : ∀ y ∈ w, Text.isBlank y = false) (hne : w ≠ [])
    (hs : Blocks s) : ¬ trailingOptions.Begins before (' ' :: (w ++ s)) := by
  intro h
  have hsecond := (twoWords_of_begins h).cut.2.2
  rw [trimStart_space_append hw hne] at hsecond
  rcases hs with rfl | ⟨t, rfl⟩ | ⟨x, t, rfl, hx, hopens⟩
  · rw [Text.dropWhile_notBlank_append hw (by simp)] at hsecond
    exact absurd hsecond (by decide)
  · exact not_begins_of_mark hw rfl rfl t h
  · have hstart : Text.trimStart ([' '] ++ x :: t) = x :: t :=
      Text.trimStart_append (by simp) (by simpa using hx)
    rw [Text.dropWhile_notBlank_append hw (by simp)] at hsecond
    exact absurd (hsecond.symm.trans ((congrArg opensOption hstart).trans hopens)) (by simp)

/-! ## No clause begins in a declaration -/

theorem avoids_of_not_blank {s rest : Text} (h : ∀ x ∈ s, Text.isBlank x = false) :
    trailingOptions.Avoids before s rest := by
  rintro a b rfl hne
  cases b with
  | nil => exact absurd rfl hne
  | cons x b => exact not_begins_of_not_blank (h x (by simp)) _

theorem avoids_word {w rest : Text} (hw : ∀ y ∈ w, Text.isBlank y = false) (hne : w ≠ [])
    (hrest : Blocks rest) : trailingOptions.Avoids before (' ' :: w) rest :=
  avoids_cons.mpr ⟨not_begins_of_blocks hw hne hrest, avoids_of_not_blank hw⟩

/-- In a literal, too many quotes would be left over. -/
theorem avoids_literal {content rest : Text} (hrest : EvenQuotes rest) :
    trailingOptions.Avoids before (Sql.literal content) rest := by
  refine avoids_cons.mpr ⟨not_begins_of_not_blank rfl _, ?_⟩
  intro a b hab hne hbegins
  rcases Sql.quotes_behind_cut hab hne with hhead | hodd
  · cases b with
    | nil => exact hne rfl
    | cons x b =>
        obtain rfl : x = Sql.quoteMark := by simpa using hhead
        exact not_begins_of_not_blank rfl _ hbegins
  · have heven := evenQuotes_of_begins hbegins
    rw [EvenQuotes, List.count_append] at heven
    exact Nat.not_even_iff_odd.mpr (hodd.add_even hrest) heven

/-- What can follow a declaration or a part of one. -/
structure Follows (s : Text) : Prop where
  blocks : Blocks s
  quotes : EvenQuotes s

/-- In a part of a declaration no clause begins, and the part may follow another one. -/
structure Passes (s : Text) : Prop where
  avoids : ∀ before rest, Follows rest → trailingOptions.Avoids before s rest
  follows : ∀ rest, Follows rest → Follows (s ++ rest)

namespace Passes

theorem nil : Passes [] := ⟨fun _ _ _ => avoids_nil _ _ _, fun _ h => h⟩

theorem append {s t : Text} (hs : Passes s) (ht : Passes t) : Passes (s ++ t) := by
  constructor
  · intro before rest hrest
    exact avoids_append.mpr ⟨hs.avoids _ _ (ht.follows rest hrest), ht.avoids _ _ hrest⟩
  · intro rest hrest
    rw [List.append_assoc]
    exact hs.follows _ (ht.follows rest hrest)

theorem keyword {x : Char} {w : Text} (hw : (x :: w).all Text.notBlank = true)
    (hquotes : (x :: w).all (· != Sql.quoteMark) = true)
    (hopens : ∀ rest, opensOption (x :: (w ++ rest)) = false) : Passes (' ' :: x :: w) := by
  have hblank : ∀ y ∈ x :: w, Text.isBlank y = false := by simpa [Text.notBlank] using hw
  have heven : EvenQuotes (' ' :: x :: w) :=
    .append (s := [' ']) (evenQuotes_of_all rfl) (evenQuotes_of_all hquotes)
  constructor
  · intro before rest hrest
    exact avoids_word hblank (by simp) hrest.blocks
  · intro rest hrest
    exact ⟨.inr (.inr ⟨x, w ++ rest, rfl, hblank x (by simp), hopens rest⟩),
      heven.append hrest.quotes⟩

end Passes

theorem passes_writeReadonly (readonly : Bool) : Passes (Declaration.writeReadonly readonly) := by
  cases readonly with
  | false => exact .nil
  | true => exact .keyword (w := "EADONLY".toList) rfl rfl fun _ => rfl

theorem passes_writeDirection (direction : Direction) :
    Passes (Declaration.writeDirection direction) := by
  cases direction with
  | input => exact .nil
  | output => exact .keyword (w := "UTPUT".toList) rfl rfl fun _ => rfl

theorem evenQuotes_writeDefault (v : Default) : EvenQuotes v.write := by
  cases v with
  | word negative numeral =>
      refine .append ?_ (evenQuotes_of_forall ?_)
      · cases negative <;> exact evenQuotes_of_all rfl
      · exact numeral.forall_of fun _ hx => (mild_of_isNumeralChar hx).ne_quoteMark
  | literal national content unmarked =>
      refine .append ?_ (Sql.even_count_literal content)
      cases national <;> exact evenQuotes_of_all rfl

private theorem avoids_default (v : Default) {before : Option Char} {rest : Text}
    (hrest : Follows rest) : trailingOptions.Avoids before (' ' :: v.write) rest := by
  cases v with
  | word negative numeral =>
      refine avoids_word Default.isBlank_write_word ?_ hrest.blocks
      simp [Default.write, numeral.nonempty]
  | literal national content unmarked =>
      have hnational : ∀ y ∈ (if national then ['N'] else [] : Text), Text.isBlank y = false := by
        cases national <;> simp [show Text.isBlank 'N' = false from rfl]
      refine avoids_cons.mpr ⟨?_, avoids_append.mpr ⟨avoids_of_not_blank hnational, ?_⟩⟩
      · rw [Default.write, List.append_assoc]
        exact not_begins_of_mark hnational rfl rfl _
      · exact avoids_literal hrest.quotes

theorem passes_writeDefault (default : Option Default) :
    Passes (Declaration.writeDefault default) := by
  cases default with
  | none => exact .nil
  | some v =>
      constructor
      · intro before rest hrest
        refine avoids_cons.mpr ⟨?_, avoids_cons.mpr ⟨?_, avoids_default v hrest⟩⟩
        · exact not_begins_of_mark (a := []) (by simp) rfl rfl _
        · exact not_begins_of_not_blank rfl _
      · intro rest hrest
        refine ⟨.inr (.inr ⟨'=', ' ' :: (v.write ++ rest), rfl, rfl, rfl⟩), ?_⟩
        have hsign : EvenQuotes " = ".toList := evenQuotes_of_all rfl
        exact (hsign.append (evenQuotes_writeDefault v)).append hrest.quotes

theorem passes_writeTail (d : Declaration) : Passes d.writeTail :=
  (passes_writeDefault d.default).append
    ((passes_writeDirection d.direction).append (passes_writeReadonly d.readonly))

theorem evenQuotes_write (d : Declaration) {rest : Text} (hrest : Follows rest) :
    EvenQuotes (d.write ++ rest) := by
  have hname : EvenQuotes ('@' :: d.name.text) := by
    refine .append (s := ['@']) (evenQuotes_of_all rfl) (evenQuotes_of_forall ?_)
    exact d.name.forall_of fun _ hx => (mild_of_isNameChar hx).ne_quoteMark
  have htype : EvenQuotes (' ' :: d.type.write) :=
    .append (s := [' ']) (evenQuotes_of_all rfl) (evenQuotes_of_forall d.type.ne_quoteMark_write)
  have htail := ((passes_writeTail d).follows rest hrest).quotes
  have := hname.append (htype.append htail)
  simpa [Declaration.write] using this

theorem avoids_write (d : Declaration) {before : Option Char} {rest : Text}
    (hrest : Follows rest) : trailingOptions.Avoids before d.write rest := by
  have htail := passes_writeTail d
  have hname : ∀ y ∈ '@' :: d.name.text, Text.isBlank y = false := by
    intro y hy
    rcases List.mem_cons.mp hy with rfl | hy
    · rfl
    · exact (mild_of_isNameChar (d.name.accepted y hy)).notBlank
  have hwrite : d.write = ('@' :: d.name.text) ++ ((' ' :: d.type.write) ++ d.writeTail) := by
    simp [Declaration.write]
  rw [hwrite]
  refine avoids_append.mpr ⟨avoids_of_not_blank hname, avoids_append.mpr ⟨?_, ?_⟩⟩
  · exact avoids_word d.type.isBlank_write d.type.write_ne_nil (htail.follows rest hrest).blocks
  · exact htail.avoids _ rest hrest

/-! ## Finding the clauses -/

theorem follows_writeClauses (clauses : List Clause) : Follows (writeClauses clauses) := by
  constructor
  · cases clauses with
    | nil => exact .inl rfl
    | cons c clauses =>
        cases c with
        | options first further => exact .inr (.inr ⟨'W', _, rfl, rfl, rfl⟩)
        | forReplication => exact .inr (.inr ⟨'F', _, rfl, rfl, rfl⟩)
  · induction clauses with
    | nil => exact evenQuotes_of_all rfl
    | cons c clauses ih =>
        exact .append (keepsQuotes_optionClause none _ [] c.spans_write) ih

theorem avoids_writeList (before : Option Char) (d : Declaration) (ds : List Declaration)
    {rest : Text} (hrest : Follows rest) :
    trailingOptions.Avoids before (writeList (d :: ds)) rest ∧
      EvenQuotes (writeList (d :: ds) ++ rest) := by
  induction ds generalizing d before with
  | nil =>
      rw [writeList_singleton]
      exact ⟨avoids_write d hrest, evenQuotes_write d hrest⟩
  | cons e ds ih =>
      obtain ⟨s, hs⟩ := exists_writeList_eq_cons e ds
      have hcomma : Follows ([',', ' '] ++ (writeList (e :: ds) ++ rest)) := by
        refine ⟨.inr (.inl ⟨_, rfl⟩), .append (evenQuotes_of_all rfl) ?_⟩
        exact (ih none e).2
      rw [writeList_cons, List.append_assoc, List.append_assoc]
      refine ⟨avoids_append.mpr ⟨?_, avoids_append.mpr ⟨?_, (ih _ e).1⟩⟩, evenQuotes_write d hcomma⟩
      · rw [List.append_assoc]
        exact avoids_write d hcomma
      · refine avoids_cons.mpr ⟨not_begins_of_not_blank rfl _, avoids_cons.mpr ⟨?_, ?_⟩⟩
        · rw [hs]
          exact not_begins_of_mark (a := []) (by simp) rfl rfl _
        · exact avoids_nil _ _ _

/-- The clauses behind written parameters are dropped, and nothing else is. -/
theorem dropOptions_written (d : Declaration) (ds : List Declaration) (clauses : List Clause) :
    dropOptions (writeList (d :: ds) ++ writeClauses clauses) = writeList (d :: ds) := by
  have havoids := (avoids_writeList none d ds (follows_writeClauses clauses)).1
  cases clauses with
  | nil =>
      have hnone : trailingOptions.find? (writeList (d :: ds)) = none := by
        refine find?_eq_none_iff.mpr fun a b hab => ?_
        cases b with
        | nil => exact fun h => (twoWords_of_begins h).ne_nil rfl
        | cons x b => simpa [writeClauses] using havoids a (x :: b) hab (by simp)
      rw [show writeClauses [] = [] from rfl, List.append_nil, dropOptions, hnone]
  | cons c clauses =>
      obtain ⟨found, u, hfind, hfound⟩ :=
        exists_find?_append havoids (begins_writeClauses c clauses)
      have hclauses : writeClauses (c :: clauses) = u ++ found.stop.rest :=
        List.append_cancel_left hfound.text
      have hend : found.stop.rest = [] := by
        obtain ⟨_, _, -, -, _, _, -, -, _, _, -, -, _, _, -, ⟨-, hend⟩, rfl⟩ := hfound.spans
        rcases hend with hend | hend
        · simpa using hend
        · have hsolid := solid_writeClauses (c :: clauses) '\n'
          simp_all
      rw [dropOptions, hfind]
      simp [hfound.start, hend]

end ProcCatalog.Signature
