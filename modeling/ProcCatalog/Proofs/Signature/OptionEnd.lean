import ProcCatalog.Proofs.Signature.Written

/-!
# How options end a text

Read from its end, a text that clauses of options end has a last word that stands behind a comma or
behind a word of its own, or a quoted name behind AS. A text that ends otherwise has no options.
-/

namespace ProcCatalog.Signature

open Pattern
open Sql (quoteMark)
open Text (Token)

variable {before : Option Char} {a s t u v w rest : Text}

/-! ## Ends of texts -/

/-- The text ends with a blank or a comma. -/
def Separated (s : Text) : Prop := ∃ x ∈ s.getLast?, Text.isBlank x = true ∨ x = ','

/-- What can stand in front of the word of an option: a comma, or a word that is separated itself,
and blanks. -/
def Leads (s : Text) : Prop :=
  (∃ a gap, s = a ++ ',' :: gap ∧ ∀ x ∈ gap, Text.isBlank x = true) ∨
    ∃ (a : Text) (word : Token Text.isWord) (gap : Token Text.isBlank),
      s = a ++ (word.text ++ gap.text) ∧ Separated a

def optionNames : List String :=
  ["RECOMPILE", "ENCRYPTION", "NATIVE_COMPILATION", "SCHEMABINDING", "REPLICATION"]

/-- A quoted name stands behind AS. -/
def EndsQuoted (s : Text) : Prop :=
  ∃ (a word : Text) (gap : Token Text.isBlank) (content : Text),
    s = a ++ (word ++ (gap.text ++ quoteMark :: (content ++ [quoteMark]))) ∧
      Spells "AS".toList word ∧ quoteMark ∉ content

/-- The name of an option, or AS and the name of a user, ends the text. -/
def EndsWithOption (s : Text) : Prop :=
  (∃ a u, s = a ++ u ∧ Leads a ∧ ∃ letters ∈ optionNames, Spells letters.toList u) ∨
    (∃ (a word : Text) (gap : Token Text.isBlank) (user : Token Text.isWord),
      s = a ++ (word ++ (gap.text ++ user.text)) ∧ Leads a ∧ Spells "AS".toList word) ∨
    EndsQuoted s

theorem separated_of_blank (a : Text) (gap : Token Text.isBlank) : Separated (a ++ gap.text) := by
  rw [Separated, List.getLast?_append_of_ne_nil _ gap.nonempty,
    List.getLast?_eq_getLast_of_ne_nil gap.nonempty]
  exact ⟨_, rfl, .inl (gap.accepted _ (List.getLast_mem _))⟩

theorem Separated.behind (h : Separated s) (a : Text) : Separated (a ++ s) := by
  obtain ⟨x, hx, hsep⟩ := h
  have hne : s ≠ [] := by
    rintro rfl
    cases hx
  exact ⟨x, by rwa [List.getLast?_append_of_ne_nil _ hne], hsep⟩

theorem leads_comma (a : Text) {gap : Text} (h : ∀ x ∈ gap, Text.isBlank x = true) :
    Leads (a ++ ',' :: gap) := .inl ⟨a, gap, rfl, h⟩

theorem Leads.separated (h : Leads s) : Separated s := by
  rcases h with ⟨a, gap, rfl, hgap⟩ | ⟨a, word, gap, rfl, -⟩
  · by_cases hne : gap = []
    · exact ⟨',', by simp [hne], .inr rfl⟩
    · rw [List.append_cons]
      exact separated_of_blank _ ⟨gap, hne, hgap⟩
  · rw [← List.append_assoc]
    exact separated_of_blank _ gap

theorem Leads.behind (h : Leads s) (a : Text) : Leads (a ++ s) := by
  rcases h with ⟨b, gap, rfl, hgap⟩ | ⟨b, word, gap, rfl, hb⟩
  · rw [← List.append_assoc]
    exact leads_comma _ hgap
  · exact .inr ⟨a ++ b, word, gap, by simp, hb.behind a⟩

theorem EndsWithOption.behind (h : EndsWithOption s) (a : Text) : EndsWithOption (a ++ s) := by
  rcases h with ⟨b, u, rfl, hb, hu⟩ | ⟨b, word, gap, user, rfl, hb, hword⟩ |
    ⟨b, word, gap, content, rfl, hword, hcontent⟩
  · exact .inl ⟨a ++ b, u, by simp, hb.behind a, hu⟩
  · exact .inr (.inl ⟨a ++ b, word, gap, user, by simp, hb.behind a, hword⟩)
  · exact .inr (.inr ⟨a ++ b, word, gap, content, by simp, hword, hcontent⟩)

/-! ## What clauses of options end with -/

private def token (letters : String) (hne : letters.toList ≠ [])
    (hword : letters.toList.all Text.isWord = true) (h : Spells letters.toList u) :
    Token Text.isWord :=
  ⟨u, fun hu => hne (List.forall₂_nil_right_iff.mp (hu ▸ h)), h.isWord hword⟩

private def gap (h : blanks1.Spans before u rest) : Token Text.isBlank :=
  ⟨u, (spans_many1.mp h).1, (spans_many1.mp h).2⟩

theorem endsWithOption_of_optionWord (ha : Leads a) (h : optionWord.Spans before u rest) :
    EndsWithOption (a ++ u) := by
  have hname {letters : String} (hmem : letters ∈ optionNames)
      (h : (keyword letters).Spans before u rest) : EndsWithOption (a ++ u) :=
    .inl ⟨a, u, rfl, ha, letters, hmem, spans_keyword_iff.mp h⟩
  rcases h with h | h | h | h | h | h
  · exact hname (by simp [optionNames]) h
  · exact hname (by simp [optionNames]) h
  · exact hname (by simp [optionNames]) h
  · exact hname (by simp [optionNames]) h
  · obtain ⟨exec, _, rfl, hexec, ute, _, rfl, hute, gap₁, _, rfl, hgap₁, word, _, rfl, hword, gap₂,
      _, rfl, hgap₂, user, _, rfl, huser, rfl⟩ := h
    have hexec : Spells "EXEC".toList exec := spans_keyword_iff.mp hexec
    have has : Spells "AS".toList word := spans_keyword_iff.mp hword
    have hute : ∀ x ∈ ute, Text.isWord x = true := by
      rcases hute with hute | rfl
      · exact (spans_keyword_iff.mp hute).isWord rfl
      · simp
    have hfirst : Leads (a ++ (exec ++ (ute ++ gap₁))) := by
      refine .inr ⟨a, ⟨exec ++ ute, ?_, ?_⟩, gap hgap₁, by simp [gap], ha.separated⟩
      · cases hexec
        simp
      · exact List.forall_mem_append.mpr ⟨hexec.isWord rfl, hute⟩
    rcases huser with ⟨_, _, rfl, hopen, content, _, rfl, hcontent, _, _, rfl, hclose, rfl⟩ | huser
    · obtain rfl := spans_char.mp hopen
      obtain rfl := spans_char.mp hclose
      refine .inr (.inr ⟨a ++ (exec ++ (ute ++ gap₁)), word, gap hgap₂, content, ?_, has, ?_⟩)
      · simp [gap]
      · exact fun hmem => by simpa using hcontent _ hmem
    · obtain ⟨hne, huser⟩ := spans_many1.mp huser
      exact .inr (.inl ⟨a ++ (exec ++ (ute ++ gap₁)), word, gap hgap₂, ⟨user, hne, huser⟩,
        by simp [gap], hfirst, has⟩)
  · exact absurd h spans_any_nil

theorem endsWithOption_of_optionClause (a : Text) (h : optionClause.Spans before u rest) :
    EndsWithOption (a ++ u) := by
  rcases h with ⟨gap₁, _, rfl, hgap₁, word, _, rfl, hword, gap₂, _, rfl, hgap₂, option, _, rfl,
    hoption, further, _, rfl, hfurther, rfl⟩ | ⟨gap₁, _, rfl, hgap₁, word, _, rfl, hword, gap₂, _,
    rfl, hgap₂, name, _, rfl, hname, rfl⟩
  · have hword : Spells "WITH".toList word := spans_keyword_iff.mp hword
    have hlead : Leads (a ++ (gap₁ ++ (word ++ gap₂))) :=
      .inr ⟨a ++ gap₁, token "WITH" (by decide) rfl hword, gap hgap₂, by simp [token, gap],
        separated_of_blank a (gap hgap₁)⟩
    rcases Rounds.exists_last hfurther with rfl | ⟨front, last, b, rfl, blank₁, _, rfl, hblank₁,
      comma, _, rfl, hcomma, blank₂, _, rfl, hblank₂, other, _, rfl, hother, rfl⟩
    · simpa using endsWithOption_of_optionWord hlead hoption
    · obtain rfl := spans_char.mp hcomma
      have hlead := leads_comma (a ++ (gap₁ ++ (word ++ (gap₂ ++ (option ++ (front ++ blank₁))))))
        hblank₂
      simpa using endsWithOption_of_optionWord hlead hother
  · have hword : Spells "FOR".toList word := spans_keyword_iff.mp hword
    refine .inl ⟨a ++ (gap₁ ++ (word ++ gap₂)), name, by simp, ?_, "REPLICATION",
      by simp [optionNames], spans_keyword_iff.mp hname⟩
    exact .inr ⟨a ++ gap₁, token "FOR" (by decide) rfl hword, gap hgap₂, by simp [token, gap],
      separated_of_blank a (gap hgap₁)⟩

theorem endsWithOption_of_begins (h : trailingOptions.Begins before s) (hs : Text.Solid s) :
    EndsWithOption s := by
  obtain ⟨_, rest, rfl, clause, _, rfl, hclause, clauses, _, rfl, hclauses, blank, _, rfl, hblank,
    _, _, rfl, ⟨rfl, hend⟩, rfl⟩ := h
  have hblank : ∀ x ∈ blank ++ rest, Text.isBlank x = true := by
    refine List.forall_mem_append.mpr ⟨hblank, ?_⟩
    rcases hend with rfl | rfl <;> simp
  have hcut : clause ++ (clauses ++ (blank ++ ([] ++ []))) ++ rest =
      (clause ++ clauses) ++ (blank ++ rest) := by
    simp
  rw [hcut] at hs ⊢
  have hnil : blank ++ rest = [] := by
    by_contra hne
    have hlast := hs ((blank ++ rest).getLast hne) (by
      rw [List.getLast?_append_of_ne_nil _ hne, List.getLast?_eq_getLast_of_ne_nil hne]
      rfl)
    rw [hblank _ (List.getLast_mem hne)] at hlast
    cases hlast
  rw [hnil, List.append_nil]
  rcases Rounds.exists_last hclauses with rfl | ⟨front, last, b, rfl, hlast⟩
  · simpa using endsWithOption_of_optionClause [] hclause
  · simpa using endsWithOption_of_optionClause (clause ++ front) hlast

theorem dropOptions_eq_self (hs : Text.Solid s) (h : ¬ EndsWithOption s) : dropOptions s = s := by
  have hnone : trailingOptions.find? s = none := by
    refine find?_eq_none_iff.mpr ?_
    rintro a b rfl hbegins
    have hb : Text.Solid b := by
      intro x hx
      refine hs x ?_
      rwa [List.getLast?_append_of_ne_nil]
      rintro rfl
      cases hx
    exact h ((endsWithOption_of_begins hbegins hb).behind a)
  rw [dropOptions, hnone]

/-! ## Texts that do not end like that -/

/-- The last word of the text does not stand where an option could. -/
def Guarded (s : Text) : Prop :=
  ∀ (a : Text) (word : Token Text.isWord), s = a ++ word.text → ¬ Leads a

theorem not_endsWithOption (hs : Guarded s) (hquoted : ¬ EndsQuoted s) : ¬ EndsWithOption s := by
  rintro (⟨a, u, rfl, ha, letters, hmem, hletters⟩ | ⟨a, word, gap, user, rfl, ha, hword⟩ | h)
  · have hnames : ∀ letters ∈ optionNames, letters.toList ≠ [] ∧
        letters.toList.all Text.isWord = true := by
      decide +kernel
    obtain ⟨hne, hall⟩ := hnames letters hmem
    exact hs a (token letters hne hall hletters) rfl ha
  · refine hs (a ++ (word ++ gap.text)) user (by simp) ?_
    exact .inr ⟨a, token "AS" (by decide) rfl hword, gap, rfl, ha.separated⟩
  · exact hquoted h

theorem not_endsQuoted_of_getLast? (h : s.getLast? ≠ some quoteMark) : ¬ EndsQuoted s := by
  rintro ⟨a, word, gap, content, rfl, -⟩
  refine h ?_
  rw [← List.cons_append]
  simp only [← List.append_assoc, List.getLast?_concat]

theorem guarded_of_getLast? {x : Char} (h : s.getLast? = some x) (hx : Text.isWord x = false) :
    Guarded s := by
  rintro a word rfl -
  rw [List.getLast?_append_of_ne_nil _ word.nonempty] at h
  simp [word.accepted x (List.mem_of_getLast? h)] at hx

/-- A last word begins behind every character that no word has. -/
theorem exists_word_behind {x : Char} {word : Token Text.isWord} (hx : Text.isWord x = false)
    (h : s ++ x :: t = a ++ word.text) : ∃ w, t = w ++ word.text ∧ a = s ++ x :: w := by
  rw [List.append_cons] at h
  rcases List.append_eq_append_iff.mp h with ⟨w, rfl, ht⟩ | ⟨w, hs, hword⟩
  · exact ⟨w, ht, by simp⟩
  · have hw : w = [] := by
      by_contra hne
      have hlast := congrArg List.getLast? hs
      rw [List.getLast?_concat, List.getLast?_append_of_ne_nil _ hne] at hlast
      have hmem : x ∈ word.text :=
        hword ▸ List.mem_append_left _ (List.mem_of_getLast? hlast.symm)
      simp [word.accepted x hmem] at hx
    subst hw
    exact ⟨[], by simpa using hword.symm, by simpa using hs.symm⟩

/-- The character separates nothing. -/
def isTight (c : Char) : Bool := !Text.isBlank c && c != ','

theorem not_separated_of_isTight (h : ∀ x ∈ t, isTight x = true) (hne : t ≠ []) :
    ¬ Separated (s ++ t) := by
  rintro ⟨x, hx, hsep⟩
  rw [List.getLast?_append_of_ne_nil _ hne] at hx
  have htight := h x (List.mem_of_getLast? hx)
  rcases hsep with hblank | rfl
  · simp [isTight, hblank] at htight
  · cases htight

theorem guarded_behind_mark {x : Char} (hx : Text.isWord x = false)
    (ht : ∀ y ∈ x :: t, isTight y = true) : Guarded (s ++ x :: t) := by
  intro a word h ha
  obtain ⟨w, rfl, rfl⟩ := exists_word_behind hx h
  refine not_separated_of_isTight (fun y hy => ht y ?_) (List.cons_ne_nil x w) ha.separated
  rw [← List.cons_append]
  exact List.mem_append_left _ hy

theorem guarded_behind_blank (hs : ¬ Leads (s ++ [' '])) (ht : ∀ y ∈ t, isTight y = true) :
    Guarded (s ++ ' ' :: t) := by
  intro a word h ha
  obtain ⟨w, rfl, rfl⟩ := exists_word_behind rfl h
  by_cases hw : w = []
  · subst hw
    exact hs ha
  · rw [List.append_cons] at ha
    exact not_separated_of_isTight (fun y hy => ht y (List.mem_append_left _ hy)) hw ha.separated

/-- A word in front of blanks reaches up to the blank that ends the text. -/
theorem eq_append_word {word : Token Text.isWord} {gap : Token Text.isBlank}
    (h : s ++ [' '] = a ++ (word.text ++ gap.text)) (hs : Text.Solid s) : s = a ++ word.text := by
  rw [← List.append_assoc] at h
  have hword : Text.Solid (a ++ word.text) := .append_of_ne_nil _
    (.of_forall (word.forall_of fun _ => Text.isBlank_eq_false_of_isWord)) word.nonempty
  exact (Text.append_inj_of_getLast? (by simp) hs gap.accepted hword h).1

/-- What leads stands, up to its blanks, at a comma or at a word. -/
theorem Leads.cut (h : Leads (s ++ [' '])) (hs : Text.Solid s) :
    s.getLast? = some ',' ∨ ∃ (a : Text) (word : Token Text.isWord),
      s = a ++ word.text ∧ Separated a := by
  rcases h with ⟨a, gap, h, hgap⟩ | ⟨a, word, gap, h, ha⟩
  · rw [List.append_cons a] at h
    have hcomma : Text.Solid (a ++ [',']) := by simp [Text.Solid, Text.isBlank]
    obtain ⟨rfl, -⟩ := Text.append_inj_of_getLast? (by simp) hs hgap hcomma h
    exact .inl List.getLast?_concat
  · exact .inr ⟨a, word, eq_append_word h hs, ha⟩

theorem solid_sign (s : Text) : Text.Solid (s ++ ['=']) := by simp [Text.Solid, Text.isBlank]

theorem sign_ne_append_word (s a : Text) (word : Token Text.isWord) :
    s ++ ['='] ≠ a ++ word.text := by
  intro h
  have hlast := congrArg List.getLast? h
  rw [List.getLast?_concat, List.getLast?_append_of_ne_nil _ word.nonempty] at hlast
  exact absurd (word.accepted _ (List.mem_of_getLast? hlast.symm)) (by decide)

theorem guarded_behind_sign (s : Text) (ht : ∀ y ∈ t, isTight y = true) :
    Guarded (s ++ '=' :: ' ' :: t) := by
  rw [List.append_cons]
  refine guarded_behind_blank (fun h => ?_) ht
  rcases h.cut (solid_sign s) with hcomma | ⟨a, word, hs, -⟩
  · simp at hcomma
  · exact sign_ne_append_word s a word hs

theorem guarded_behind_name (s : Text) {name : Text} (hname : ∀ y ∈ name, isTight y = true)
    (ht : ∀ y ∈ t, isTight y = true) : Guarded (s ++ '@' :: (name ++ ' ' :: t)) := by
  have hnamed : ∀ y ∈ '@' :: name, isTight y = true := List.forall_mem_cons.mpr ⟨rfl, hname⟩
  rw [← List.cons_append, ← List.append_assoc]
  refine guarded_behind_blank (fun h => ?_) ht
  have hsolid : Text.Solid (s ++ '@' :: name) := by
    refine .append_of_ne_nil _ (.of_forall fun y hy => ?_) (List.cons_ne_nil _ _)
    have htight := hnamed y hy
    simp only [isTight, Bool.and_eq_true, Bool.not_eq_true'] at htight
    exact htight.1
  rcases h.cut hsolid with hcomma | ⟨a, word, hs, ha⟩
  · exact not_separated_of_isTight hnamed (List.cons_ne_nil _ _) ⟨',', hcomma, .inr rfl⟩
  · obtain ⟨w, rfl, rfl⟩ := exists_word_behind rfl hs
    refine not_separated_of_isTight (fun y hy => hnamed y ?_) (List.cons_ne_nil '@' w) ha
    rw [← List.cons_append]
    exact List.mem_append_left _ hy

/-! ## Quoted names and literals -/

section

variable {content quoted : Text} (hv : ∀ x ∈ v, (x != quoteMark) = true)
  (hquoted : quoteMark ∉ quoted)

include hv hquoted

theorem count_quoted : (v ++ quoteMark :: (quoted ++ [quoteMark])).count quoteMark = 2 := by
  have hzero : v.count quoteMark = 0 :=
    List.count_eq_zero.mpr fun hmem => by simpa using hv _ hmem
  rw [List.count_append, hzero, List.count_cons, List.count_append,
    List.count_eq_zero.mpr hquoted]
  rfl

/-- A literal that ends the text takes in no more than the quoted name. -/
theorem eq_of_append_literal
    (h : v ++ quoteMark :: (quoted ++ [quoteMark]) = w ++ Sql.literal content) : w = v := by
  have hsum := congrArg (List.count quoteMark) h
  have htwo : 2 ≤ (Sql.literal content).count quoteMark := by simp [Sql.literal]
  rw [count_quoted hv hquoted, List.count_append] at hsum
  have hw : ∀ x ∈ w, (x != quoteMark) = true := by
    intro x hx
    rw [bne_iff_ne]
    rintro rfl
    have hone := List.count_pos_iff.mpr hx
    omega
  rw [Sql.literal] at h
  exact (Text.append_inj_of_head? hv (by simp) hw (by simp) h).1.symm

/-- A literal is not cut in front of a name that is quoted behind something else. -/
theorem literal_ne_append (hne : v ≠ []) :
    Sql.literal content ≠ w ++ (v ++ quoteMark :: (quoted ++ [quoteMark])) := by
  obtain ⟨x, v', rfl⟩ := List.exists_cons_of_ne_nil hne
  have hx : x ≠ quoteMark := bne_iff_ne.mp (hv x List.mem_cons_self)
  intro h
  cases w with
  | nil => exact hx (List.cons.inj h).1.symm
  | cons y w =>
      obtain ⟨-, hcut⟩ := List.cons.inj h
      rcases Sql.quotes_behind_cut hcut (by simp) with hhead | hodd
      · exact hx (Option.some.inj hhead)
      · rw [count_quoted hv hquoted] at hodd
        exact absurd hodd (by decide)

end

/-- The quoted name would be the literal, and a word and blanks would stand in front of it. -/
theorem not_endsQuoted_literal {content : Text}
    (hs : ∀ (a : Text) (word : Token Text.isWord) (gap : Token Text.isBlank),
      s ≠ a ++ (word.text ++ gap.text)) : ¬ EndsQuoted (s ++ Sql.literal content) := by
  rintro ⟨a, as, gap, quoted, h, hspells, hquoted⟩
  let word : Token Text.isWord := token "AS" (by decide) rfl hspells
  have hv : ∀ x ∈ word.text ++ gap.text, (x != quoteMark) = true := by
    intro x hx
    rw [bne_iff_ne]
    rintro rfl
    rcases List.mem_append.mp hx with hx | hx
    · exact absurd (word.accepted _ hx) (by decide)
    · exact absurd (gap.accepted _ hx) (by decide)
  have hcut : s ++ Sql.literal content =
      a ++ ((word.text ++ gap.text) ++ quoteMark :: (quoted ++ [quoteMark])) := by
    simpa [word, token] using h
  rcases List.append_eq_append_iff.mp hcut with ⟨w, -, hliteral⟩ | ⟨w, rfl, hbehind⟩
  · exact literal_ne_append hv hquoted (by simp [word.nonempty]) hliteral
  · rw [eq_of_append_literal hv hquoted hbehind] at hs
    exact hs a word gap rfl

theorem not_endsQuoted_behind_sign (s : Text) (national : Bool) (content : Text) :
    ¬ EndsQuoted
      (s ++ '=' :: ' ' :: ((if national then ['N'] else []) ++ Sql.literal content)) := by
  have hcut : s ++ '=' :: ' ' :: ((if national then ['N'] else []) ++ Sql.literal content) =
      ((s ++ ['=']) ++ [' '] ++ (if national then ['N'] else [])) ++ Sql.literal content := by
    simp
  rw [hcut]
  refine not_endsQuoted_literal fun a word gap h => ?_
  cases national with
  | false =>
      rw [if_neg Bool.false_ne_true, List.append_nil] at h
      exact sign_ne_append_word s a word (eq_append_word h (solid_sign s))
  | true =>
      have hlast := congrArg List.getLast? h
      rw [if_pos rfl, List.getLast?_concat, ← List.append_assoc,
        List.getLast?_append_of_ne_nil _ gap.nonempty] at hlast
      exact absurd (gap.accepted _ (List.mem_of_getLast? hlast.symm)) (by decide)

theorem not_endsWithOption_output (hs : Guarded s) (hsolid : Text.Solid s) :
    ¬ EndsWithOption (s ++ ' ' :: "OUTPUT".toList) := by
  have hlast {a : Text} (word : Token Text.isWord)
      (h : s ++ ' ' :: "OUTPUT".toList = a ++ word.text) (ha : Separated a) :
      word.text = "OUTPUT".toList ∧ a = s ++ [' '] := by
    obtain ⟨w, hw, rfl⟩ := exists_word_behind rfl h
    have htight : ∀ y ∈ "OUTPUT".toList, isTight y = true := List.all_eq_true.mp rfl
    rw [hw] at htight
    have hnil : w = [] := by
      by_contra hne
      rw [List.append_cons] at ha
      exact not_separated_of_isTight (fun y hy => htight y (List.mem_append_left _ hy)) hne ha
    subst hnil
    exact ⟨hw.symm, rfl⟩
  rintro (⟨a, u, h, ha, letters, hmem, hletters⟩ | ⟨a, as, gap, user, h, ha, hword⟩ | hquoted)
  · have hnames : ∀ letters ∈ optionNames, letters.toList ≠ [] ∧
        letters.toList.all Text.isWord = true ∧
        letters.toList.map Text.foldCase ≠ "OUTPUT".toList.map Text.foldCase := by
      decide +kernel
    obtain ⟨hne, hall, hdiffers⟩ := hnames letters hmem
    obtain ⟨hu, -⟩ := hlast (token letters hne hall hletters) h ha.separated
    obtain rfl : u = "OUTPUT".toList := hu
    exact hdiffers hletters.map_foldCase.symm
  · set word : Token Text.isWord := token "AS" (by decide) rfl hword
    have hcut : s ++ ' ' :: "OUTPUT".toList = (a ++ (word.text ++ gap.text)) ++ user.text := by
      simpa [word, token] using h
    have hgap : Separated (a ++ (word.text ++ gap.text)) := (separated_of_blank _ gap).behind a
    exact hs a word (eq_append_word (hlast user hcut hgap).2.symm hsolid) ha
  · refine not_endsQuoted_of_getLast? ?_ hquoted
    rw [List.getLast?_append_of_ne_nil _ (by decide)]
    decide

end ProcCatalog.Signature
