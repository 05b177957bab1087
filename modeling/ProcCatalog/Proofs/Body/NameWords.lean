import ProcCatalog.Body.Intent
import ProcCatalog.Proofs.Pattern.Matches
import ProcCatalog.Proofs.Text.Digits
import ProcCatalog.Proofs.Text.Parts

/-!
# Words of a name

The words of a name hold its letters and digits, in order and in small letters; everything else
only parts them. A rule applies to a name if one of its words is a whole word of the name, since
the line of the words has a word edge nowhere but at the ends of words.
-/

namespace ProcCatalog.Body

open Pattern
open Text (isLetterOrDigit)

variable {before : Option Char} {u rest s : Text}

/-! ## One word -/

/-- Letters only, or digits only, and at least one. -/
def Uniform (isLetter : Char → Bool) (w : Text) : Prop :=
  w ≠ [] ∧ ((∀ x ∈ w, isLetter x = true) ∨ ∀ x ∈ w, Text.isDigit x = true)

theorem uniform_of_spans (h : nameWord.Spans before u rest) : Uniform Text.isAsciiLetter u := by
  rcases h with ⟨v, _, rfl, hv, rfl, -⟩ | ⟨v, w, rfl, hv, hw⟩ | hdigits | hnone
  · obtain ⟨hne, hv⟩ := spans_many1.mp hv
    rw [List.append_nil]
    exact ⟨hne, .inl fun x hx => by simp [Text.isAsciiLetter, hv x hx]⟩
  · obtain ⟨hne, hw⟩ := spans_many1.mp hw
    have hcapital : ∀ x ∈ v, Text.isAsciiUpper x = true := by
      rcases hv with ⟨y, hy, rfl⟩ | rfl
      · simpa using hy
      · simp
    refine ⟨by simp [hne], .inl fun x hx => ?_⟩
    rcases List.mem_append.mp hx with hx | hx
    · simp [Text.isAsciiLetter, hcapital x hx]
    · simp [Text.isAsciiLetter, hw x hx]
  · obtain ⟨hne, hu⟩ := spans_many1.mp hdigits
    exact ⟨hne, .inr hu⟩
  · exact absurd hnone spans_any_nil

theorem Uniform.isLetterOrDigit {w : Text} (h : Uniform Text.isAsciiLetter w) :
    ∀ x ∈ w, isLetterOrDigit x = true := by
  intro x hx
  rcases h.2 with h | h
  · simp [Text.isLetterOrDigit, h x hx]
  · simp [Text.isLetterOrDigit, h x hx]

/-- A word begins at every letter and at every digit: a capital in front of a small letter begins
the word of both. -/
theorem begins_nameWord {x : Char} (hx : isLetterOrDigit x = true) (t : Text) :
    nameWord.Begins before (x :: t) := by
  have hone {accepts : Char → Bool} {b : Option Char} {r : Text} {y : Char}
      (hy : accepts y = true) : (many1 accepts).Spans b [y] r :=
    spans_many1.mpr ⟨by simp, by simpa using hy⟩
  rcases Bool.or_eq_true_iff.mp hx with hx | hx
  · rcases Bool.or_eq_true_iff.mp hx with hupper | hlower
    · by_cases hnext : ∃ y r, t = y :: r ∧ Text.isAsciiLower y = true
      · obtain ⟨y, r, rfl, hy⟩ := hnext
        exact ⟨[x, y], r, rfl, .inr (.inl ⟨[x], [y], rfl, .inl ⟨x, hupper, rfl⟩, hone hy⟩)⟩
      · have halone : (Pattern.notAhead (.one Text.isAsciiLower)).Spans (some x) [] t := by
          refine ⟨rfl, ?_⟩
          rintro ⟨_, r, ht, y, hy, rfl⟩
          exact hnext ⟨y, r, ht, hy⟩
        exact ⟨[x], t, rfl, .inl ⟨[x], [], rfl, hone hupper, halone⟩⟩
    · exact ⟨[x], t, rfl, .inr (.inl ⟨[], [x], rfl, .inr rfl, hone hlower⟩)⟩
  · exact ⟨[x], t, rfl, .inr (.inr (.inl (hone hx)))⟩

/-! ## All words -/

theorem flatten_textsIn_nameWord (s : Text) :
    (nameWord.textsIn s).flatten = s.filter isLetterOrDigit :=
  flatten_textsIn rfl (fun _ _ _ h => (uniform_of_spans h).isLetterOrDigit)
    (fun _ _ _ h => begins_nameWord h _) s

/-- The words of a name as they are written in it. -/
def rawWords (name : Text) : List Text := (Text.partsAt '_' name).flatMap nameWord.textsIn

theorem uniform_of_mem_rawWords {name w : Text} (h : w ∈ rawWords name) :
    Uniform Text.isAsciiLetter w := by
  obtain ⟨part, -, hw⟩ := List.mem_flatMap.mp h
  obtain ⟨f, hf, rfl⟩ := List.mem_map.mp hw
  obtain ⟨b, hspan⟩ := exists_spans_of_mem_findAll hf
  exact uniform_of_spans hspan

theorem flatten_rawWords (name : Text) : (rawWords name).flatten = name.filter isLetterOrDigit := by
  have hline : isLetterOrDigit '_' = false := by decide +kernel
  rw [rawWords, List.flatMap_def, List.flatten_flatten, List.map_map]
  have hparts : List.flatten ∘ nameWord.textsIn = List.filter isLetterOrDigit :=
    funext flatten_textsIn_nameWord
  rw [hparts, ← List.filter_flatten, Text.flatten_partsAt, List.filter_filter]
  refine List.filter_congr fun x _ => ?_
  by_cases hx : x = '_'
  · simp [hx, hline]
  · simp [hx]

theorem nameWords_eq (name : Text) :
    nameWords name = (rawWords name).map (List.map Text.smallLetter) :=
  List.map_congr_left fun _ hw =>
    Text.lower_eq_map (uniform_of_mem_rawWords hw).isLetterOrDigit

theorem flatten_nameWords (name : Text) :
    (nameWords name).flatten = Text.lower (name.filter isLetterOrDigit) := by
  rw [nameWords_eq, ← List.map_flatten, flatten_rawWords,
    Text.lower_eq_map fun x hx => (List.mem_filter.mp hx).2]

theorem uniform_of_mem_nameWords {name w : Text} (h : w ∈ nameWords name) :
    Uniform Text.isAsciiLower w := by
  rw [nameWords_eq] at h
  obtain ⟨raw, hraw, rfl⟩ := List.mem_map.mp h
  obtain ⟨hne, hletters | hdigits⟩ := uniform_of_mem_rawWords hraw
  · refine ⟨by simpa using hne, .inl fun x hx => ?_⟩
    obtain ⟨y, hy, rfl⟩ := List.mem_map.mp hx
    exact Text.isAsciiLower_smallLetter (hletters y hy)
  · refine ⟨by simpa using hne, .inr fun x hx => ?_⟩
    obtain ⟨y, hy, rfl⟩ := List.mem_map.mp hx
    rw [Text.smallLetter_of_isDigit (hdigits y hy)]
    exact hdigits y hy

theorem isWord_of_mem_nameWords {name w : Text} (h : w ∈ nameWords name) :
    w ≠ [] ∧ ∀ x ∈ w, Text.isWord x = true := by
  obtain ⟨hne, hletters | hdigits⟩ := uniform_of_mem_nameWords h
  · refine ⟨hne, fun x hx => Text.isWord_of_isAsciiLetter ?_⟩
    simp [Text.isAsciiLetter, hletters x hx]
  · exact ⟨hne, fun x hx => Text.isWord_of_isDigit (hdigits x hx)⟩

theorem nameWords_append (x y : Text) :
    nameWords (x ++ '_' :: y) = nameWords x ++ nameWords y := by
  rw [nameWords, Text.partsAt_append, List.flatMap_append, List.map_append]
  rfl

/-! ## Whole words of a line -/

/-- The words of a line, which spaces part. -/
def wordsOfLine (line : Text) : List Text := (Text.partsAt ' ' line).filter (!·.isEmpty)

theorem wordsOfLine_wordLine (name : Text) : wordsOfLine (wordLine name) = nameWords name := by
  have hword : ∀ w ∈ nameWords name, w ≠ [] ∧ ∀ x ∈ w, Text.isWord x = true :=
    fun w hw => isWord_of_mem_nameWords hw
  rw [wordLine]
  cases hwords : nameWords name with
  | nil => rfl
  | cons w ws =>
      rw [hwords] at hword
      rw [wordsOfLine, Text.partsAt_joinWith, List.filter_eq_self]
      · intro v hv
        simpa using (hword v hv).1
      · intro v hv hspace
        exact absurd ((hword v hv).2 ' ' hspace) (by decide)

/-- The text stands in the line with no word character on either side. -/
def StandsIn (u line : Text) : Prop :=
  ∃ a b, line = a ++ (u ++ b) ∧ a.getLast?.any Text.isWord = false ∧
    b.head?.any Text.isWord = false

private theorem spans_letters {letters : Text} :
    (Pattern.all (letters.map char)).Spans before u rest ↔ u = letters := by
  induction letters generalizing before u with
  | nil => exact Iff.rfl
  | cons a letters ih =>
      constructor
      · rintro ⟨v, w, rfl, hv, hw⟩
        rw [spans_char.mp hv, ih.mp hw]
        rfl
      · rintro rfl
        exact .cons (v := [a]) (spans_char.mpr rfl) (ih.mpr rfl)

private theorem spans_anyWord {words : List String} :
    (Pattern.any (words.map fun w => Pattern.all (w.toList.map char))).Spans before u rest ↔
      ∃ w ∈ words, u = w.toList := by
  induction words with
  | nil => exact iff_of_false spans_any_nil (by simp)
  | cons w words ih =>
      rw [List.exists_mem_cons_iff]
      exact or_congr spans_letters ih

/-- Words that can be looked for: of word characters, and not empty. -/
def Searchable (words : List String) : Prop :=
  ∀ w ∈ words, w.toList ≠ [] ∧ ∀ x ∈ w.toList, Text.isWord x = true

theorem spans_oneOfWords_iff {words : List String} (hwords : Searchable words) :
    (oneOfWords words).Spans before u rest ↔ (∃ w ∈ words, u = w.toList) ∧
      before.any Text.isWord = false ∧ rest.head?.any Text.isWord = false := by
  have hedges {v : Text} (hv : ∃ w ∈ words, v = w.toList) (r : Text) :
      (v ++ r).head?.any Text.isWord = true ∧ (lastOr before v).any Text.isWord = true := by
    obtain ⟨w, hw, rfl⟩ := hv
    obtain ⟨hne, hall⟩ := hwords w hw
    rw [List.head?_append_of_ne_nil _ hne, lastOr_of_ne_nil _ hne]
    exact Text.any_isWord_ends hne hall
  constructor
  · rintro ⟨_, _, rfl, ⟨rfl, hbefore⟩, v, _, rfl, hv, _, _, rfl, ⟨rfl, hrest⟩, rfl⟩
    have hv := spans_anyWord.mp hv
    rw [List.nil_append, List.append_nil, List.append_nil] at *
    rw [(hedges hv rest).1] at hbefore
    rw [lastOr_nil, (hedges hv rest).2] at hrest
    exact ⟨hv, by simpa using hbefore, by simpa using hrest⟩
  · rintro ⟨hu, hbefore, hrest⟩
    obtain ⟨hhead, hlast⟩ := hedges hu rest
    refine .cons (v := []) ⟨rfl, by rw [hbefore, hhead]; rfl⟩ ?_
    rw [← List.append_nil u]
    exact .cons (spans_anyWord.mpr hu) (.last ⟨rfl, by rw [lastOr_nil, hlast, hrest]; rfl⟩)

theorem occursIn_oneOfWords_iff {words : List String} (hwords : Searchable words) {line : Text} :
    (oneOfWords words).occursIn line = true ↔ ∃ w ∈ words, StandsIn w.toList line := by
  rw [occursIn_iff]
  constructor
  · rintro ⟨a, _, rfl, u, b, rfl, hspan⟩
    obtain ⟨⟨w, hw, rfl⟩, hbefore, hrest⟩ := (spans_oneOfWords_iff hwords).mp hspan
    exact ⟨w, hw, a, b, rfl, by rwa [← lastOr_none], hrest⟩
  · rintro ⟨w, hw, a, b, rfl, hbefore, hrest⟩
    exact ⟨a, _, rfl, w.toList, b, rfl,
      (spans_oneOfWords_iff hwords).mpr ⟨⟨w, hw, rfl⟩, by rwa [lastOr_none], hrest⟩⟩

/-! ## Whole words of joined words -/

section

variable {v w r : Text} (hv : v ≠ []) (hvWord : ∀ x ∈ v, Text.isWord x = true)
  (hw : ∀ x ∈ w, Text.isWord x = true)

include hw in
theorem standsIn_word_iff : StandsIn v w ↔ v = w := by
  constructor
  · rintro ⟨a, b, rfl, ha, hb⟩
    have hfront : a = [] := by
      by_contra hne
      rw [(Text.any_isWord_ends hne fun x hx => hw x (by simp [hx])).2] at ha
      cases ha
    have hback : b = [] := by
      by_contra hne
      rw [(Text.any_isWord_ends hne fun x hx => hw x (by simp [hx])).1] at hb
      cases hb
    simp [hfront, hback]
  · rintro rfl
    exact ⟨[], [], by simp, rfl, rfl⟩

include hv hvWord hw in
/-- A whole word of the line is the first one, or it stands behind it. -/
theorem standsIn_append_iff : StandsIn v (w ++ ' ' :: r) ↔ v = w ∨ StandsIn v r := by
  have hlast {z : Text} (hz : z ≠ []) : (w ++ ' ' :: z).getLast? = z.getLast? := by
    rw [List.append_cons, List.getLast?_append_of_ne_nil _ hz]
  constructor
  · rintro ⟨a, b, hcut, ha, hb⟩
    rcases List.append_eq_append_iff.mp hcut with ⟨z, rfl, hz⟩ | ⟨z, rfl, hz⟩
    · cases z with
      | nil =>
          -- the word would begin with the space
          obtain ⟨y, v, rfl⟩ := List.exists_cons_of_ne_nil hv
          obtain ⟨rfl, -⟩ := List.cons.inj hz
          exact absurd (hvWord ' ' List.mem_cons_self) (by decide)
      | cons y z =>
          obtain ⟨rfl, rfl⟩ := List.cons.inj hz
          refine .inr ⟨z, b, rfl, ?_, hb⟩
          by_cases hne : z = []
          · rw [hne]
            rfl
          · rwa [hlast hne] at ha
    · -- both end where the word characters do
      obtain ⟨rfl, -⟩ := Text.append_inj_of_head? hvWord (by simpa [Option.any_eq_false] using hb)
        (fun x hx => hw x (by simp [hx])) (by rintro x ⟨⟩; rfl) hz
      exact .inl ((standsIn_word_iff hw).mp ⟨a, [], by simp, ha, rfl⟩)
  · rintro (rfl | ⟨a, b, rfl, ha, hb⟩)
    · exact ⟨[], ' ' :: r, rfl, rfl, rfl⟩
    · refine ⟨w ++ ' ' :: a, b, by simp, ?_, hb⟩
      by_cases hne : a = []
      · simp [hne]
        rfl
      · rwa [hlast hne]

include hv hvWord in
theorem standsIn_joinWith_iff {words : List Text}
    (hwords : ∀ u ∈ words, ∀ x ∈ u, Text.isWord x = true) :
    StandsIn v (Text.joinWith [' '] words) ↔ v ∈ words := by
  induction words with
  | nil =>
      refine iff_of_false ?_ (by simp)
      rintro ⟨a, b, hcut, -⟩
      have hcut := List.append_eq_nil_iff.mp hcut.symm
      exact hv (List.append_eq_nil_iff.mp hcut.2).1
  | cons w words ih =>
      obtain ⟨hw, hwords⟩ := List.forall_mem_cons.mp hwords
      cases words with
      | nil =>
          rw [Text.joinWith, List.intercalate_singleton, standsIn_word_iff hw,
            List.mem_singleton]
      | cons next words =>
          rw [Text.joinWith_cons_cons, List.singleton_append, standsIn_append_iff hv hvWord hw,
            ih hwords, List.mem_cons (a := v) (b := w)]

end

/-! ## Rules -/

private theorem searchable_of_mem_nameRules : ∀ rule ∈ nameRules, Searchable rule.2 := by
  have hall : nameRules.all (fun rule => rule.2.all fun w =>
      !w.toList.isEmpty && w.toList.all Text.isWord) = true := by
    decide +kernel
  intro rule hrule w hw
  have hw := List.all_eq_true.mp (List.all_eq_true.mp hall rule hrule) w hw
  simpa using hw

theorem occursIn_wordLine_iff {rule : Intent × List String} (hrule : rule ∈ nameRules)
    (name : Text) :
    (oneOfWords rule.2).occursIn (wordLine name) = true ↔
      ∃ w ∈ rule.2, w.toList ∈ nameWords name := by
  have hsearch := searchable_of_mem_nameRules rule hrule
  rw [occursIn_oneOfWords_iff hsearch]
  refine exists_congr fun w => and_congr_right fun hw => ?_
  obtain ⟨hne, hall⟩ := hsearch w hw
  exact standsIn_joinWith_iff hne hall fun u hu => (isWord_of_mem_nameWords hu).2

/-- The line of a name is cut into words that hold all of its letters and digits and nothing else,
in order and in small letters. -/
structure SplitsInto (name : Text) (words : List Text) : Prop where
  line : wordsOfLine (wordLine name) = words
  flatten : words.flatten = Text.lower (name.filter isLetterOrDigit)
  uniform : ∀ w ∈ words, Uniform Text.isAsciiLower w

/-- An underscore parts words, and the first rule that asks for a word of the name decides. -/
theorem splitsInto_nameWords (name x y : Text) :
    SplitsInto name (nameWords name) ∧
      nameWords (x ++ '_' :: y) = nameWords x ++ nameWords y ∧
      nameRules.map (·.1) = [.report, .get, .insert, .update, .delete, .mixed] ∧
      intentOfName? name =
        (nameRules.find? fun rule => decide (∃ w ∈ rule.2, w.toList ∈ nameWords name)).map
          (·.1) := by
  refine ⟨⟨wordsOfLine_wordLine name, flatten_nameWords name, fun _ => uniform_of_mem_nameWords⟩,
    nameWords_append x y, rfl, ?_⟩
  rw [intentOfName?]
  congr 1
  refine List.find?_congr fun rule hrule => ?_
  rw [Bool.eq_iff_iff, decide_eq_true_iff, occursIn_wordLine_iff hrule]

/-- Capitals in a row are one word up to the capital of the next one. -/
example : nameWords "uspLoadHTMLReports2_by_ID".toList =
    ["usp".toList, "load".toList, "html".toList, "reports".toList, "2".toList, "by".toList,
      "id".toList] := by
  decide +kernel

end ProcCatalog.Body
