import ProcCatalog.Body.Intent
import ProcCatalog.Proofs.Body.Statements
import ProcCatalog.Proofs.Text.Digits
import ProcCatalog.Proofs.Text.Parts

/-!
# Writes into temporary tables

A change of a temporary table or a table variable is none of what the intent of a body counts: the
mark in front of the name begins no object. A word between verb and name does, unless the pattern
asks for it not to follow, and the one for merges does not.
-/

namespace ProcCatalog.Body

open Pattern
open Text (Token)

variable {letters : String} {q : Pattern} {before : Option Char} {w s t : Text}

/-! ## Commands -/

def command (letters : String) (q : Pattern) : Pattern :=
  .seq .wordEdge (.seq (keyword letters) (.seq blanks1 q))

/-- The pattern takes at least one character, and begins with no blank and no mark. -/
structure StartsObject (q : Pattern) : Prop where
  moves : q.moves = true
  starts : ∀ x, q.starts x = true → Text.isWord x = true ∨ x = '['

theorem StartsObject.not_begins (hq : StartsObject q) {x : Char} (hword : Text.isWord x = false)
    (hopen : x ≠ '[') : ¬ q.Begins before (x :: t) := by
  refine not_begins_of_starts hq.moves (Bool.eq_false_iff.mpr fun hx => ?_) before t
  rcases hq.starts x hx with h | h
  · rw [h] at hword
    cases hword
  · exact hopen h

theorem StartsObject.not_begins_blank (hq : StartsObject q) {x : Char}
    (hx : Text.isBlank x = true) : ¬ q.Begins before (x :: t) :=
  hq.not_begins (Text.isWord_eq_false_of_isBlank hx) (by rintro rfl; cases hx)

/-- The word of a command is a whole word of the text. -/
theorem exists_of_begins_command (hletters : letters.toList.all Text.isWord = true)
    (hw : ∀ x ∈ w, Text.isWord x = true) (hs : ∀ x ∈ s.head?, Text.isWord x = false)
    (h : (command letters q).Begins before (w ++ s)) :
    Spells letters.toList w ∧ ∃ gap rest b, s = gap ++ rest ∧ gap ≠ [] ∧
      (∀ x ∈ gap, Text.isBlank x = true) ∧ q.Begins b rest := by
  obtain ⟨_, rest, hcut, _, _, rfl, ⟨rfl, -⟩, word, _, rfl, hword, gap, u, rfl, hgap, hu⟩ := h
  have hword := spans_keyword_iff.mp hword
  obtain ⟨hne, hblank⟩ := spans_many1.mp hgap
  have hcut : w ++ s = word ++ (gap ++ (u ++ rest)) := by simpa using hcut
  have hfollow : ∀ x ∈ (gap ++ (u ++ rest)).head?, Text.isWord x = false :=
    Text.forall_head?_append _ hne fun x hx => Text.isWord_eq_false_of_isBlank (hblank x hx)
  obtain ⟨rfl, hs⟩ := Text.append_inj_of_head? hw hs (hword.isWord hletters) hfollow hcut
  exact ⟨hword, gap, u ++ rest, _, hs, hne, hblank, u, rest, rfl, hu⟩

/-- Behind the blanks an object begins, if one begins behind some of them. -/
theorem begins_behind_blanks (hq : StartsObject q) {gap gap' r : Text}
    (hgap : ∀ x ∈ gap, Text.isBlank x = true) (hgap' : ∀ x ∈ gap', Text.isBlank x = true)
    (ht : ∀ x ∈ t.head?, Text.isBlank x = false) (hcut : gap ++ t = gap' ++ r)
    (h : q.Begins before r) : q.Begins before t := by
  rcases List.append_eq_append_iff.mp hcut with ⟨z, rfl, rfl⟩ | ⟨z, rfl, rfl⟩
  · cases z with
    | nil => exact h
    | cons y z => exact absurd (hgap' y (by simp)) (by simp [ht y rfl])
  · cases z with
    | nil => exact h
    | cons y z => exact absurd h (hq.not_begins_blank (hgap y (by simp)))

theorem begins_command (hletters : letters.toList.all Text.isWord = true) (hq : StartsObject q)
    (hw : ∀ x ∈ w, Text.isWord x = true) (gap : Token Text.isBlank)
    (ht : ∀ x ∈ t.head?, Text.isBlank x = false)
    (h : (command letters q).Begins before (w ++ (gap.text ++ t))) :
    Spells letters.toList w ∧ ∃ b, q.Begins b t := by
  have hhead : ∀ x ∈ (gap.text ++ t).head?, Text.isWord x = false :=
    Text.forall_head?_append _ gap.nonempty fun x hx =>
      Text.isWord_eq_false_of_isBlank (gap.accepted x hx)
  obtain ⟨hspells, gap', rest, b, hcut, -, hgap', hrest⟩ :=
    exists_of_begins_command hletters hw hhead h
  exact ⟨hspells, b, begins_behind_blanks hq gap.accepted hgap' ht hcut hrest⟩

/-! ## Where no command is met -/

/-- A command that does not begin with the word begins nowhere in it. -/
theorem avoids_word (hw : ∀ x ∈ w, Text.isWord x = true)
    (h : ¬ (command letters q).Begins before (w ++ s)) :
    (command letters q).Avoids before w s := by
  rintro a b rfl hne hbegins
  cases a with
  | nil => exact h hbegins
  | cons y a =>
      obtain ⟨_, rest, hcut, _, u, rfl, ⟨rfl, hedge⟩, -⟩ := hbegins
      obtain ⟨z, b, rfl⟩ := List.exists_cons_of_ne_nil hne
      have hbefore : (lastOr before (y :: a)).any Text.isWord = true := by
        rw [lastOr_of_ne_nil _ (List.cons_ne_nil y a)]
        exact (Text.any_isWord_ends (List.cons_ne_nil y a) fun x hx =>
          hw x (List.mem_append_left _ hx)).2
      rw [hbefore, ← List.nil_append u, ← hcut, List.cons_append, List.head?_cons,
        Option.any_some, hw z (by simp)] at hedge
      cases hedge

theorem avoids_notWords (hletters : letters.toList.all Text.isWord = true)
    (hne : letters.toList ≠ []) (hw : ∀ x ∈ w, Text.isWord x = false) :
    (command letters q).Avoids before w s := by
  induction w generalizing before with
  | nil => exact avoids_nil _ _ _
  | cons x w ih =>
      obtain ⟨hx, hw⟩ := List.forall_mem_cons.mp hw
      refine avoids_cons.mpr ⟨fun hbegins => ?_, ih hw⟩
      obtain ⟨hspells, -⟩ := exists_of_begins_command (w := []) hletters (by simp)
        (by rintro y ⟨⟩; exact hx) hbegins
      exact hne (List.forall₂_nil_right_iff.mp hspells)

/-! ## Writes into temporary tables -/

def changeVerbs : List String := ["INSERT", "UPDATE", "DELETE", "MERGE"]

/-- The verbs that a further word may follow. -/
def changePhrases : List (String × String) :=
  [("INSERT", "INTO"), ("DELETE", "FROM"), ("MERGE", "INTO")]

/-- The words that stand in front of a table to change it. -/
def changes : List (List String) :=
  (changeVerbs.map fun first => [first]) ++ changePhrases.map fun (first, second) => [first, second]

/-- A verb and the name of a temporary table or of a table variable. -/
structure TemporaryWrite where
  verb : List String
  isVerb : verb ∈ changes
  words : Text
  shows : ShowsPhrase verb words
  mark : Char
  isMark : mark = '#' ∨ mark = '@'
  name : Text
  isName : ∀ x ∈ name, Text.isWord x = true

private theorem isWord_first : ∀ first ∈ "GROUP" :: changeVerbs,
    first.toList ≠ [] ∧ first.toList.all Text.isWord = true := by
  decide +kernel

private theorem isWord_pair : ∀ pair ∈ changePhrases, pair.1 ∈ changeVerbs ∧
    pair.2.toList ≠ [] ∧ pair.2.toList.all Text.isWord = true := by
  decide +kernel

/-- A text spells no two of these words. -/
private theorem eq_of_spells {first : String} (hletters : letters ∈ "GROUP" :: changeVerbs)
    (hfirst : first ∈ changeVerbs) (h : Spells letters.toList w) (h' : Spells first.toList w) :
    letters = first := by
  have hdiffer : ∀ a ∈ "GROUP" :: changeVerbs, ∀ b ∈ changeVerbs,
      a.toList.map Text.foldCase = b.toList.map Text.foldCase → a = b := by
    decide +kernel
  exact hdiffer _ hletters _ hfirst (h.map_foldCase.symm.trans h'.map_foldCase)

theorem showsPhrase_joinWith (verb : List String) :
    ShowsPhrase verb (Text.joinWith [' '] (verb.map String.toList)) := by
  induction verb with
  | nil => rfl
  | cons w ws ih =>
      cases ws with
      | nil =>
          rw [List.map_singleton, Text.joinWith, List.intercalate_singleton]
          exact spells_self _
      | cons next ws =>
          rw [List.map_cons, List.map_cons, Text.joinWith_cons_cons]
          exact ⟨_, ⟨[' '], by simp, by simp⟩, _, rfl, spells_self _, ih⟩

namespace TemporaryWrite

variable (c : TemporaryWrite)

def target : Text := c.mark :: c.name

def write : Text := c.words ++ ([' '] ++ c.target)

private theorem isWord_mark : Text.isWord c.mark = false := by
  rcases c.isMark with h | h <;> rw [h] <;> rfl

private def space : Token Text.isBlank := ⟨[' '], by simp, by simp⟩

/-- Neither a word nor a bracket stands in front of the name. -/
private theorem not_begins_target (hq : StartsObject q) : ¬ q.Begins before c.target := by
  rcases c.isMark with h | h <;>
    · rw [target, h]
      exact hq.not_begins (by decide) (by decide)

private theorem head?_target : ∀ x ∈ c.target.head?, Text.isBlank x = false := by
  rintro x ⟨⟩
  rcases c.isMark with h | h <;> rw [h] <;> rfl

private theorem words_cases : (∃ first ∈ changeVerbs, Spells first.toList c.words) ∨
    ∃ pair ∈ changePhrases, c.verb = [pair.1, pair.2] ∧
      ∃ (u : Text) (gap : Token Text.isBlank) (v : Text), c.words = u ++ (gap.text ++ v) ∧
        Spells pair.1.toList u ∧ Spells pair.2.toList v := by
  obtain ⟨verb, isVerb, words, shows, -⟩ := c
  rcases List.mem_append.mp isVerb with h | h
  · obtain ⟨first, hfirst, rfl⟩ := List.mem_map.mp h
    exact .inl ⟨first, hfirst, shows⟩
  · obtain ⟨pair, hpair, rfl⟩ := List.mem_map.mp h
    exact .inr ⟨pair, hpair, rfl, shows⟩

section

variable (hletters : letters ∈ "GROUP" :: changeVerbs) (hq : StartsObject q)
include hletters

private theorem avoids_target : (command letters q).Avoids before ([' '] ++ c.target) [] := by
  obtain ⟨hne, hall⟩ := isWord_first _ hletters
  have hmark : ∀ x ∈ [' ', c.mark], Text.isWord x = false :=
    List.forall_mem_cons.mpr ⟨rfl, by simpa using c.isWord_mark⟩
  have hname : ∀ b, ¬ (command letters q).Begins b (c.name ++ []) := by
    intro b hbegins
    obtain ⟨-, gap, rest, -, hcut, hgap, -⟩ :=
      exists_of_begins_command hall c.isName (by simp) hbegins
    exact hgap (List.append_eq_nil_iff.mp hcut.symm).1
  change (command letters q).Avoids before ([' ', c.mark] ++ c.name) []
  exact avoids_append.mpr ⟨avoids_notWords hall hne hmark, avoids_word c.isName (hname _)⟩

include hq

/-- The mark refuses a command, so one can only be met in front of a further word of the verb. -/
private theorem not_begins_write (hpair : ∀ second v, c.verb = [letters, second] →
      (letters, second) ∈ changePhrases → Spells second.toList v →
        ∀ b, ¬ q.Begins b (v ++ ([' '] ++ c.target))) :
    ¬ (command letters q).Begins before c.write := by
  intro hbegins
  have hall := (isWord_first _ hletters).2
  rw [write] at hbegins
  rcases c.words_cases with ⟨first, hfirst, hwords⟩ | ⟨⟨first, second⟩, hmem, hverb, u, gap, v,
    hwords, hu, hv⟩
  · have hfirst := isWord_first _ (List.mem_cons_of_mem _ hfirst)
    obtain ⟨-, b, hobject⟩ := begins_command hall hq (hwords.isWord hfirst.2) space
      c.head?_target hbegins
    exact c.not_begins_target hq hobject
  · obtain ⟨hfirst, hne, hsecond⟩ := isWord_pair _ hmem
    have hhead : ∀ x ∈ (v ++ ([' '] ++ c.target)).head?, Text.isBlank x = false := by
      refine Text.forall_head?_append _ ?_ fun x hx =>
        Text.isBlank_eq_false_of_isWord (hv.isWord hsecond x hx)
      rintro rfl
      exact hne (List.forall₂_nil_right_iff.mp hv)
    rw [hwords, List.append_assoc, List.append_assoc] at hbegins
    obtain ⟨hspells, b, hobject⟩ := begins_command hall hq
      (hu.isWord (isWord_first _ (List.mem_cons_of_mem _ hfirst)).2) gap hhead hbegins
    obtain rfl := eq_of_spells hletters hfirst hspells hu
    exact hpair second v hverb hmem hv b hobject

/-- A command that is not met at the verb is met nowhere. -/
private theorem avoids_write (hfirst : ∀ b, ¬ (command letters q).Begins b c.write) :
    (command letters q).Avoids none ('\n' :: c.write) [] := by
  obtain ⟨hne, hall⟩ := isWord_first _ hletters
  have hfeed : ∀ x ∈ ['\n'], Text.isWord x = false := List.forall_mem_singleton.mpr rfl
  rw [← List.singleton_append]
  refine avoids_append.mpr ⟨avoids_notWords hall hne hfeed, ?_⟩
  rw [write] at hfirst ⊢
  refine avoids_append.mpr ⟨?_, c.avoids_target hletters⟩
  rw [List.append_nil]
  rcases c.words_cases with ⟨first, hmem, hwords⟩ | ⟨⟨first, second⟩, hmem, -, u, gap, v, hwords,
    hu, hv⟩
  · have hword := (isWord_first _ (List.mem_cons_of_mem _ hmem)).2
    exact avoids_word (hwords.isWord hword) (hfirst _)
  · obtain ⟨hmem, -, hsecond⟩ := isWord_pair _ hmem
    rw [hwords, List.append_assoc, List.append_assoc] at hfirst
    rw [hwords]
    refine avoids_append.mpr ⟨avoids_word (hu.isWord (isWord_first _
      (List.mem_cons_of_mem _ hmem)).2) ?_, avoids_append.mpr ⟨?_, ?_⟩⟩
    · rw [List.append_assoc]
      exact hfirst _
    · exact avoids_notWords hall hne fun x hx =>
        Text.isWord_eq_false_of_isBlank (gap.accepted x hx)
    · refine avoids_word (hv.isWord hsecond) fun hbegins => ?_
      obtain ⟨-, b, hobject⟩ := begins_command hall hq (hv.isWord hsecond) space c.head?_target
        hbegins
      exact c.not_begins_target hq hobject

end

/-! ## What a body counts -/

/-- An object in front of which a word may stand, which is not taken for the object. -/
private def objectBehind (second : String) : Pattern :=
  all [option (.seq (keyword second) blanks1), .notAhead (.seq (keyword second) .wordEdge),
    objectStart]

private theorem isWord_of_starts_keyword (hletters : letters.toList.all Text.isWord = true)
    {x : Char} (hx : (keyword letters).starts x = true) : Text.isWord x = true := by
  rw [keyword] at hx
  cases hlist : letters.toList with
  | nil => simp [hlist, all, starts] at hx
  | cons a rest =>
      rw [hlist, List.all_cons, Bool.and_eq_true] at hletters
      have hx : Text.sameLetter a x = true := by
        simpa [hlist, all, starts, moves] using hx
      rw [Text.isWord_eq_of_sameLetter hx]
      exact hletters.1

private theorem startsObject_of (letters : String) {p : Pattern} (hmoves : p.moves = true)
    (hletters : letters.toList.all Text.isWord = true)
    (hstarts : ∀ x, p.starts x = true →
      (keyword letters).starts x = true ∨ objectStart.starts x = true) :
    StartsObject p := by
  refine ⟨hmoves, fun x hx => ?_⟩
  rcases hstarts x hx with h | h
  · exact .inl (isWord_of_starts_keyword hletters h)
  · simp only [objectStart, starts, Bool.or_eq_true, beq_iff_eq] at h
    rcases h with (h | rfl) | rfl
    · exact .inl (Text.isWord_of_isPlainLetter h)
    · exact .inl rfl
    · exact .inr rfl

private theorem startsObject_objectBehind {second : String} (hne : second.toList ≠ [])
    (hsecond : second.toList.all Text.isWord = true) : StartsObject (objectBehind second) := by
  have hbehind : (objectBehind second).moves = true := by
    simp [objectBehind, all, moves, objectStart]
  refine startsObject_of second hbehind hsecond fun x hx => ?_
  have hmoves : (keyword second).moves = true := by
    obtain ⟨a, rest, h⟩ := List.exists_cons_of_ne_nil hne
    simp [keyword, h, all, moves]
  simpa [objectBehind, starts, moves, all, option, blanks1, many1, hmoves] using hx

/-- A further word of the verb is neither passed over nor taken for the object. -/
private theorem not_begins_objectBehind {second : String} (hne : second.toList ≠ [])
    (hsecond : second.toList.all Text.isWord = true) {v : Text} (hv : Spells second.toList v) :
    ¬ (objectBehind second).Begins before (v ++ ([' '] ++ c.target)) := by
  have hword := hv.isWord hsecond
  have hspace : ∀ x ∈ ([' '] ++ c.target).head?, Text.isWord x = false := by
    rintro x ⟨⟩
    rfl
  have hobject : StartsObject (all [objectStart]) :=
    startsObject_of second rfl hsecond fun x hx => .inr (by simpa [all, starts] using hx)
  rintro ⟨_, rest, hcut, u, _, rfl, hu, _, y, rfl, ⟨rfl, hahead⟩, hy⟩
  rcases hu with ⟨word, gap, rfl, hspells, hgap⟩ | rfl
  · -- behind the word stands the mark
    obtain ⟨hgapne, hgap⟩ := spans_many1.mp hgap
    have hspells := spans_keyword_iff.mp hspells
    have hfollow : ∀ x ∈ (gap ++ (y ++ rest)).head?, Text.isWord x = false :=
      Text.forall_head?_append _ hgapne fun x hx => Text.isWord_eq_false_of_isBlank (hgap x hx)
    obtain ⟨-, hcut⟩ := Text.append_inj_of_head? hword hspace (hspells.isWord hsecond) hfollow
      (by simpa using hcut)
    exact c.not_begins_target hobject (begins_behind_blanks hobject space.accepted hgap
      c.head?_target hcut ⟨y, rest, rfl, hy⟩)
  · refine hahead ⟨v, [' '] ++ c.target, by simpa using hcut.symm, v, [], by simp,
      spans_keyword_iff.mpr hv, rfl, ?_⟩
    have hvne : v ≠ [] := by
      rintro rfl
      exact hne (List.forall₂_nil_right_iff.mp hv)
    rw [lastOr_of_ne_nil _ hvne, (Text.any_isWord_ends hvne hword).2]
    rfl

section

variable {c}

private theorem occursIn_write_eq_false {p : Pattern} (hp : p = command letters q)
    (hletters : letters ∈ "GROUP" :: changeVerbs) (hq : StartsObject q)
    (hfirst : ∀ b, ¬ (command letters q).Begins b c.write) :
    p.occursIn ('\n' :: c.write) = false := by
  subst hp
  exact occursIn_eq_false_of_avoids (by simp [command, moves, hq.moves])
    (c.avoids_write hletters hq hfirst)

private theorem occursIn_objectBehind (first second : String)
    (hfirst : first ∈ "GROUP" :: changeVerbs) (hne : second.toList ≠ [])
    (hsecond : second.toList.all Text.isWord = true)
    (hpair : ∀ other, (first, other) ∈ changePhrases → other = second) :
    (command first (objectBehind second)).occursIn ('\n' :: c.write) = false := by
  have hq := startsObject_objectBehind hne hsecond
  refine occursIn_write_eq_false rfl hfirst hq fun b => ?_
  refine c.not_begins_write hfirst hq fun other v _ hmem hv b => ?_
  obtain rfl := hpair other hmem
  exact c.not_begins_objectBehind hne hsecond hv

private theorem insertInto_write : insertInto.occursIn ('\n' :: c.write) = false :=
  occursIn_objectBehind "INSERT" "INTO" (by decide) (by decide) (by decide)
    (by simp [changePhrases])

private theorem deleteFrom_write : deleteFrom.occursIn ('\n' :: c.write) = false :=
  occursIn_objectBehind "DELETE" "FROM" (by decide) (by decide) (by decide)
    (by simp [changePhrases])

private theorem updateObject_write : updateObject.occursIn ('\n' :: c.write) = false := by
  have hq : StartsObject (all [.notAhead (Pattern.any [.seq (keyword "STATISTICS") .wordEdge,
      .seq (keyword "OF") .wordEdge]), objectStart]) :=
    startsObject_of "UPDATE" rfl (by decide) fun x hx =>
      .inr (by simpa [all, starts, moves] using hx)
  refine occursIn_write_eq_false rfl (by decide) hq fun b => ?_
  exact c.not_begins_write (by decide) hq fun other v _ hmem => by simp [changePhrases] at hmem

private theorem startsObject_mergeInto :
    StartsObject (all [option (.seq (keyword "INTO") blanks1), objectStart]) :=
  startsObject_of "INTO" rfl (by decide) fun x hx => by
    simpa [all, starts, moves, option, keyword] using hx

private theorem mergeInto_write (hverb : c.verb ≠ ["MERGE", "INTO"]) :
    mergeInto.occursIn ('\n' :: c.write) = false := by
  refine occursIn_write_eq_false rfl (by decide) startsObject_mergeInto fun b => ?_
  refine c.not_begins_write (by decide) startsObject_mergeInto fun other v h hmem => ?_
  obtain rfl : other = "INTO" := by simpa [changePhrases] using hmem
  exact absurd h hverb

/-- The word behind the verb is taken for the object. -/
private theorem mergeInto_write_into (hverb : c.verb = ["MERGE", "INTO"]) :
    mergeInto.occursIn ('\n' :: c.write) = true := by
  obtain ⟨u, gap, v, hwords, hu, hv⟩ : ShowsPhrase ["MERGE", "INTO"] c.words := hverb ▸ c.shows
  cases hv with
  | @cons _ x _ v hx _ =>
      have hobject {b : Option Char} {rest : Text} : objectStart.Spans b [x] rest := by
        have hplain : Text.isPlainLetter x = true :=
          (congrArg Text.isAsciiLower (beq_iff_eq.mp hx)).symm.trans rfl
        exact ⟨x, by simp [hplain], rfl⟩
      refine occursIn_iff.mpr ⟨['\n'], c.write, rfl, u ++ (gap.text ++ [x]),
        v ++ ([' '] ++ c.target), by simp [write, hwords], ?_⟩
      refine Spans.cons (v := []) ⟨rfl, ?_⟩ (.cons (spans_keyword_iff.mpr hu)
        (.cons (spans_many1.mpr ⟨gap.nonempty, gap.accepted⟩) (.cons (v := []) (.inr rfl)
          hobject.last)))
      cases hu with
      | cons hfirst _ =>
          exact (congrArg (false != ·) (Text.isWord_eq_of_sameLetter hfirst)).trans rfl

private theorem groupBy_write : groupBy.occursIn ('\n' :: c.write) = false := by
  have hq : StartsObject (.seq (keyword "BY") .wordEdge) :=
    startsObject_of "BY" rfl (by decide) fun x hx => .inl (by
      simpa [starts, keyword, all, moves] using hx)
  have hnone := occursIn_write_eq_false (c := c) rfl (by decide) hq fun b =>
    c.not_begins_write (show "GROUP" ∈ "GROUP" :: changeVerbs by decide) hq fun other v _ hmem => by
      simp [changePhrases] at hmem
  rw [← Bool.not_eq_true, occursIn_iff] at hnone ⊢
  rintro ⟨a, b, hcut, u, rest, rfl, hspan⟩
  refine hnone ⟨a, u ++ rest, hcut, u, rest, rfl, ?_⟩
  obtain ⟨_, _, rfl, ⟨rfl, hedge⟩, _, _, rfl, ⟨first, _, rfl, hfirst, gap, _, rfl, hgap, second,
    _, rfl, hsecond, rfl⟩, _, _, rfl, ⟨rfl, hlast⟩, rfl⟩ := hspan
  have hsecond : (keyword "BY").Spans (lastOr (lastOr (lastOr none a) first) gap) second rest := by
    simpa [phrase] using hsecond
  simp only [List.append_nil, List.append_assoc, List.nil_append, lastOr_append, lastOr_nil] at *
  exact .seq (v := []) ⟨rfl, by simpa using hedge⟩ (.seq (by simpa using hfirst)
    (.seq (by simpa using hgap) ⟨second, [], by simp, hsecond, rfl, hlast⟩))

end

/-! ## The intent -/

/-- A part and what stands behind it add what the latter shows. -/
private theorem occursIn_part {p : Pattern} (hp : p.stops ';' = true) (hmoves : p.moves = true)
    (body s : Text) :
    p.occursIn (body ++ part ++ s) = (p.occursIn body || p.occursIn ('\n' :: s)) := by
  rw [List.append_assoc]
  exact occursIn_parted hp hmoves rfl body ('\n' :: s)

end TemporaryWrite

open TemporaryWrite

/-- A write into a temporary table does not change what a body that reads a table is for, except
that of a merge with a word between verb and name, which always counts as a change. -/
theorem intentOfBody_append_temporaryWrite {body : Text}
    (hselect : selectFrom.occursIn body = true) (c : TemporaryWrite) :
    intentOfBody (body ++ part ++ c.write) =
      if c.verb = ["MERGE", "INTO"] then .mixed else intentOfBody body := by
  have hmerge := occursIn_part (p := mergeInto) (by decide +kernel) rfl body c.write
  split
  · rename_i hverb
    rw [mergeInto_write_into hverb, Bool.or_true] at hmerge
    simp only [intentOfBody, hmerge]
  · rename_i hverb
    have hselect' : selectFrom.occursIn (body ++ part ++ c.write) = true := by
      rw [List.append_assoc]
      exact occursIn_append_of_endures rfl rfl hselect
    have hinsert := occursIn_part (p := insertInto) (by decide +kernel) rfl body c.write
    have hupdate := occursIn_part (p := updateObject) (by decide +kernel) rfl body c.write
    have hdelete := occursIn_part (p := deleteFrom) (by decide +kernel) rfl body c.write
    have hgroup := occursIn_part (p := groupBy) (by decide +kernel) rfl body c.write
    rw [mergeInto_write hverb, Bool.or_false] at hmerge
    rw [insertInto_write, Bool.or_false] at hinsert
    rw [updateObject_write, Bool.or_false] at hupdate
    rw [deleteFrom_write, Bool.or_false] at hdelete
    rw [groupBy_write, Bool.or_false] at hgroup
    simp only [intentOfBody, mutations, List.filterMap_cons, List.filterMap_nil, hselect, hselect',
      hmerge, hinsert, hupdate, hdelete, hgroup]

/-- The words of the verb as they are, with spaces between them. -/
def TemporaryWrite.plain (verb : List String) (isVerb : verb ∈ changes) (mark : Char)
    (isMark : mark = '#' ∨ mark = '@') (name : Text) (isName : name.all Text.isWord = true) :
    TemporaryWrite :=
  { verb, isVerb, mark, isMark, name
    isName := List.all_eq_true.mp isName
    words := Text.joinWith [' '] (verb.map String.toList)
    shows := showsPhrase_joinWith verb }

theorem intentOfBody_append_insert :
    selectFrom.occursIn "SELECT a FROM t".toList = true ∧
    intentOfBody ("SELECT a FROM t".toList ++ part ++ "INSERT INTO #t".toList) = .get := by
  have hselect : selectFrom.occursIn "SELECT a FROM t".toList = true := by decide +kernel
  have hget : intentOfBody "SELECT a FROM t".toList = .get := by decide +kernel
  have happend := intentOfBody_append_temporaryWrite hselect
    (.plain ["INSERT", "INTO"] (by decide) '#' (.inl rfl) ['t'] rfl)
  exact ⟨hselect, happend.trans hget⟩

/-- The word between verb and name is taken for a table. -/
theorem exists_intentOfBody_ne :
    ∃ c : TemporaryWrite, c.write = "MERGE INTO #t".toList ∧
      selectFrom.occursIn "SELECT a FROM t".toList = true ∧
      intentOfBody "SELECT a FROM t".toList = .get ∧
      intentOfBody ("SELECT a FROM t".toList ++ part ++ c.write) = .mixed :=
  ⟨.plain ["MERGE", "INTO"] (by decide) '#' (.inl rfl) ['t'] rfl, by decide +kernel,
    by decide +kernel, by decide +kernel, by decide +kernel⟩

end ProcCatalog.Body
