import ProcCatalog.Proofs.Body.KnownTables
import ProcCatalog.Proofs.Body.Parted
import ProcCatalog.Proofs.Sql.DottedName

/-!
# Statements that refer to tables

A statement is a verb and the name of a table. Of statements written on lines of their own, each is
found whole: no verb takes a word of the name, and no name a word of the next statement.
-/

namespace ProcCatalog.Body

open Pattern
open Sql (DottedName EndsName Identifier)
open Text (Token)

/-! ## Statements with a reference -/

/-- The words that stand in front of a table. -/
def verbs : List (List String) :=
  [["FROM"], ["JOIN"], ["INSERT"], ["INSERT", "INTO"], ["UPDATE"], ["DELETE"], ["DELETE", "FROM"],
    ["MERGE"], ["MERGE", "INTO"], ["TRUNCATE", "TABLE"]]

/-- The text shows the words, in capitals or small letters, with blanks between them. -/
def ShowsPhrase : List String → Text → Prop
  | [], t => t = []
  | [w], t => Spells w.toList t
  | w :: ws, t => ∃ (word : Text) (gap : Token Text.isBlank) (others : Text),
      t = word ++ (gap.text ++ others) ∧ Spells w.toList word ∧ ShowsPhrase ws others

/-- A verb and the table it refers to. The name does not begin with a keyword, which could be read
as a further word of the verb. -/
structure Statement where
  verb : List String
  isVerb : verb ∈ verbs
  words : Text
  shows : ShowsPhrase verb words
  gap : Token Text.isBlank
  object : DottedName
  ordinary : object.first.IsOrdinary

def Statement.write (s : Statement) : Text := s.words ++ (s.gap.text ++ s.object.write)

def writeStatements (ss : List Statement) : Text := Text.joinWith ['\n'] (ss.map Statement.write)

/-! ## The verb -/

theorem takes_blanks1 (gap : Token Text.isBlank) {v : Text}
    (hv : ∀ x ∈ v.head?, Text.isBlank x = false) : Takes blanks1 gap.text v :=
  takes_many1 gap hv

private theorem head?_spells {letters t : Text} (h : Spells letters t) (hne : letters ≠ [])
    (hword : letters.all Text.isWord = true) (v : Text) :
    ∀ x ∈ (t ++ v).head?, Text.isBlank x = false := by
  refine Text.forall_head?_append v ?_ fun x hx =>
    Text.isBlank_eq_false_of_isWord (h.isWord hword x hx)
  cases h with
  | nil => exact absurd rfl hne
  | cons => simp

/-- A word that another one may follow. -/
private def withTail (first second : String) : Pattern :=
  .seq (keyword first) (option (.seq blanks1 (keyword second)))

/-- The branches of the pattern for verbs. -/
private def branches : List Pattern :=
  [keyword "FROM", keyword "JOIN", withTail "INSERT" "INTO", keyword "UPDATE",
    withTail "DELETE" "FROM", withTail "MERGE" "INTO", phrase ["TRUNCATE", "TABLE"]]

private theorem starts_branches (x : Char) :
    branches.map (starts x) = "FJIUDMT".toList.map (Text.sameLetter · x) := by
  simp [branches, withTail, starts, phrase, all, keyword, moves]

private theorem branches_differ (x : Char) :
    (branches.map (starts x)).Pairwise fun s t => s = true → t = false := by
  have hletters : "FJIUDMT".toList.Pairwise fun a b => Text.foldCase a ≠ Text.foldCase b := by
    decide
  rw [starts_branches, List.pairwise_map]
  refine hletters.imp fun hab ha => ?_
  simp only [Text.sameLetter, beq_iff_eq, beq_eq_false_iff_ne] at ha ⊢
  rwa [← ha, ne_comm]

private theorem run_tableVerb {p : Pattern} (hp : p ∈ branches) {c r : Cursor} {k : Follow}
    (h : p.run c k = some r) : tableVerb.run c k = some r :=
  run_any_of_mem hp branches_differ (by decide) h

section

variable {first second : String} {t : Text}
  (hsecond : second.toList ≠ [] ∧ second.toList.all Text.isWord = true)
include hsecond

private theorem takes_phrase (h : ShowsPhrase [first, second] t) (v : Text) :
    Takes (phrase [first, second]) t v := by
  obtain ⟨u, between, others, rfl, hu, hothers⟩ := h
  have hblank := takes_blanks1 between (head?_spells hothers hsecond.1 hsecond.2 v)
  exact (takes_spelled hu _).seq (hblank.seq (takes_spelled hothers v).last)

private theorem takes_withTail (h : ShowsPhrase [first, second] t) (v : Text) :
    Takes (withTail first second) t v := by
  obtain ⟨u, between, others, rfl, hu, hothers⟩ := h
  have hblank := takes_blanks1 between (head?_spells hothers hsecond.1 hsecond.2 v)
  exact (takes_spelled hu _).seq ((hblank.seq (takes_spelled hothers v)).option)

end

/-! ## The name behind the verb -/

private def object : Pattern := all [blanks1, .named "object" Sql.objectName, Sql.nameEnd]

private theorem tableReference_eq : tableReference = .seq .wordEdge (.seq tableVerb object) := rfl

variable {v : Text} {c : Cursor}

private theorem run_nameEnd (hv : EndsName v) (hc : c.rest = v) (k : Follow) :
    Sql.nameEnd.run c k = k c := by
  have hnone : (Pattern.alt (.one fun c => Sql.isNameTail c || c == ']')
      (.seq blanks (char '.'))).run c some = none := by
    refine run_eq_none_of_not_begins ?_
    rw [hc]
    rintro ⟨_, rest, rfl, ⟨x, hx, rfl⟩ | ⟨blank, _, rfl, hblank, hdot⟩⟩
    · obtain ⟨htail, hclose⟩ := hv.noTail x rfl
      simp [htail, hclose] at hx
    · have hdot := spans_char.mp hdot
      subst hdot
      refine hv.noDot '.' ?_ rfl
      rw [List.append_assoc, Text.trimStart_append hblank (by rintro x ⟨⟩; rfl)]
      rfl
  rw [Sql.nameEnd, run, hnone]
  rfl

private theorem head?_name (name : DottedName) (v : Text) :
    ∀ x ∈ (name.write ++ v).head?, Text.isBlank x = false := by
  rw [DottedName.write, List.append_assoc]
  exact fun x hx => (name.first.head?_write _ x hx).1

private theorem exists_run_object (gap : Token Text.isBlank) (name : DottedName) (hv : EndsName v)
    (hc : c.rest = gap.text ++ (name.write ++ v)) :
    ∃ r, object.run c some = some r ∧ r.rest = v ∧
      r.marks = ("object", name.write) :: c.marks := by
  let named := (c.past gap.text (name.write ++ v)).past name.write v
  refine ⟨named.mark "object" name.write, ?_, rfl, rfl⟩
  rw [object, run_all_cons]
  refine takes_blanks1 gap (head?_name name v) _ _ _ hc ?_
  rw [run_all_cons]
  refine run_named_past (name.takes_objectName hv) rfl ?_
  rw [run_all_cons, run_nameEnd hv rfl, run_all_nil]

/-- The words that may stand behind the first word of a verb. -/
private def tails : List String := ["INTO", "FROM"]

private theorem isWord_tail {w : String} (hw : w ∈ tails) :
    w.toList ≠ [] ∧ w.toList.all Text.isWord = true := by
  revert w
  decide

private theorem isKeyword_of_tail {w : String} (hw : w ∈ tails) {u : Text}
    (h : Spells w.toList u) (hstart : u.head?.any Sql.isPlainStart = true) :
    Sql.isKeyword u = true := by
  simp only [tails, List.mem_cons, List.not_mem_nil, or_false] at hw
  rcases hw with rfl | rfl <;>
    exact Sql.isKeyword_of_spells h hstart (by decide) (by decide +kernel)

/-- An ordinary name begins with none of these words and a blank. -/
private theorem write_ne {w : String} (hw : w ∈ tails) {t : Text} (ht : Spells w.toList t)
    {name : DottedName} (hname : name.first.IsOrdinary) (hv : EndsName v) {y : Char}
    (hy : Text.isBlank y = true) (rest : Text) : name.write ++ v ≠ t ++ y :: rest := by
  intro hcut
  obtain ⟨hletters, hword⟩ := isWord_tail hw
  rw [DottedName.write, List.append_assoc] at hcut
  cases hfirst : name.first with
  | bracketed content =>
      rw [hfirst] at hcut
      cases t with
      | nil => exact hletters (List.forall₂_nil_right_iff.mp ht)
      | cons x t =>
          obtain ⟨rfl, -⟩ := List.cons.inj hcut
          exact absurd (ht.isWord hword _ List.mem_cons_self) (by decide)
  | plain word starts =>
      rw [hfirst] at hcut hname
      have htail : ∀ x ∈ t, Sql.isNameTail x = true := fun x hx => by
        simp [Sql.isNameTail, ht.isWord hword x hx]
      have hstop : ∀ x ∈ (y :: rest).head?, Sql.isNameTail x = false := by
        rintro x ⟨⟩
        refine Bool.eq_false_iff.mpr fun h => ?_
        rw [Sql.isBlank_eq_false_of_isNameTail h] at hy
        cases hy
      have hnext := Sql.FurtherPart.head?_flatMap_write name.further (v := v)
        fun x hx => (hv.noTail x hx).1
      -- both sides begin with the same word
      have hwords := congrArg (List.takeWhile Sql.isNameTail) hcut
      rw [Text.takeWhile_append_of_head? htail hstop, Identifier.write,
        Text.takeWhile_append_of_head? word.accepted hnext] at hwords
      rw [← hwords] at ht
      have hkeyword := isKeyword_of_tail hw ht hname.1
      rw [hname.2] at hkeyword
      cases hkeyword

/-- An ordinary name is not taken for a further word of the verb. -/
private theorem run_tail_eq_none {w : String} (hw : w ∈ tails) (gap : Token Text.isBlank)
    {name : DottedName} (hname : name.first.IsOrdinary) (hv : EndsName v)
    (hc : c.rest = gap.text ++ (name.write ++ v)) :
    (Pattern.seq blanks1 (keyword w)).run c (fun d => object.run d some) = none := by
  change (Pattern.seq (.seq blanks1 (keyword w)) object).run c some = none
  refine run_eq_none_of_not_begins ?_
  rw [hc]
  rintro ⟨_, rest, hcut, _, _, rfl, ⟨before, t, rfl, hbefore, ht⟩, behind, more, rfl, hbehind, -⟩
  obtain ⟨hletters, hword⟩ := isWord_tail hw
  have hspells : Spells w.toList t := spans_keyword_iff.mp ht
  have hblanks : ∀ x ∈ before, Text.isBlank x = true := (spans_many1.mp hbefore).2
  obtain ⟨hne, hbehind⟩ := spans_many1.mp hbehind
  obtain ⟨y, behind, rfl⟩ := List.exists_cons_of_ne_nil hne
  refine write_ne hw hspells hname hv (hbehind y List.mem_cons_self) (behind ++ (more ++ rest)) ?_
  have hleft := Text.trimStart_append gap.accepted (head?_name name v)
  rw [← hleft, hcut, List.append_assoc, List.append_assoc, Text.trimStart_append hblanks]
  · simp
  · exact head?_spells hspells hletters hword _

/-! ## Statements one after the other -/

private theorem ShowsPhrase.exists_first {w : String} {ws : List String} {t : Text}
    (h : ShowsPhrase (w :: ws) t) : ∃ u rest, t = u ++ rest ∧ Spells w.toList u := by
  cases ws with
  | nil => exact ⟨t, [], (List.append_nil t).symm, h⟩
  | cons w' ws =>
      obtain ⟨u, gap, others, rfl, hu, -⟩ := h
      exact ⟨u, _, rfl, hu⟩

private theorem ShowsPhrase.head?_isWord {verb : List String} (hverb : verb ∈ verbs) {t : Text}
    (h : ShowsPhrase verb t) (v : Text) : (t ++ v).head?.any Text.isWord = true := by
  obtain ⟨w, ws, a, letters, rfl, hw, ha⟩ : ∃ w ws a letters,
      verb = w :: ws ∧ w.toList = a :: letters ∧ Text.isWord a = true := by
    simp only [verbs, List.mem_cons, List.not_mem_nil, or_false] at hverb
    rcases hverb with rfl | rfl | rfl | rfl | rfl | rfl | rfl | rfl | rfl | rfl <;>
      exact ⟨_, _, _, _, rfl, rfl, rfl⟩
  obtain ⟨u, rest, rfl, hu⟩ := h.exists_first
  rw [hw] at hu
  cases hu with
  | cons hx _ => simpa [Text.isWord_eq_of_sameLetter hx] using ha

/-- The verb is taken up to its end, from where the name is found. -/
private theorem run_tableVerb_past {verb : List String} (hverb : verb ∈ verbs) {words : Text}
    (shows : ShowsPhrase verb words) (gap : Token Text.isBlank) {name : DottedName}
    (hname : name.first.IsOrdinary) (hv : EndsName v) {r : Cursor}
    (hc : c.rest = words ++ (gap.text ++ (name.write ++ v)))
    (hr : object.run (c.past words (gap.text ++ (name.write ++ v))) some = some r) :
    tableVerb.run c (fun d => object.run d some) = some r := by
  have hone {w : String} (hw : keyword w ∈ branches) (shows : ShowsPhrase [w] words) :
      tableVerb.run c (fun d => object.run d some) = some r :=
    run_tableVerb hw (by rwa [run_keyword_past hc shows])
  have hfirst {a b : String} (hab : withTail a b ∈ branches) (hb : b ∈ tails)
      (shows : ShowsPhrase [a] words) :
      tableVerb.run c (fun d => object.run d some) = some r :=
    run_tableVerb hab (by
      rw [withTail, run, run_keyword_past hc shows,
        run_option_skip (run_tail_eq_none hb gap hname hv rfl), hr])
  have hboth {a b : String} (hab : withTail a b ∈ branches) (hb : b ∈ tails)
      (shows : ShowsPhrase [a, b] words) :
      tableVerb.run c (fun d => object.run d some) = some r :=
    run_tableVerb hab (takes_withTail (isWord_tail hb) shows _ _ _ _ hc hr)
  simp only [verbs, List.mem_cons, List.not_mem_nil, or_false] at hverb
  rcases hverb with rfl | rfl | rfl | rfl | rfl | rfl | rfl | rfl | rfl | rfl
  · exact hone (by simp [branches]) shows
  · exact hone (by simp [branches]) shows
  · exact hfirst (b := "INTO") (by simp [branches]) (by decide) shows
  · exact hboth (by simp [branches]) (by decide) shows
  · exact hone (by simp [branches]) shows
  · exact hfirst (b := "FROM") (by simp [branches]) (by decide) shows
  · exact hboth (by simp [branches]) (by decide) shows
  · exact hfirst (b := "INTO") (by simp [branches]) (by decide) shows
  · exact hboth (by simp [branches]) (by decide) shows
  · refine run_tableVerb (p := phrase ["TRUNCATE", "TABLE"]) (by simp [branches]) ?_
    exact takes_phrase (by decide) shows _ _ _ _ hc hr

private theorem run_statement (s : Statement) (hv : EndsName v)
    (hc : c.rest = s.write ++ v) (hbefore : c.beforeIsWord = false) :
    ∃ r, tableReference.run c some = some r ∧ r.rest = v ∧
      r.marks = ("object", s.object.write) :: c.marks := by
  obtain ⟨verb, isVerb, words, shows, gap, name, ordinary⟩ := s
  have hc : c.rest = words ++ (gap.text ++ (name.write ++ v)) := by
    simpa [Statement.write] using hc
  obtain ⟨r, hr, hrest, hmarks⟩ := exists_run_object gap name hv
    (c := c.past words (gap.text ++ (name.write ++ v))) rfl
  refine ⟨r, ?_, hrest, hmarks⟩
  have hedge : (c.beforeIsWord != c.nextIsWord) = true := by
    rw [hbefore, Cursor.nextIsWord, hc, shows.head?_isWord isVerb]
    rfl
  rw [tableReference_eq, run, run, if_pos hedge]
  change tableVerb.run c (fun d => object.run d some) = some r
  exact run_tableVerb_past isVerb shows gap ordinary hv hc hr

private theorem endsName_feed (s : Statement) (v : Text) : EndsName ('\n' :: (s.write ++ v)) := by
  have hword := s.shows.head?_isWord s.isVerb (s.gap.text ++ (s.object.write ++ v))
  refine ⟨by rintro x ⟨⟩; exact ⟨rfl, by decide⟩, fun x hx => ?_⟩
  have hhead : ∀ x ∈ (s.write ++ v).head?, Text.isWord x = true := by
    intro x hx
    simp only [Statement.write, List.append_assoc, Option.mem_def] at hx
    simpa [hx] using hword
  have htrim := Text.trimStart_append (u := ['\n']) (v := s.write ++ v) (by simp) fun x hx =>
    Text.isBlank_eq_false_of_isWord (hhead x hx)
  rw [← List.singleton_append, htrim] at hx
  rintro rfl
  exact absurd (hhead '.' hx) (by decide)

/-- The statements behind the first one, each on a line of its own. -/
private def behind (ss : List Statement) : Text := ss.flatMap fun s => '\n' :: s.write

private theorem behind_cons (s : Statement) (ss : List Statement) :
    behind (s :: ss) = '\n' :: (s.write ++ behind ss) := by
  simp [behind]

private theorem writeStatements_cons (s : Statement) (ss : List Statement) :
    writeStatements (s :: ss) = s.write ++ behind ss := by
  induction ss generalizing s with
  | nil => simp [writeStatements, Text.joinWith, behind]
  | cons s' ss ih =>
      simp only [writeStatements, Text.joinWith, List.map_cons] at ih ⊢
      rw [List.intercalate_cons_cons, ih, behind_cons, List.append_assoc, List.singleton_append]

private theorem endsName_behind (ss : List Statement) : EndsName (behind ss) := by
  cases ss with
  | nil => exact .nil
  | cons s ss =>
      rw [behind_cons]
      exact endsName_feed s _

/-- In front of a place where a name ends a statement is found whole. -/
private theorem exists_allFrom_statement (s : Statement) (hv : EndsName v) {before : Option Char}
    (hbefore : before.any Text.isWord = false) (offset : Nat) :
    ∃ before' offset', marksOf (tableReference.allFrom 0 before offset (s.write ++ v)) =
      [("object", s.object.write)] :: marksOf (tableReference.allFrom 0 before' offset' v) := by
  obtain ⟨r, hr, hrest, hmarks⟩ := run_statement s hv
    (c := ⟨before, s.write ++ v, offset, []⟩) rfl hbefore
  have hfound : tableReference.matchAt ⟨before, s.write ++ v, offset, []⟩ = some ⟨offset, r⟩ := by
    rw [matchAt, hr]
    rfl
  obtain ⟨x, t, hs⟩ : ∃ x t, s.write ++ v = x :: t := by
    have hword := s.shows.head?_isWord s.isVerb (s.gap.text ++ (s.object.write ++ v))
    refine List.exists_cons_of_ne_nil ?_
    rintro hnil
    simp [Statement.write] at hnil
    simp [hnil] at hword
  rw [hs] at hfound ⊢
  rw [(allFrom_of_some rfl hfound).1, marksOf, List.map_cons, hmarks, hrest]
  exact ⟨_, _, rfl⟩

/-- Nothing but the names of the statements is found, each at its place. -/
private theorem marksOf_statements (s : Statement) (ss : List Statement) {before : Option Char}
    (hbefore : before.any Text.isWord = false) (offset : Nat) :
    marksOf (tableReference.allFrom 0 before offset (s.write ++ behind ss)) =
      (s :: ss).map fun s => [("object", s.object.write)] := by
  induction ss generalizing s before offset with
  | nil =>
      obtain ⟨_, _, h⟩ := exists_allFrom_statement s (endsName_behind []) hbefore offset
      rw [h]
      rfl
  | cons s' ss ih =>
      obtain ⟨before', offset', h⟩ :=
        exists_allFrom_statement s (endsName_behind (s' :: ss)) hbefore offset
      have hskip : tableReference.matchAt
          ⟨before', '\n' :: (s'.write ++ behind ss), offset', []⟩ = none :=
        matchAt_eq_none_iff.mpr (not_begins_of_starts rfl rfl _ _)
      rw [h, behind_cons, allFrom_of_none hskip, ih s' rfl, List.map_cons (a := s)]

theorem objectNames_statements (ss : List Statement) :
    objectNames tableReference (writeStatements ss) =
      ss.map fun s => s.object.write := by
  cases ss with
  | nil => rfl
  | cons s ss =>
      rw [objectNames_eq, writeStatements_cons, findAll, marksOf_statements s ss rfl,
        List.filterMap_map]
      exact congrFun List.filterMap_eq_map _

/-! ## What the names refer to -/

/-- The table that a name refers to: if it has several parts the last one, else the first known
table of that name, small and capital letters alike. -/
def RefersTo (known : List Text) (name : DottedName) (table : Text) : Prop :=
  isTemporary name.last.bare = false ∧
    if name.further = [] then
      Sql.isKeyword name.last.bare = false ∧
        known.find? (fun k => Text.lower k == Text.lower name.last.bare) = some table
    else table = name.last.bare

theorem resolve_eq_some_iff {known : List Text} {name : DottedName} {table : Text} :
    (KnownTables.ofList known).resolve name.write = some table ↔ RefersTo known name table := by
  have hfurther : name.toQualified.further = [] ↔ name.further = [] := by
    simp [DottedName.toQualified]
  rw [← name.write_toQualified, KnownTables.resolve_write, name.last_toQualified,
    Identifier.bare_toPart, RefersTo, KnownTables.spelling?_ofList]
  cases isTemporary name.last.bare with
  | true => simp
  | false =>
      by_cases hone : name.further = []
      · cases Sql.isKeyword name.last.bare <;> simp [hfurther, hone]
      · simp [hfurther, hone, eq_comm]

/-- Of statements written one after the other nothing is found but what they refer to. -/
theorem tables_writeStatements (known : List Text) (ss : List Statement) :
    Text.Ascending (tables (.ofList known) (writeStatements ss)) ∧
      ∀ table, table ∈ tables (.ofList known) (writeStatements ss) ↔
        ∃ s ∈ ss, RefersTo known s.object table := by
  refine ⟨Text.ascending_sortedSet _, fun table => ?_⟩
  rw [tables, Text.mem_sortedSet, objectNames_statements, List.mem_filterMap]
  simp only [List.mem_map, exists_exists_and_eq_and, resolve_eq_some_iff]

/-- A name of one part counts in the known spelling, and blanks around dots do not end a name. -/
example : tables (.ofList ["Orders".toList])
    "insert ORDERS\nMERGE INTO [a.b] . Into\nTRUNCATE\tTABLE dbo.#t\nDELETE log".toList =
      ["Into".toList, "Orders".toList] := by decide +kernel

end ProcCatalog.Body
