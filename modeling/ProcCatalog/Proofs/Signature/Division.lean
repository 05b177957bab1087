import ProcCatalog.Proofs.Signature.HeaderEnd

/-!
# How a header is divided

Whichever strategy finds the boundary, what stands behind the name is made up of the parameters,
one whole word AS with blanks around it, and the body, and nothing is lost.
-/

namespace ProcCatalog.Signature

open Pattern

variable {before : Option Char} {s u rest params gap word gap' body : Text}

/-! ## Parted texts -/

/-- One whole word AS, with blanks around it, parts the text in two. -/
structure PartedBy (gap word gap' : Text) (before : Option Char) (s params body : Text) :
    Prop where
  text : s = params ++ (gap ++ (word ++ (gap' ++ body)))
  spells : Spells "AS".toList word
  blankBefore : ∀ x ∈ gap, Text.isBlank x = true
  blankBehind : ∀ x ∈ gap', Text.isBlank x = true
  noWordBefore : (lastOr before (params ++ gap)).any Text.isWord = false
  noWordBehind : (gap' ++ body).head?.any Text.isWord = false

def PartedByAs (before : Option Char) (s params body : Text) : Prop :=
  ∃ gap word gap', PartedBy gap word gap' before s params body

/-- The parameters and the body are parted, and the boundary lies around what parts them. -/
structure Boundary.Divides (b : Boundary) (s : Text) : Prop where
  start_le : b.start ≤ b.stop
  stop_le : b.stop ≤ s.length
  parted : PartedByAs none s (s.take b.start) (s.drop b.stop)

theorem PartedBy.divides (h : PartedBy gap word gap' none s params body) {b : Boundary}
    (hstart : b.start = params.length)
    (hstop : b.stop = params.length + (gap ++ (word ++ gap')).length) : b.Divides s := by
  have htext : s = (params ++ (gap ++ (word ++ gap'))) ++ body := by simp [h.text]
  have htake : s.take b.start = params := by
    rw [hstart, h.text, List.take_left' rfl]
  have hdrop : s.drop b.stop = body := by
    rw [hstop, htext, ← List.length_append, List.drop_left' rfl]
  refine ⟨by omega, ?_, gap, word, gap', by rwa [htake, hdrop]⟩
  simp only [hstop, htext, List.length_append]
  omega

/-- Behind blanks no word ends, if none ends in front of them. -/
theorem any_isWord_lastOr (hbefore : before.any Text.isWord = false)
    (hu : ∀ x ∈ u, Text.isBlank x = true) : (lastOr before u).any Text.isWord = false := by
  by_cases hne : u = []
  · rwa [hne]
  · rw [lastOr_of_ne_nil _ hne, List.getLast?_eq_getLast_of_ne_nil hne]
    exact Text.isWord_eq_false_of_isBlank (hu _ (List.getLast_mem hne))

/-! ## The strategies -/

variable {b : Boundary}

theorem LineEnd.noWordBehind {br : Text} (h : LineEnd u word gap br) (r : Text) :
    ((gap ++ br) ++ r).head?.any Text.isWord = false := by
  have hhead := h.head?_tail r
  rw [List.append_assoc]
  cases hs : (gap ++ (br ++ r)).head? with
  | none => rfl
  | some x => exact Text.isWord_eq_false_of_isBlank (hhead x hs)

theorem divides_of_lineEnd {br : Text} (h : LineEnd u word gap' br) {found : Found}
    {params indent : Text} (htext : s = params ++ (indent ++ (u ++ rest)))
    (hindent : ∀ x ∈ indent, Text.isBlank x = true)
    (hclosed : (lastOr none (params ++ indent)).any Text.isWord = false) (strategy : Strategy)
    (hstart : found.start = params.length)
    (hstop : found.stop.offset = params.length + (indent ++ u).length) :
    (boundaryOf strategy found).Divides s := by
  have hparted : PartedBy indent word (gap' ++ br) none s params rest :=
    ⟨by simp [htext, h.text], h.spells, hindent, h.isBlank_tail, hclosed, h.noWordBehind rest⟩
  exact hparted.divides hstart (by rw [boundaryOf, hstop, h.text])

theorem divides_ownLine (h : ownLine? s = some b) : b.Divides s := by
  obtain ⟨found, hfind, rfl⟩ : ∃ found, asOnOwnLine.find? s = some found ∧
      b = boundaryOf .ownLine found := by
    rw [ownLine?] at h
    split at h
    · cases h
    · rename_i found hfind
      split at h
      · split at h
        · cases h
        · exact ⟨found, hfind, (Option.some.inj h).symm⟩
      · exact ⟨found, hfind, (Option.some.inj h).symm⟩
  obtain ⟨a, u, hat⟩ := find?_eq_some hfind
  obtain ⟨indent, v, rfl, hindent, word, gap, br, hend⟩ := spans_asOnOwnLine_iff.mp hat.spans
  have htext : s = a ++ (('\n' :: indent) ++ (v ++ found.stop.rest)) := by simp [hat.text]
  refine divides_of_lineEnd hend htext (isBlank_indent hindent) (closed_indent a hindent) _ ?_ ?_
  · simpa using hat.start
  · simpa using hat.stop

theorem divides_endOfLine {found : Found} (h : asAtLineEnd.find? s = some found) :
    (boundaryOf .endOfLine found).Divides s := by
  obtain ⟨a, u, hat⟩ := find?_eq_some h
  obtain ⟨hclosed, word, gap, br, hend⟩ := spans_asAtLineEnd_iff.mp hat.spans
  have htext : s = a ++ ([] ++ (u ++ found.stop.rest)) := by simp [hat.text]
  refine divides_of_lineEnd hend htext (by simp) (by simpa using hclosed) _ ?_ ?_
  · simpa using hat.start
  · simpa using hat.stop

theorem spans_wordAs_iff :
    (all [keyword "AS", .wordEdge]).Spans before u rest ↔
      Spells "AS".toList u ∧ rest.head?.any Text.isWord = false := by
  constructor
  · rintro ⟨word, _, rfl, hword, _, _, rfl, ⟨rfl, hrest⟩, rfl⟩
    have hspells : Spells "AS".toList word := spans_keyword_iff.mp hword
    obtain ⟨x, y, rfl, -, hy⟩ := exists_of_spells_as hspells
    exact ⟨by simpa using hspells, by simpa [hy] using hrest⟩
  · rintro ⟨hspells, hrest⟩
    obtain ⟨x, y, rfl, -, hy⟩ := exists_of_spells_as hspells
    rw [← List.append_nil [x, y]]
    exact .cons (spans_keyword_iff.mpr hspells) (.last ⟨rfl, by simp [hrest, hy]⟩)

theorem divides_of_wordAs (hword : (all [keyword "AS", .wordEdge]).Spans before word rest)
    {params gap : Text} (htext : s = params ++ (gap ++ (word ++ rest)))
    (hgap : ∀ x ∈ gap, Text.isBlank x = true)
    (hclosed : (lastOr none (params ++ gap)).any Text.isWord = false)
    (hstart : b.start = params.length) (hstop : b.stop = params.length + (gap ++ word).length) :
    b.Divides s := by
  obtain ⟨hspells, hrest⟩ := spans_wordAs_iff.mp hword
  have hparted : PartedBy gap word [] none s params rest :=
    ⟨htext, hspells, hgap, by simp, hclosed, hrest⟩
  exact hparted.divides hstart (by rw [hstop, List.append_nil])

theorem divides_lineStart {found : Found} (h : asAtLineStart.find? s = some found) :
    (boundaryOf .lineStart found).Divides s := by
  obtain ⟨a, u, hat⟩ := find?_eq_some h
  have hstart := hat.start
  have hstop := hat.stop
  obtain ⟨_, _, rfl, ⟨rfl, hline⟩, indent, word, rfl, hindent, hword⟩ := hat.spans
  have hclosed : (lastOr none a).any Text.isWord = false := by
    rcases hline with hline | hline <;> rw [hline] <;> rfl
  have hblank : ∀ x ∈ indent, Text.isBlank x = true := fun x hx => isBlank_of_isSpace (hindent x hx)
  have htext : s = a ++ (indent ++ (word ++ found.stop.rest)) := by simpa using hat.text
  refine divides_of_wordAs hword htext hblank ?_ (by simpa [boundaryOf] using hstart)
    (by simpa [boundaryOf] using hstop)
  rw [lastOr_append]
  exact any_isWord_lastOr hclosed hblank

theorem divides_anywhere {found : Found} (h : asAnywhere.find? s = some found) :
    (boundaryOf .anywhere found).Divides s := by
  obtain ⟨a, u, hat⟩ := find?_eq_some h
  have hstart := hat.start
  have hstop := hat.stop
  obtain ⟨_, word, rfl, ⟨x, hx, rfl⟩, hword⟩ := hat.spans
  have htext : s = a ++ ([x] ++ (word ++ found.stop.rest)) := by simpa using hat.text
  refine divides_of_wordAs hword htext (by simpa using hx) ?_
    (by simpa [boundaryOf] using hstart) (by simpa [boundaryOf, Nat.add_comm 1] using hstop)
  rw [lastOr_append]
  exact Text.isWord_eq_false_of_isBlank hx

theorem divides_parenThenAs (h : parenThenAs? s = some b) : b.Divides s := by
  obtain ⟨close, found, hmatch, rfl⟩ : ∃ close found,
      asAfterParen.matchAt ⟨none, s.drop close, close, []⟩ = some found ∧
        b = ⟨.parenThenAs, close + 1, found.stop.offset⟩ := by
    rw [parenThenAs?] at h
    split at h
    · split at h
      · cases h
      · rename_i close _
        split at h
        · cases h
        · rename_i found hmatch
          exact ⟨close, found, hmatch, (Option.some.inj h).symm⟩
    · cases h
  obtain ⟨-, u, after, hspan⟩ := matchAt_eq_some hmatch
  have hrest : s.drop close = u ++ found.stop.rest := after.rest
  have hstop : found.stop.offset = close + u.length := after.offset
  obtain ⟨_, _, rfl, hparen, gap, word, rfl, hgap, hword⟩ := hspan
  obtain rfl := spans_char.mp hparen
  have hlength : (s.take close ++ [')']).length = close + 1 := by
    have hpos := congrArg List.length hrest
    simp only [List.length_drop, List.length_append, List.length_singleton] at hpos
    rw [List.length_append, List.length_take, List.length_singleton]
    omega
  have htext : s = (s.take close ++ [')']) ++ (gap ++ (word ++ found.stop.rest)) := by
    conv_lhs => rw [← List.take_append_drop close s, hrest]
    simp
  refine divides_of_wordAs hword htext hgap ?_ hlength.symm ?_
  · rw [lastOr_append, lastOr_append]
    exact any_isWord_lastOr rfl hgap
  · rw [hlength, hstop, List.length_append, List.length_singleton, Nat.add_assoc]

/-- What every strategy finds is one whole word AS, and blanks around it. -/
theorem Strategy.divides (strategy : Strategy) (h : strategy.find? s = some b) : b.Divides s := by
  cases strategy with
  | ownLine => exact divides_ownLine h
  | parenThenAs => exact divides_parenThenAs h
  | endOfLine =>
      obtain ⟨found, hfind, rfl⟩ := Option.map_eq_some_iff.mp h
      exact divides_endOfLine hfind
  | lineStart =>
      obtain ⟨found, hfind, rfl⟩ := Option.map_eq_some_iff.mp h
      exact divides_lineStart hfind
  | anywhere =>
      obtain ⟨found, hfind, rfl⟩ := Option.map_eq_some_iff.mp h
      exact divides_anywhere hfind

theorem divides_boundary? (h : boundary? s = some b) : b.Divides s := by
  obtain ⟨strategy, -, hfind⟩ := List.exists_of_findSome?_eq_some h
  exact strategy.divides hfind

/-! ## Behind the name -/

private theorem exists_run_close (c : Cursor) :
    ∃ r, (all [option (char ']')]).run c some = some r ∧
      (r.beforeIsWord = false ∨ r.rest = c.rest) := by
  rw [run_all_cons]
  cases hs : c.rest with
  | nil =>
      refine ⟨c, ?_, .inr hs⟩
      rw [run_option_skip (by rw [char, run, hs]), run_all_nil]
  | cons x s =>
      by_cases hx : x = ']'
      · subst hx
        exact ⟨c.past [']'] s, run_alt_left (run_char_past hs), .inl rfl⟩
      · refine ⟨c, ?_, .inr hs⟩
        rw [run_option_skip (by simp [char, run, hs, hx]), run_all_nil]

/-- A word that may stand in brackets is taken to its end. -/
private theorem ends_of_run_bracketedWord {mark : String} {c r : Cursor}
    (h : (bracketedWord mark).run c some = some r) :
    r.beforeIsWord = false ∨ r.nextIsWord = false := by
  rw [bracketedWord, run_all_cons] at h
  obtain ⟨-, d, -, -, h⟩ := exists_spans_of_run h
  rw [run_all_cons, run, word1, many1, run] at h
  obtain ⟨-, e, -, -, h⟩ := exists_spans_of_run h
  let follow : Follow := fun f =>
    (all [option (char ']')]).run (f.mark mark (d.upTo f)) some
  change (Pattern.many Text.isWord).run e follow = some r at h
  let word := e.rest.takeWhile Text.isWord
  let behind := e.rest.dropWhile Text.isWord
  have hstop : ∀ x ∈ behind.head?, Text.isWord x = false := by
    intro x hx
    have hhead := List.head?_dropWhile_not Text.isWord e.rest
    rwa [Option.mem_def.mp hx] at hhead
  obtain ⟨r', hr', hends⟩ := exists_run_close
    ((e.past word behind).mark mark (d.upTo (e.past word behind)))
  have hall : (Pattern.many Text.isWord).run e follow = some r' :=
    run_many_past List.takeWhile_append_dropWhile.symm (fun x hx => List.mem_takeWhile_imp hx)
      hstop hr'
  obtain rfl : r' = r := Option.some.inj (hall.symm.trans h)
  refine hends.imp_right fun hrest => ?_
  rw [Cursor.nextIsWord, hrest]
  change behind.head?.any Text.isWord = false
  simpa [Option.any_eq_false] using hstop

/-- What follows other parts is run behind them. -/
private theorem exists_run_of_run_all_append (ps qs : List Pattern) {c r : Cursor} {k : Follow}
    (h : (all (ps ++ qs)).run c k = some r) : ∃ d, (all qs).run d k = some r := by
  induction ps generalizing c with
  | nil => exact ⟨c, h⟩
  | cons p ps ih =>
      rw [List.cons_append, run_all_cons] at h
      obtain ⟨-, d, -, -, hmore⟩ := exists_spans_of_run h
      exact ih hmore

private theorem ends_of_matchAt {c : Cursor} {found : Found}
    (h : procedureName.matchAt c = some found) :
    found.stop.beforeIsWord = false ∨ found.stop.nextIsWord = false := by
  obtain ⟨r, hrun, rfl⟩ := Option.map_eq_some_iff.mp h
  obtain ⟨d, hname⟩ := exists_run_of_run_all_append
    [Script.createProcedure, blanks1, bracketedWord "schema", blanks, char '.', blanks]
    [bracketedWord "name"] hrun
  exact ends_of_run_bracketedWord hname

/-- No word goes on from the name into what stands behind it. -/
theorem exists_front_of_find? {text : Text} {found : Found}
    (h : procedureName.find? text = some found) :
    ∃ front, text = front ++ found.stop.rest ∧ front.length = found.stop.offset ∧
      (front.getLast?.any Text.isWord = false ∨ found.stop.rest.head?.any Text.isWord = false) := by
  obtain ⟨a, u, hat⟩ := find?_eq_some h
  have hmatch := hat.matchAt h
  obtain ⟨-, u', after, -⟩ := matchAt_eq_some hmatch
  obtain rfl : u = u' := List.append_cancel_right after.rest
  refine ⟨a ++ u, by simp [hat.text], by simpa using hat.stop.symm, ?_⟩
  have hends := ends_of_matchAt hmatch
  rwa [Cursor.beforeIsWord, after.before, ← lastOr_append, lastOr_none] at hends

/-! ## Definitions -/

/-- Behind the name stand the parameters and the body, parted by AS, or the body alone. -/
def Definition.Divides (d : Definition) (text : Text) : Prop :=
  ∃ found front, procedureName.find? text = some found ∧ text = front ++ found.stop.rest ∧
    front.length = found.stop.offset ∧
    (d.boundary = none ∧ d.parameters = [] ∧ d.body = found.stop.rest ∨
      d.boundary.isSome = true ∧ ∃ params, d.parameters = parseParameters params ∧
        PartedByAs front.getLast? found.stop.rest params d.body)

theorem PartedByAs.behind (h : PartedByAs none s params body)
    (hbefore : before.any Text.isWord = false ∨ s.head?.any Text.isWord = false) :
    PartedByAs before s params body := by
  obtain ⟨gap, word, gap', htext, hspells, hgap, hgap', hclosed, hbehind⟩ := h
  refine ⟨gap, word, gap', htext, hspells, hgap, hgap', ?_, hbehind⟩
  by_cases hne : params ++ gap = []
  · -- the text begins with the word
    obtain ⟨rfl, rfl⟩ := List.append_eq_nil_iff.mp hne
    obtain ⟨x, y, rfl, hx, -⟩ := exists_of_spells_as hspells
    refine hbefore.resolve_right ?_
    rw [htext]
    simp [hx]
  · rwa [lastOr_of_ne_nil _ hne, ← lastOr_of_ne_nil none hne]

/-- Nothing but one whole word AS and the blanks around it is left out between the parameters and
the body, for whichever text the boundary is looked for. -/
theorem divides_parse? {text : Text} {startLine : Int} {d : Definition}
    (h : Definition.parse? text startLine = some d) (s : Text) :
    d.Divides text ∧ ∀ b ∈ boundary? s, b.Divides s := by
  refine ⟨?_, fun b hb => divides_boundary? hb⟩
  obtain ⟨found, hfind, rfl⟩ := Option.map_eq_some_iff.mp h
  obtain ⟨front, htext, hlength, hends⟩ := exists_front_of_find? hfind
  refine ⟨found, front, hfind, htext, hlength, ?_⟩
  cases hboundary : boundary? found.stop.rest with
  | none =>
      refine .inl ⟨?_, ?_, ?_⟩ <;> simp only [hboundary, Option.map_none, Option.elim]
      · rw [List.take_zero]
        decide +kernel
      · rfl
  | some b =>
      refine .inr ⟨?_, found.stop.rest.take b.start, ?_, ?_⟩ <;>
        simp only [hboundary, Option.map_some, Option.elim, Option.isSome_some]
      exact (divides_boundary? hboundary).parted.behind hends

/-- A bracket ends the name, so the AS need not be set off from it. -/
theorem divides_parse?_of_bracket :
    ∃ d, Definition.parse? "CREATE PROC a.[b]AS(SELECT 1)".toList 1 = some d ∧
      d.Divides "CREATE PROC a.[b]AS(SELECT 1)".toList ∧ d.body = "(SELECT 1)".toList := by
  have h : Definition.parse? "CREATE PROC a.[b]AS(SELECT 1)".toList 1 =
      some ⟨['a'], ['b'], [], "(SELECT 1)".toList, some .lineStart, 1⟩ := by
    decide +kernel
  exact ⟨_, h, (divides_parse? h []).1, rfl⟩

end ProcCatalog.Signature
