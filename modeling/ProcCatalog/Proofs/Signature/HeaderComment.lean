import ProcCatalog.Proofs.Signature.ParenthesizedHeader
import ProcCatalog.Proofs.Signature.SpacedParameters
import ProcCatalog.Proofs.Sql.Lexer

/-!
# Line comments in a header

The AS of a header is looked for in the text with its comments, so a comment must not end with an
AS of its own. Then it is inert: what it leaves is the space in front of it, which no more than a
default that goes over the line can hold.
-/

namespace ProcCatalog.Signature

open Pattern
open Text (Token)

variable {h s t p c q : Text}

/-! ## Parts in which no AS ends a line -/

def HoldsLineEnd (s : Text) : Prop :=
  ∃ a u rest, s = a ++ (u ++ rest) ∧ a.getLast?.any Text.isWord = false ∧
    ∃ word gap br, LineEnd u word gap br

theorem occursIn_asAtLineEnd_iff : asAtLineEnd.occursIn s = true ↔ HoldsLineEnd s := by
  rw [occursIn_iff]
  constructor
  · rintro ⟨a, _, rfl, u, rest, rfl, hspan⟩
    obtain ⟨hclosed, hend⟩ := spans_asAtLineEnd_iff.mp hspan
    exact ⟨a, u, rest, rfl, by rwa [← lastOr_none], hend⟩
  · rintro ⟨a, u, rest, rfl, hclosed, hend⟩
    exact ⟨a, _, rfl, u, rest, rfl, spans_asAtLineEnd_iff.mpr ⟨by rwa [lastOr_none], hend⟩⟩

instance : DecidablePred HoldsLineEnd := fun _ => decidable_of_iff _ occursIn_asAtLineEnd_iff

theorem quiet_of_not_holdsLineEnd (hs : ¬ HoldsLineEnd (s ++ ['\n'])) : Quiet (s ++ ['\n']) := by
  refine ⟨?_, by simp; rfl⟩
  intro rest a b hab hne hbegins
  obtain rfl | ⟨y, x, rfl⟩ := List.eq_nil_or_concat b
  · exact hne rfl
  rw [List.concat_eq_append] at hab hbegins
  rw [← List.append_assoc] at hab
  obtain ⟨rfl, hx⟩ := List.append_inj' hab rfl
  obtain rfl : '\n' = x := by simpa using hx
  rw [List.append_assoc] at hbegins
  by_cases hy : y = []
  · subst hy
    obtain ⟨u, v, hu, hspan⟩ := hbegins
    obtain ⟨-, word, gap, br, hend⟩ := spans_asAtLineEnd_iff.mp hspan
    obtain ⟨x, w, rfl, hx⟩ := hend.exists_cons
    obtain rfl : '\n' = x := (List.cons.inj hu).1
    exact absurd hx (by decide)
  · -- the AS ends its line at the line feed behind the text, whatever follows
    obtain ⟨u, v, hu, hspan⟩ := begins_before_lineFeed hy [] hbegins
    obtain ⟨hclosed, hend⟩ := spans_asAtLineEnd_iff.mp hspan
    refine hs ⟨a, u, v, ?_, by rwa [← lastOr_none], hend⟩
    rw [List.append_assoc, hu]

theorem Quiet.append (hs : Quiet s) (ht : Quiet t) : Quiet (s ++ t) := by
  constructor
  · intro rest
    exact avoids_append.mpr ⟨hs.avoids (t ++ rest),
      avoids_congr none _ hs.closed.symm (ht.avoids rest)⟩
  · cases t with
    | nil => simpa using hs.closed
    | cons x t =>
        have hclosed := ht.closed
        rw [lastOr_none] at hclosed ⊢
        rwa [List.getLast?_append_of_ne_nil _ (List.cons_ne_nil x t)]

/-! ## A header that ends with a line feed -/

/-- The AS behind the line feed stands alone on its line, and no other AS ends a line before it. -/
theorem Quiet.ownLine?_of_lineFeed (hh : Quiet (h ++ ['\n'])) (e : HeaderEnd) (body : Text) :
    Signature.ownLine? ((h ++ ['\n']) ++ (e.write ++ body)) =
      some ⟨.ownLine, h.length, ((h ++ ['\n']) ++ e.write).length⟩ := by
  have hlone : LoneAsFirst ((h ++ ['\n']) ++ (e.write ++ body)) := by
    refine ⟨h, '\n' :: e.write, body, by simp, ?_, ?_⟩
    · exact spans_asOnOwnLine_iff.mpr ⟨[], e.write, rfl, by simp, _, _, _, e.lineEnd⟩
    · exact (avoids_append.mp (hh.avoids (e.write ++ body))).1
  rcases hh.ownLine? e body with hnone | ⟨a, indent, hindent, hsplit, hsome⟩
  · rw [← isSome_ownLine?_iff, hnone] at hlone
    cases hlone
  · obtain rfl | ⟨indent, x, rfl⟩ := List.eq_nil_or_concat indent
    · obtain ⟨rfl, -⟩ := List.append_inj' hsplit rfl
      exact hsome
    · rw [List.concat_eq_append, ← List.cons_append, ← List.append_assoc] at hsplit
      obtain ⟨-, hx⟩ := List.append_inj' hsplit rfl
      obtain rfl : '\n' = x := by simpa using hx
      exact absurd (hindent '\n' (by simp)) (by decide)

/-- The text of a definition whose AS stands on a line of its own. -/
def headed (schema name : Token Text.isWord) (header : Text) (e : HeaderEnd) (body : Text) : Text :=
  writeName schema name ++ ((header ++ ['\n']) ++ (e.write ++ body))

theorem parse?_headed (schema name : Token Text.isWord)
    (hblank : ∀ x ∈ h.head?, Text.isBlank x = true) (hquiet : Quiet (h ++ ['\n'])) (e : HeaderEnd)
    (body : Text) (startLine : Int) :
    Definition.parse? (headed schema name h e body) startLine =
      some ⟨schema.text, name.text, parseParameters h, body, some .ownLine, startLine⟩ := by
  obtain ⟨found, hfind, hschema, hname, hrest⟩ :=
    find?_procedureName schema name (head?_header hblank Text.isBlank_lineFeed (e.write ++ body))
  have hboundary : boundary? ((h ++ ['\n']) ++ (e.write ++ body)) =
      some ⟨.ownLine, h.length, ((h ++ ['\n']) ++ e.write).length⟩ := by
    simp only [boundary?, strategies, List.findSome?, Strategy.find?,
      hquiet.ownLine?_of_lineFeed e body]
  have htake : ((h ++ ['\n']) ++ (e.write ++ body)).take h.length = h := by
    rw [List.append_assoc, List.take_left' rfl]
  have hdrop : ((h ++ ['\n']) ++ (e.write ++ body)).drop ((h ++ ['\n']) ++ e.write).length =
      body := by
    rw [← List.append_assoc, List.drop_left' rfl]
  rw [headed, parse?_of_find? hfind hschema hname hrest hboundary, htake, hdrop]

/-! ## The comment -/

/-- A header in front of a line comment, the comment, and the header behind its line. -/
structure HeaderComment (p c q : Text) : Prop where
  blank : ∀ x ∈ p.head?, Text.isBlank x = true
  plain : ¬ HoldsAs p ∧ ¬ HoldsAs q
  unmarked : Sql.Unmarked p
  line : '\n' ∉ c
  quiet : ¬ HoldsLineEnd (c ++ ['\n'])
  /-- A block comment that is opened in the comment is closed there or not at all. -/
  harmless : ['/', '*'] <:+: Sql.dropBlockComments c → ¬ ['*', '/'] <:+: q

def withComment (p c q : Text) : Text := p ++ ' ' :: '-' :: '-' :: (c ++ '\n' :: q)

namespace HeaderComment

theorem quiet_withComment (hc : HeaderComment p c q) : Quiet (withComment p c q ++ ['\n']) := by
  have hfront : Quiet (p ++ [' ']) := quiet_of_not_holdsAs hc.plain.1 rfl
  have hdash : Quiet ['-'] := quiet_of_not_holdsAs (p := []) (by decide) (by decide)
  have hcomment : Quiet (c ++ ['\n']) := quiet_of_not_holdsLineEnd hc.quiet
  have hback : Quiet (q ++ ['\n']) := quiet_of_not_holdsAs hc.plain.2 rfl
  have hall := hfront.append (hdash.append (hdash.append (hcomment.append hback)))
  simpa [withComment] using hall

theorem quiet_withSpace (hc : HeaderComment p c q) :
    Quiet ((p ++ ' ' :: '\n' :: q) ++ ['\n']) := by
  have hfront : Quiet (p ++ [' ']) := quiet_of_not_holdsAs hc.plain.1 rfl
  have hfeed : Quiet ['\n'] := quiet_of_not_holdsAs (p := []) (by decide) (by decide)
  have hback : Quiet (q ++ ['\n']) := quiet_of_not_holdsAs hc.plain.2 rfl
  simpa using hfront.append (hfeed.append hback)

theorem quiet_withoutComment (hc : HeaderComment p c q) :
    Quiet ((p ++ '\n' :: q) ++ ['\n']) := by
  have hfront : Quiet (p ++ ['\n']) := quiet_of_not_holdsAs hc.plain.1 rfl
  have hback : Quiet (q ++ ['\n']) := quiet_of_not_holdsAs hc.plain.2 rfl
  simpa using hfront.append hback

theorem blank_append (hc : HeaderComment p c q) {x : Char} (hx : Text.isBlank x = true)
    (s : Text) : ∀ y ∈ (p ++ x :: s).head?, Text.isBlank y = true := by
  have hblank := hc.blank
  cases p with
  | nil => simpa using hx
  | cons y p => exact hblank

/-- Of the comment the space in front of it is left. -/
theorem parseParameters_eq (hc : HeaderComment p c q) :
    parseParameters (withComment p c q) = parseParameters (p ++ ' ' :: '\n' :: q) := by
  have hfront : Sql.Closed (p ++ [' ']) := .of_unmarked_append hc.unmarked (by decide)
  have hback : ['/', '*'] <:+: Sql.dropBlockComments c → ¬ ['*', '/'] <:+: '\n' :: q := by
    intro hopen
    rw [Sql.pair_infix_cons, not_or]
    exact ⟨fun h => absurd h.1 (by decide), hc.harmless hopen⟩
  have hcomment : withComment p c q = (p ++ [' ']) ++ '-' :: '-' :: (c ++ '\n' :: q) := by
    simp [withComment]
  have hspace : p ++ ' ' :: '\n' :: q = (p ++ [' ']) ++ '\n' :: q := by simp
  have hstrip : Sql.stripComments (withComment p c q) =
      Sql.stripComments (p ++ ' ' :: '\n' :: q) := by
    rw [hcomment, hspace, Sql.stripComments_append hfront, Sql.stripComments_append hfront,
      Sql.stripComments_lineComment hc.line (by rintro x ⟨⟩; rfl) hback]
  rw [parseParameters, parseParameters, hstrip]

end HeaderComment

/-- The definition with the ends of the lines of its defaults flush. -/
def Definition.flush (d : Definition) : Definition :=
  { d with parameters := d.parameters.map Parameter.flush }

/-- A line comment in a header that does not end with an AS is inert. Without the comment and the
space in front of it the definition is the same, but for blanks at the ends of the lines of a
default; without the comment alone it is the very same. -/
theorem parse?_lineComment (schema name : Token Text.isWord) (hc : HeaderComment p c q)
    (e : HeaderEnd) (body : Text) (startLine : Int) :
    ∃ d d', Definition.parse? (headed schema name (p ++ '\n' :: q) e body) startLine = some d ∧
      Definition.parse? (headed schema name (withComment p c q) e body) startLine = some d' ∧
      Definition.parse? (headed schema name (p ++ ' ' :: '\n' :: q) e body) startLine = some d' ∧
      d.schema = schema.text ∧ d.name = name.text ∧
      d.parameters = parseParameters (p ++ '\n' :: q) ∧ d.body = body ∧ d'.flush = d.flush := by
  have hcommented := parse?_headed schema name (h := withComment p c q) (hc.blank_append rfl _)
    hc.quiet_withComment e body startLine
  have hspaced := parse?_headed schema name (hc.blank_append rfl _) hc.quiet_withSpace e body
    startLine
  have hbare := parse?_headed schema name (hc.blank_append rfl _) hc.quiet_withoutComment e body
    startLine
  rw [hc.parseParameters_eq] at hcommented
  refine ⟨_, _, hbare, hcommented, hspaced, rfl, rfl, rfl, rfl, ?_⟩
  simp only [Definition.flush, flush_parseParameters_space]

/-- The comment holds an AS, an apostrophe and a mark that opens a block comment. -/
theorem parse?_lineComment_with_marks :
    HeaderComment "\n  @From date,".toList " as of (it's /* new) AS date".toList
        "  @To date = NULL".toList ∧
      Definition.parse? ("CREATE PROCEDURE dbo.Load\n  @From date,".toList ++
          " -- as of (it's /* new) AS date\n  @To date = NULL\nAS\nSELECT 1".toList) 1 =
        some ⟨"dbo".toList, "Load".toList,
          [{ name := "@From".toList, dataType := "date".toList },
            { name := "@To".toList, dataType := "date".toList, default := some "NULL".toList }],
          "SELECT 1".toList, some .ownLine, 1⟩ := by
  let p : Text := "\n  @From date,".toList
  let c : Text := " as of (it's /* new) AS date".toList
  let q : Text := "  @To date = NULL".toList
  let schema : Token Text.isWord := .ofAll "dbo".toList rfl rfl
  let name : Token Text.isWord := .ofAll "Load".toList rfl rfl
  let last : HeaderEnd := ⟨[], ['\n'], by simp, .inl rfl⟩
  have hcomment : HeaderComment p c q :=
    ⟨by rintro x ⟨⟩; rfl, by decide +kernel, by decide +kernel, by decide, by decide +kernel,
      fun _ => by decide⟩
  have htext : "CREATE PROCEDURE dbo.Load\n  @From date,".toList ++
      " -- as of (it's /* new) AS date\n  @To date = NULL\nAS\nSELECT 1".toList =
        headed schema name (withComment p c q) last "SELECT 1".toList := by
    decide +kernel
  have hread : Definition.parse?
      (headed schema name (p ++ ' ' :: '\n' :: q) last "SELECT 1".toList) 1 =
      some ⟨"dbo".toList, "Load".toList,
        [{ name := "@From".toList, dataType := "date".toList },
          { name := "@To".toList, dataType := "date".toList, default := some "NULL".toList }],
        "SELECT 1".toList, some .ownLine, 1⟩ := by
    decide +kernel
  obtain ⟨d, d', -, hcommented, hspaced, -⟩ :=
    parse?_lineComment schema name hcomment last "SELECT 1".toList 1
  refine ⟨hcomment, ?_⟩
  rw [htext, hcommented, ← hspaced, hread]

/-- Two comments that are not inert. A default that goes over the line of the comment keeps the
space in front of it, and an AS at the end of the comment ends the header. -/
theorem parse?_lineComment_not_inert :
    (HeaderComment "\n @a int = -".toList "sign".toList " 1".toList ∧
      Sql.Unmarked " 1".toList ∧ Sql.quoteMark ∉ "\n @a int = - 1".toList ∧
      (Definition.parse? "CREATE PROCEDURE dbo.P\n @a int = - --sign\n 1\nAS\nSELECT 1".toList
          1).map (·.parameters) =
        some [{ name := "@a".toList, dataType := "int".toList,
                default := some "- \n 1".toList }] ∧
      (Definition.parse? "CREATE PROCEDURE dbo.P\n @a int = -\n 1\nAS\nSELECT 1".toList
          1).map (·.parameters) =
        some [{ name := "@a".toList, dataType := "int".toList,
                default := some "-\n 1".toList }]) ∧
    (¬ HoldsAs "\n @a int".toList ∧ ¬ HoldsAs " , @b int".toList ∧
      HoldsLineEnd "same AS\n".toList ∧
      (Definition.parse? "CREATE PROCEDURE dbo.P\n @a int --same AS\n , @b int\nAS\n".toList
          1).map (·.body) = some " , @b int\nAS\n".toList ∧
      (Definition.parse? "CREATE PROCEDURE dbo.P\n @a int\n , @b int\nAS\n".toList
          1).map (·.body) = some []) := by
  have hcomment : HeaderComment "\n @a int = -".toList "sign".toList " 1".toList :=
    ⟨by rintro x ⟨⟩; rfl, by decide +kernel, by decide +kernel, by decide, by decide +kernel,
      fun _ => by decide⟩
  exact ⟨⟨hcomment, by decide +kernel⟩, by decide +kernel⟩

end ProcCatalog.Signature
