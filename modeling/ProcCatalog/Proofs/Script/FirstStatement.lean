import ProcCatalog.Proofs.Pattern.Languages
import ProcCatalog.Proofs.Sql.CommentFree
import ProcCatalog.Script.Block

/-!
# The first statement of a block

A text is taken for a procedure block if it begins with the creation of a procedure, behind at most
one block comment and SET statements on lines of their own. Of several comments, or a line comment,
or a SET statement that is indented, nothing is known to the recognition: such texts are left out,
although their first statement creates a procedure.
-/

namespace ProcCatalog.Script

open Pattern
open scoped Computability

/-! ## Statements and comments -/

/-- A SET statement up to the end of its line. -/
def setting : Language Char :=
  spelling "SET" * (runs1 Text.isBlank * (runs1 Text.isWord * (runs1 Text.isBlank *
    (runs1 Text.isWord * (runs Text.isBlank * {['\n']})))))

/-- The words that create a procedure, and a blank. -/
def creation : Language Char :=
  spelling "CREATE" * (runs1 Text.isBlank *
    ((spelling "OR" * (runs1 Text.isBlank * (spelling "ALTER" * runs1 Text.isBlank)) + 1) *
      (spelling "PROC" * ((spelling "EDURE" + 1) * single Text.isBlank))))

/-- A block comment that ends at its first closing mark. -/
def blockComment : Language Char :=
  {u | ∃ content, ¬ ['*', '/'] <:+: content ∧ u = Sql.blockComment content}

def lineComment : Language Char :=
  {u | ∃ content, '\n' ∉ content ∧ u = '-' :: '-' :: (content ++ ['\n'])}

/-- What may stand in front of a statement. -/
def leading : Language Char := runs Text.isBlank + lineComment + blockComment + setting

def createsFirst : Language Char := leading∗ * creation

/-! ## What is recognised -/

/-- Settings, each directly behind the line of the one before, and the creation of a procedure. -/
def opening : Language Char := setting∗ * (runs Text.isBlank * creation)

def beginning : Language Char := (blockComment * runs Text.isBlank + 1) * opening

/-- A mark opens a comment, and a mark closes it that is not the first to do so. -/
def longComment : Language Char := {['/', '*']} * (⊤ * ({['*', '/']} * (⊤ * {['*', '/']})))

/-- The creation of a procedure follows a closing mark that is not the first one. -/
def lateOpening : Language Char := longComment * (runs Text.isBlank * opening)

theorem beginning_le_createsFirst : beginning ≤ createsFirst := by
  have hleading : leading ≤ leading∗ := le_kstar
  have hblanks : runs Text.isBlank ≤ leading∗ :=
    le_trans (fun u hu => .inl (.inl (.inl hu))) hleading
  have hcomment : blockComment ≤ leading∗ := le_trans (fun u hu => .inl (.inr hu)) hleading
  have hsettings : setting∗ ≤ leading∗ := kstar_mono fun u hu => .inr hu
  have hlead : blockComment * runs Text.isBlank + 1 ≤ leading∗ := by
    refine add_le ?_ one_le_kstar
    calc blockComment * runs Text.isBlank ≤ leading∗ * leading∗ := mul_le_mul' hcomment hblanks
      _ = leading∗ := kstar_mul_kstar leading
  calc beginning ≤ leading∗ * (leading∗ * (leading∗ * creation)) :=
        mul_le_mul' hlead (mul_le_mul' hsettings (mul_le_mul' hblanks le_rfl))
    _ = leading∗ * creation := by
        rw [← mul_assoc leading∗, kstar_mul_kstar, ← mul_assoc, kstar_mul_kstar]

/-! ## The patterns -/

private theorem runs_isBlank_mul_return :
    runs Text.isBlank * ({['\r']} + 1) = runs Text.isBlank := by
  rw [mul_add, mul_one]
  refine le_antisymm (add_le ?_ le_rfl) (fun u hu => .inr hu)
  rintro _ ⟨u, hu, _, rfl, rfl⟩ x hx
  rcases List.mem_append.mp hx with hx | hx
  · exact hu x hx
  · rw [List.mem_singleton.mp hx]
    rfl

theorem language_settingLine : settingLine.language = setting := by
  simp only [settingLine, setting, blanks, blanks1, word1, language_all_cons, language_all_nil,
    language_keyword, language_many1, language_option, language_char, language, mul_one]
  rw [← mul_assoc (runs Text.isBlank), runs_isBlank_mul_return]

theorem language_creation :
    createProcedure.language * single Text.isBlank = creation := by
  simp only [createProcedure, creation, blanks1, language_all_cons, language_all_nil,
    language_keyword, language_many1, language_option, mul_one, mul_assoc]

/-- A closing mark is the first one behind an opening mark, or another one stands between. -/
private theorem comment_eq :
    {['/', '*']} * (⊤ * {['*', '/']}) = blockComment + longComment := by
  ext u
  constructor
  · rintro ⟨_, rfl, _, ⟨content, -, _, rfl, rfl⟩, rfl⟩
    by_cases hmark : ['*', '/'] <:+: content
    · obtain ⟨a, b, rfl⟩ := hmark
      refine .inr ⟨_, rfl, _, ⟨a, trivial, _, ⟨_, rfl, _, ⟨b, trivial, _, rfl, rfl⟩, rfl⟩, rfl⟩, ?_⟩
      simp
    · exact .inl ⟨content, hmark, by simp [Sql.blockComment]⟩
  · rintro (⟨content, -, rfl⟩ |
      ⟨_, rfl, _, ⟨a, -, _, ⟨_, rfl, _, ⟨b, -, _, rfl, rfl⟩, rfl⟩, rfl⟩, rfl⟩)
    · exact ⟨_, rfl, _, ⟨content, trivial, _, rfl, rfl⟩, by simp [Sql.blockComment]⟩
    · exact ⟨_, rfl, _, ⟨a ++ (['*', '/'] ++ b), trivial, _, rfl, rfl⟩, by simp⟩

private theorem singleton_mul_singleton (u v : Text) :
    ({u} * {v} : Language Char) = {u ++ v} := by
  ext w
  constructor
  · rintro ⟨_, rfl, _, rfl, rfl⟩
    rfl
  · rintro rfl
    exact ⟨u, rfl, v, rfl, rfl⟩

private theorem language_any : (Pattern.few fun _ => true).language = ⊤ :=
  le_antisymm le_top fun _ _ _ _ => rfl

private theorem language_mark (a b : Char) (ps : List Pattern) :
    (all (char a :: char b :: ps)).language = {[a, b]} * (all ps).language := by
  rw [language_all_cons, language_all_cons, language_char, language_char, ← mul_assoc,
    singleton_mul_singleton]
  rfl

theorem language_leadingComment :
    leadingComment.language = (blockComment + longComment) * runs Text.isBlank := by
  rw [← comment_eq, leadingComment, language_mark, language_all_cons, language_any, language_mark,
    language_all_cons, language_all_nil, mul_one, mul_assoc, mul_assoc]
  rfl

def openingParts : List Pattern :=
  [.repeated settingLine, blanks, createProcedure, .one Text.isBlank]

theorem language_openingParts : (all openingParts).language = opening := by
  rw [opening, ← language_creation, ← language_settingLine]
  simp only [openingParts, language_all_cons, language_all_nil, mul_one]
  rfl

theorem language_blockStart : blockStart.language = beginning + lateOpening := by
  have hblockStart : blockStart.language = (leadingComment.language + 1) * opening := by
    rw [← language_openingParts]
    rfl
  rw [hblockStart, language_leadingComment, beginning, lateOpening, add_mul, add_mul, add_mul,
    add_mul, mul_assoc longComment]
  exact add_right_comm _ _ _

theorem isProcedureBlock_iff (s : Text) :
    isProcedureBlock s = true ↔ BeginsWith beginning s ∨ BeginsWith lateOpening s := by
  have hregular : blockStart.isRegular = true := by decide +kernel
  rw [← beginsWith_add, ← language_blockStart, ← begins_iff_beginsWith hregular none,
    isProcedureBlock, Option.isSome_iff_ne_none, Ne, matchAt_eq_none_iff, not_not]
  rfl

private theorem language_longComment (ps : List Pattern) :
    (all (char '/' :: char '*' :: .few (fun _ => true) :: char '*' :: char '/' ::
      .few (fun _ => true) :: char '*' :: char '/' :: ps)).language =
      longComment * (all ps).language := by
  rw [language_mark, language_all_cons, language_any, language_mark, language_all_cons,
    language_any, language_mark, longComment]
  simp only [mul_assoc]

instance : DecidablePred (BeginsWith lateOpening) :=
  decidableBeginsWith (by decide +kernel) <|
    (language_longComment (blanks :: openingParts)).trans <| by
      rw [language_all_cons, language_openingParts, lateOpening]
      rfl

/-! ## Recognition -/

/-- A text with one block comment at most and SET statements on lines of their own in front of the
creation is recognised, and its first statement creates a procedure. No other text is recognised,
as long as no creation follows a later closing mark than that of the leading comment. -/
theorem recognizes_beginning (s : Text) :
    (BeginsWith beginning s → isProcedureBlock s = true ∧ BeginsWith createsFirst s) ∧
    (¬ BeginsWith lateOpening s → (isProcedureBlock s = true ↔ BeginsWith beginning s)) := by
  constructor
  · intro h
    exact ⟨(isProcedureBlock_iff s).mpr (.inl h), h.mono beginning_le_createsFirst⟩
  · intro hlate
    rw [isProcedureBlock_iff]
    exact or_iff_left hlate

/-- The comment in the body closes behind the creation. -/
theorem recognizes_beginning_behind_settings :
    let text : Text := "/* dbo.p */\nSET NOCOUNT ON\r\n\n".toList ++
      "CREATE OR ALTER PROC dbo.p AS /* CREATE PROC */ SELECT 1".toList
    ¬ BeginsWith lateOpening text ∧ isProcedureBlock text = true ∧ BeginsWith beginning text ∧
      BeginsWith createsFirst text := by
  intro text
  have hlate : ¬ BeginsWith lateOpening text := by decide +kernel
  have hblock : isProcedureBlock text = true := by decide +kernel
  have hbeginning := ((recognizes_beginning text).2 hlate).mp hblock
  exact ⟨hlate, hblock, hbeginning, ((recognizes_beginning text).1 hbeginning).2⟩

/-- A line comment in front of the creation is not passed over. -/
theorem not_isProcedureBlock_behind_line_comment :
    let text : Text := "-- all\nCREATE PROC a.p AS".toList
    Text.trim text = text ∧ BeginsWith createsFirst text ∧ isProcedureBlock text = false := by
  refine ⟨by decide +kernel, ?_, by decide +kernel⟩
  have hcomment : "-- all\n".toList ∈ lineComment := ⟨" all".toList, by decide, rfl⟩
  have hleading : "-- all\n".toList ∈ leading∗ := by
    refine Language.mem_kstar.mpr ⟨["-- all\n".toList], by simp, ?_⟩
    simpa using .inl (.inl (.inr hcomment))
  have hblank : [' '] ∈ runs1 Text.isBlank := ⟨by decide, by simp⟩
  have hcreation : "CREATE PROC ".toList ∈ creation :=
    ⟨_, spells_self _, _, ⟨_, hblank, _, ⟨[], .inr rfl, _, ⟨_, spells_self _, _,
      ⟨[], .inr rfl, _, ⟨' ', rfl, rfl⟩, rfl⟩, rfl⟩, rfl⟩, rfl⟩, rfl⟩
  exact ⟨_, Language.append_mem_mul hleading hcreation, "a.p AS".toList, rfl⟩

end ProcCatalog.Script
