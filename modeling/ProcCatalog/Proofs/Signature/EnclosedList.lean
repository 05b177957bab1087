import ProcCatalog.Proofs.Pattern.Matches
import ProcCatalog.Proofs.Signature.OptionEnd
import ProcCatalog.Proofs.Sql.Enclosed

/-!
# Lists in parentheses

A parameter list is read alike with and without parentheses around it as long as the list closes no
parenthesis in front of it. Parentheses in literals and in bracketed names count there; where they
close the list early, nothing is read.
-/

namespace ProcCatalog.Signature

open Pattern
open Text (Token)

/-! ## Written lists -/

/-- A word, or what is written in brackets. -/
inductive TypePart where
  | word (text : Token isTypeChar)
  | bracketed (name : Token (· != ']')) (unmarked : Sql.Unmarked name.text)

/-- Words, commas and blanks in parentheses. -/
structure Size where
  gap : Text
  content : Text
  blank : ∀ x ∈ gap, Text.isBlank x = true
  accepted : ∀ x ∈ content, isSizeChar x = true ∨ Text.isBlank x = true

structure DataType where
  first : TypePart
  further : List TypePart := []
  size : Option Size := none

structure Entry where
  name : Token isNameChar
  type : DataType
  default : Option Default := none
  direction : Direction := .input

structure EntryList where
  first : Entry
  further : List (Sql.Further Entry) := []

def TypePart.write : TypePart → Text
  | .word w => w.text
  | .bracketed name _ => '[' :: (name.text ++ [']'])

def Size.write (size : Size) : Text := size.gap ++ '(' :: (size.content ++ [')'])

def DataType.writeFurther (parts : List TypePart) : Text := parts.flatMap fun p => '.' :: p.write

def DataType.writeSize (size : Option Size) : Text := size.elim [] Size.write

def DataType.write (t : DataType) : Text :=
  t.first.write ++ (writeFurther t.further ++ writeSize t.size)

/-- The name, the type and the default. -/
def Entry.writeFront (e : Entry) : Text :=
  '@' :: (e.name.text ++ ' ' :: (e.type.write ++ Declaration.writeDefault e.default))

def Entry.write (e : Entry) : Text := e.writeFront ++ Declaration.writeDirection e.direction

namespace EntryList

def entries (l : EntryList) : List Entry := l.first :: l.further.map (·.item)

def write (l : EntryList) : Text :=
  Sql.writePieces l.first.write (l.further.map (·.map Entry.write))

def writeEnclosed (l : EntryList) : Text := '(' :: (l.write ++ [')'])

end EntryList

/-! ## Comments and commas in what is written -/

section

variable {depth : Nat}

namespace Size

theorem plain_or_comma (size : Size) : ∀ c ∈ size.content, Sql.isPlain c = true ∨ c = ',' := by
  intro c hc
  rcases size.accepted c hc with hsize | hblank
  · exact (mild_or_comma_of_isSizeChar hsize).imp_left Mild.plain
  · exact .inl (Sql.isPlain_of_isBlank hblank)

theorem noMark (size : Size) : ∀ c ∈ size.content, c ≠ '-' ∧ c ≠ '/' := by
  intro c hc
  rcases size.accepted c hc with hsize | hblank
  · rcases mild_or_comma_of_isSizeChar hsize with hmild | rfl
    · exact hmild.noMark
    · decide
  · constructor <;> rintro rfl <;> cases hblank

theorem closed_write (size : Size) : Sql.Closed size.write := by
  have hopen : Sql.Closed ['('] := .of_all rfl
  have hclose : Sql.Closed [')'] := .of_all rfl
  exact (Sql.Closed.of_blanks size.blank).append
    (hopen.append ((Sql.Closed.of_forall size.noMark).append hclose))

theorem unsplitAt_write (size : Size) : Sql.UnsplitAt depth size.write :=
  (Sql.unsplitAt_of_isBlank size.blank).append
    (.enclosed (.of_isPlain_or_comma size.plain_or_comma))

end Size

namespace TypePart

theorem closed_write (p : TypePart) : Sql.Closed p.write := by
  cases p with
  | word w =>
      rw [write]
      exact closed_of_mild (w.forall_of fun _ => mild_of_isTypeChar)
  | bracketed name unmarked =>
      have hopen : Sql.Closed ['['] := .of_all rfl
      exact hopen.append (.of_unmarked_append (x := ']') unmarked (by decide))

theorem unsplitAt_write (p : TypePart) : Sql.UnsplitAt depth p.write := by
  cases p with
  | word w =>
      rw [write]
      exact unsplitAt_of_mild (w.forall_of fun _ => mild_of_isTypeChar)
  | bracketed name unmarked =>
      rw [write]
      exact .bracketed fun c hc => bne_iff_ne.mp (name.accepted c hc)

end TypePart

namespace DataType

theorem closed_write (t : DataType) : Sql.Closed t.write := by
  refine t.first.closed_write.append (.append (.flatMap fun p _ => ?_) ?_)
  · exact (Sql.Closed.of_all (s := ['.']) rfl).append p.closed_write
  · cases t.size with
    | none => exact .nil
    | some size => exact size.closed_write

theorem unsplitAt_write (t : DataType) : Sql.UnsplitAt depth t.write := by
  refine t.first.unsplitAt_write.append (.append (.flatMap fun p _ => ?_) ?_)
  · exact (Sql.UnsplitAt.of_all (s := ['.']) rfl).append p.unsplitAt_write
  · cases t.size with
    | none => exact .nil
    | some size => exact size.unsplitAt_write

end DataType

namespace Entry

theorem closed_write (e : Entry) : Sql.Closed e.write := by
  have hname := closed_of_mild (e.name.forall_of fun _ => mild_of_isNameChar)
  have hstart : Sql.Closed ['@'] := .of_all rfl
  have hblank : Sql.Closed [' '] := .of_all rfl
  refine .append ?_ (Declaration.closed_writeDirection _)
  exact hstart.append (hname.append
    (hblank.append (e.type.closed_write.append (Declaration.closed_writeDefault _))))

theorem unsplitAt_write (e : Entry) : Sql.UnsplitAt depth e.write := by
  have hname : Sql.UnsplitAt depth e.name.text :=
    unsplitAt_of_mild (e.name.forall_of fun _ => mild_of_isNameChar)
  have hstart : Sql.UnsplitAt depth ['@'] := .of_all rfl
  have hblank : Sql.UnsplitAt depth [' '] := .of_all rfl
  refine .append ?_ (Declaration.unsplitAt_writeDirection _)
  exact hstart.append (hname.append
    (hblank.append (e.type.unsplitAt_write.append (Declaration.unsplitAt_writeDefault _))))

end Entry

end

/-! ## Ends of what is written -/

theorem isTight_of_mild {c : Char} (h : Mild c) : isTight c = true := by
  have hcomma : c ≠ ',' := by
    rintro rfl
    cases h.plain
  simp [isTight, h.notBlank, hcomma]

/-- The text ends neither with a blank nor with a quote. -/
def EndsPlainly (s : Text) : Prop :=
  ∀ x ∈ s.getLast?, Text.isBlank x = false ∧ x ≠ Sql.quoteMark

theorem EndsPlainly.append {s t : Text} (hs : EndsPlainly s) (ht : EndsPlainly t) :
    EndsPlainly (s ++ t) :=
  Text.forall_getLast?_append hs ht

theorem endsPlainly_of_mild {s : Text} (h : ∀ c ∈ s, Mild c) : EndsPlainly s := fun x hx =>
  have hx := h x (List.mem_of_getLast? hx)
  ⟨hx.notBlank, hx.ne_quoteMark⟩

theorem endsPlainly_concat (s : Text) {x : Char} (hx : Text.isBlank x = false)
    (hquote : x ≠ Sql.quoteMark) : EndsPlainly (s ++ [x]) := by
  intro y hy
  obtain rfl : x = y := by simpa using hy
  exact ⟨hx, hquote⟩

namespace TypePart

theorem endsPlainly_write (p : TypePart) : EndsPlainly p.write := by
  cases p with
  | word w =>
      rw [write]
      exact endsPlainly_of_mild (w.forall_of fun _ => mild_of_isTypeChar)
  | bracketed name unmarked => exact endsPlainly_concat ('[' :: name.text) rfl (by decide)

theorem write_ne_nil (p : TypePart) : p.write ≠ [] := by
  cases p with
  | word w => exact w.nonempty
  | bracketed name unmarked => exact List.cons_ne_nil _ _

theorem guarded_append {s : Text} (h : ∀ t, (∀ y ∈ t, isTight y = true) → Guarded (s ++ t))
    (p : TypePart) : Guarded (s ++ p.write) := by
  cases p with
  | word w => exact h _ (w.forall_of fun _ hx => isTight_of_mild (mild_of_isTypeChar hx))
  | bracketed name unmarked =>
      refine guarded_of_getLast? (x := ']') ?_ rfl
      rw [write, ← List.cons_append, ← List.append_assoc, List.getLast?_concat]

end TypePart

namespace DataType

theorem endsPlainly_writeFurther (parts : List TypePart) : EndsPlainly (writeFurther parts) := by
  induction parts with
  | nil => exact fun x hx => nomatch hx
  | cons p parts ih =>
      have hdot : EndsPlainly ['.'] := endsPlainly_concat [] rfl (by decide)
      exact (hdot.append p.endsPlainly_write).append ih

theorem getLast?_write {t : DataType} {size : Size} (h : t.size = some size) (s : Text) :
    (s ++ t.write).getLast? = some ')' := by
  have hwrite : s ++ t.write =
      (s ++ (t.first.write ++ (writeFurther t.further ++ (size.gap ++ '(' :: size.content)))) ++
        [')'] := by
    simp [write, h, writeSize, Size.write]
  rw [hwrite, List.getLast?_concat]

theorem endsPlainly_write (t : DataType) : EndsPlainly t.write := by
  cases hsize : t.size with
  | none =>
      rw [write, hsize, writeSize, Option.elim, List.append_nil]
      exact t.first.endsPlainly_write.append (endsPlainly_writeFurther t.further)
  | some size =>
      intro x hx
      have hlast := getLast?_write hsize []
      rw [List.nil_append] at hlast
      obtain rfl : ')' = x := Option.some.inj (hlast.symm.trans hx)
      exact ⟨rfl, by decide⟩

theorem write_ne_nil (t : DataType) : t.write ≠ [] :=
  List.append_ne_nil_of_left_ne_nil t.first.write_ne_nil _

theorem guarded_append (s : Text) (name : Token isNameChar) (t : DataType) :
    Guarded (s ++ '@' :: (name.text ++ ' ' :: t.write)) := by
  have hname : ∀ y ∈ name.text, isTight y = true :=
    name.forall_of fun _ hx => isTight_of_mild (mild_of_isNameChar hx)
  cases hsize : t.size with
  | some size =>
      refine guarded_of_getLast? (x := ')') ?_ rfl
      simpa using getLast?_write hsize (s ++ '@' :: (name.text ++ [' ']))
  | none =>
      rw [write, hsize, writeSize, Option.elim, List.append_nil]
      rcases List.eq_nil_or_concat t.further with hfurther | ⟨parts, p, hfurther⟩
      · have hguarded := t.first.guarded_append (s := s ++ '@' :: (name.text ++ [' ']))
          fun w hw => by simpa using guarded_behind_name s hname hw
        simpa [hfurther, writeFurther] using hguarded
      · have hguarded := p.guarded_append
          (s := (s ++ '@' :: (name.text ++ ' ' :: (t.first.write ++ writeFurther parts))) ++ ['.'])
          fun w hw => by
            rw [List.append_assoc, List.singleton_append]
            exact guarded_behind_mark rfl (List.forall_mem_cons.mpr ⟨rfl, hw⟩)
        simpa [hfurther, writeFurther] using hguarded

end DataType

theorem Default.isTight_write_word {negative : Bool} {numeral : Token isNumeralChar} :
    ∀ x ∈ (word negative numeral).write, isTight x = true := by
  refine List.forall_mem_append.mpr ⟨?_, ?_⟩
  · cases negative <;> simp [show isTight '-' = true from rfl]
  · exact numeral.forall_of fun _ hx => isTight_of_mild (mild_of_isNumeralChar hx)

namespace Entry

theorem solid_writeFront (e : Entry) (s : Text) : Text.Solid (s ++ e.writeFront) := by
  have htype : Text.Solid e.type.write := fun x hx => (e.type.endsPlainly_write x hx).1
  have hwrite : s ++ e.writeFront = (s ++ '@' :: (e.name.text ++ [' '])) ++
      (e.type.write ++ Declaration.writeDefault e.default) := by
    simp [writeFront]
  rw [hwrite]
  exact .append_of_ne_nil _ (htype.append (Declaration.solid_writeDefault _))
    (List.append_ne_nil_of_left_ne_nil e.type.write_ne_nil _)

theorem guarded_writeFront (e : Entry) (s : Text) :
    Guarded (s ++ e.writeFront) ∧ ¬ EndsQuoted (s ++ e.writeFront) := by
  cases hdefault : e.default with
  | none =>
      rw [writeFront, hdefault, Declaration.writeDefault, Option.elim, List.append_nil]
      refine ⟨e.type.guarded_append s e.name, not_endsQuoted_of_getLast? fun hlast => ?_⟩
      have hwrite : s ++ '@' :: (e.name.text ++ ' ' :: e.type.write) =
          (s ++ '@' :: (e.name.text ++ [' '])) ++ e.type.write := by
        simp
      rw [hwrite, List.getLast?_append_of_ne_nil _ e.type.write_ne_nil] at hlast
      exact (e.type.endsPlainly_write _ hlast).2 rfl
  | some v =>
      have hwrite : s ++ e.writeFront =
          (s ++ '@' :: (e.name.text ++ ' ' :: (e.type.write ++ [' ']))) ++
            '=' :: ' ' :: v.write := by
        simp [writeFront, hdefault, Declaration.writeDefault]
      rw [hwrite]
      cases v with
      | word negative numeral =>
          refine ⟨guarded_behind_sign _ Default.isTight_write_word,
            not_endsQuoted_of_getLast? fun hlast => ?_⟩
          have hmild : ∀ c ∈ numeral.text, Mild c :=
            numeral.forall_of fun _ => mild_of_isNumeralChar
          simp only [Default.write, ← List.cons_append, ← List.append_assoc] at hlast
          rw [List.getLast?_append_of_ne_nil _ numeral.nonempty] at hlast
          exact (hmild _ (List.mem_of_getLast? hlast)).ne_quoteMark rfl
      | literal national content unmarked =>
          refine ⟨guarded_of_getLast? (x := Sql.quoteMark) ?_ rfl, not_endsQuoted_behind_sign _ _ _⟩
          rw [Default.write, Sql.literal]
          simp only [← List.cons_append, ← List.append_assoc, List.getLast?_concat]

theorem not_endsWithOption (e : Entry) (s : Text) : ¬ EndsWithOption (s ++ e.write) := by
  obtain ⟨hguarded, hquoted⟩ := e.guarded_writeFront s
  rw [write, ← List.append_assoc]
  cases e.direction with
  | input =>
      rw [show Declaration.writeDirection .input = [] from rfl, List.append_nil]
      exact Signature.not_endsWithOption hguarded hquoted
  | output => exact not_endsWithOption_output hguarded (e.solid_writeFront s)

end Entry

/-! ## Reading a declaration -/

section

variable {before : Option Char} {rest : Text}

theorem TypePart.spans_write (p : TypePart) : typePart.Spans before p.write rest := by
  cases p with
  | word w => exact .inr (spans_many1.mpr ⟨w.nonempty, w.accepted⟩)
  | bracketed name unmarked =>
      refine .inl (.cons (v := ['[']) (spans_char.mpr rfl) (.cons ?_ (.last (spans_char.mpr rfl))))
      exact spans_many1.mpr ⟨name.nonempty, name.accepted⟩

theorem spans_blanks_nil : blanks.Spans before [] rest := spans_many.mpr (by simp)

theorem DataType.spans_writeFurther (parts : List TypePart) :
    (Pattern.repeated (all [blanks, char '.', blanks, typePart])).Spans before
      (writeFurther parts) rest := by
  induction parts generalizing before with
  | nil => exact .done _ _
  | cons p parts ih =>
      refine Rounds.more (u := '.' :: p.write) (List.cons_ne_nil _ _) ?_ ih
      refine Spans.cons (v := []) spans_blanks_nil ?_
      refine Spans.cons (v := ['.']) (spans_char.mpr rfl) ?_
      exact Spans.cons (v := []) spans_blanks_nil (.last p.spans_write)

theorem Size.spans_write (size : Size) :
    (all [blanks, char '(', .many fun c => c != '(' && c != ')', char ')']).Spans before
      size.write rest := by
  refine .cons size.blank (Spans.cons (v := ['(']) (spans_char.mpr rfl) (.cons ?_ ?_))
  · intro c hc
    rcases size.plain_or_comma c hc with hplain | rfl
    · simp only [Sql.isPlain, Bool.and_eq_true] at hplain ⊢
      exact ⟨hplain.1.2, hplain.2⟩
    · rfl
  · exact .last (spans_char.mpr rfl)

theorem DataType.spans_write (t : DataType) : typeName.Spans before t.write rest := by
  refine .cons t.first.spans_write (.cons (spans_writeFurther t.further) (.last ?_))
  cases t.size with
  | none => exact .inr rfl
  | some size => exact .inl size.spans_write

theorem spans_writeDefault (default : Option Default) :
    (option (all [blanks, char '=', blanks, .named "default" (.few fun _ => true)])).Spans before
      (Declaration.writeDefault default) rest := by
  cases default with
  | none => exact .inr rfl
  | some v =>
      refine .inl (.cons (v := [' ']) (spans_many.mpr (by simp)) ?_)
      refine .cons (v := ['=']) (spans_char.mpr rfl) ?_
      exact .cons (v := [' ']) (spans_many.mpr (by simp)) (.last fun _ _ => rfl)

theorem spans_writeDirection (direction : Direction) :
    (option (.seq blanks1 (.named "direction" (any [keyword "OUTPUT", keyword "OUT"])))).Spans
      before (Declaration.writeDirection direction) rest := by
  cases direction with
  | input => exact .inr rfl
  | output =>
      refine .inl (.seq (v := [' ']) (spans_many1.mpr ⟨by simp, by simp⟩) (.inl ?_))
      exact spans_keyword_iff.mpr (spells_self _)

theorem Entry.spans_write (e : Entry) : declaration.Spans before e.write [] := by
  have hwrite : e.write = ('@' :: e.name.text) ++ ([' '] ++ ([] ++ (e.type.write ++
      (Declaration.writeDefault e.default ++ (Declaration.writeDirection e.direction ++
        ([] ++ ([] ++ []))))))) := by
    simp [write, writeFront]
  have hname {b : Option Char} {r : Text} : (many1 isNameChar).Spans b e.name.text r :=
    spans_many1.mpr ⟨e.name.nonempty, e.name.accepted⟩
  rw [hwrite]
  refine .cons (.seq (v := ['@']) (spans_char.mpr rfl) hname) ?_
  refine .cons (spans_many1.mpr ⟨by simp, by simp⟩) (.cons (.inr rfl) ?_)
  refine .cons e.type.spans_write (.cons (spans_writeDefault _) (.cons (spans_writeDirection _) ?_))
  exact .cons (.inr rfl) (.cons spans_blanks_nil (.last ⟨rfl, .inl rfl⟩))

theorem Entry.solid_write (e : Entry) : Text.Solid e.write := by
  have hfront := e.solid_writeFront []
  rw [List.nil_append] at hfront
  exact hfront.append (Declaration.solid_writeDirection _)

theorem Entry.trim_write (e : Entry) : Text.trim e.write = e.write :=
  Text.Solid.trim_eq_self rfl e.solid_write

theorem Entry.isSome_ofPiece? (e : Entry) : (Parameter.ofPiece? e.write).isSome = true := by
  have hbegins : declaration.Begins none e.write := ⟨e.write, [], by simp, e.spans_write⟩
  rw [Parameter.ofPiece?, e.trim_write, Option.isSome_map, Option.isSome_iff_ne_none, Ne,
    matchAt_eq_none_iff, not_not]
  exact hbegins

theorem ofPiece?_enclosed (s : Text) : Parameter.ofPiece? ('(' :: (s ++ [')'])) = none := by
  have hnone : declaration.matchAt (.start ('(' :: (s ++ [')']))) = none :=
    matchAt_eq_none_iff.mpr (not_begins_of_starts rfl rfl _ _)
  rw [Parameter.ofPiece?, Sql.trim_enclosed, hnone]
  rfl

end

/-! ## Parentheses in what is written -/

theorem staysOpen_of_mild {s : Text} (h : ∀ c ∈ s, Mild c) : Sql.StaysOpen s :=
  Sql.staysOpen_of_not_mem fun hmem => absurd (h _ hmem).plain (by decide)

theorem staysOpen_of_isBlank {s : Text} (h : ∀ c ∈ s, Text.isBlank c = true) : Sql.StaysOpen s :=
  Sql.staysOpen_of_not_mem fun hmem => absurd (h _ hmem) (by decide)

/-- A bracketed name or a literal closes only parentheses that it opens. -/
def TypePart.Contained : TypePart → Prop
  | .word _ => True
  | .bracketed name _ => Sql.StaysOpen name.text

def Default.Contained : Default → Prop
  | .word _ _ => True
  | .literal _ content _ => Sql.StaysOpen content

structure Entry.Contained (e : Entry) : Prop where
  type : ∀ p ∈ e.type.first :: e.type.further, p.Contained
  default : ∀ v ∈ e.default, v.Contained

theorem TypePart.Contained.staysOpen {p : TypePart} (h : p.Contained) : Sql.StaysOpen p.write := by
  cases p with
  | word w =>
      rw [write]
      exact staysOpen_of_mild (w.forall_of fun _ => mild_of_isTypeChar)
  | bracketed name unmarked =>
      have hopen : Sql.StaysOpen ['['] := Sql.staysOpen_of_not_mem (by decide)
      have hclose : Sql.StaysOpen [']'] := Sql.staysOpen_of_not_mem (by decide)
      exact hopen.append (Sql.StaysOpen.append h hclose)

theorem Size.staysOpen_write (size : Size) : Sql.StaysOpen size.write := by
  refine (staysOpen_of_isBlank size.blank).append (.enclosed ?_)
  refine Sql.staysOpen_of_not_mem fun hmem => ?_
  rcases size.plain_or_comma _ hmem with hplain | hcomma
  · cases hplain
  · exact absurd hcomma (by decide)

theorem Default.Contained.staysOpen {v : Default} (h : v.Contained) : Sql.StaysOpen v.write := by
  cases v with
  | word negative numeral =>
      have hsign : Sql.StaysOpen (if negative then ['-'] else []) :=
        Sql.staysOpen_of_not_mem (by cases negative <;> decide)
      exact hsign.append (staysOpen_of_mild (numeral.forall_of fun _ => mild_of_isNumeralChar))
  | literal national content unmarked =>
      have hnational : Sql.StaysOpen (if national then ['N'] else []) :=
        Sql.staysOpen_of_not_mem (by cases national <;> decide)
      exact hnational.append (Sql.StaysOpen.literal h)

theorem Entry.Contained.staysOpen {e : Entry} (h : e.Contained) : Sql.StaysOpen e.write := by
  have hstart : Sql.StaysOpen ['@'] := Sql.staysOpen_of_not_mem (by decide)
  have hname := staysOpen_of_mild (e.name.forall_of fun _ => mild_of_isNameChar)
  have hblank : Sql.StaysOpen [' '] := Sql.staysOpen_of_not_mem (by decide)
  have htype : Sql.StaysOpen e.type.write := by
    obtain ⟨hfirst, hfurther⟩ := List.forall_mem_cons.mp h.type
    have hdot : Sql.StaysOpen ['.'] := Sql.staysOpen_of_not_mem (by decide)
    refine hfirst.staysOpen.append (.append (.flatMap fun p hp => ?_) ?_)
    · exact hdot.append (hfurther p hp).staysOpen
    · cases e.type.size with
      | none => exact Sql.staysOpen_of_not_mem (by decide)
      | some size => exact size.staysOpen_write
  have hdefault : Sql.StaysOpen (Declaration.writeDefault e.default) := by
    cases hv : e.default with
    | none => exact Sql.staysOpen_of_not_mem (by decide)
    | some v =>
        have hsign : Sql.StaysOpen " = ".toList := Sql.staysOpen_of_not_mem (by decide)
        exact hsign.append (h.default v hv).staysOpen
  have hdirection : Sql.StaysOpen (Declaration.writeDirection e.direction) := by
    cases e.direction <;> exact Sql.staysOpen_of_not_mem (by decide)
  exact (hstart.append (hname.append (hblank.append (htype.append hdefault)))).append hdirection

/-! ## Lists with and without parentheses -/

namespace EntryList

variable (l : EntryList)

theorem pieces_eq : l.first.write :: (l.further.map (·.map Entry.write)).map (·.item) =
    l.entries.map Entry.write := by
  simp [entries, Sql.Further.map, Function.comp_def]

theorem forall_pieces {p : Text → Prop} (h : ∀ e : Entry, p e.write) :
    ∀ v ∈ l.first.write :: (l.further.map (·.map Entry.write)).map (·.item), p v := by
  rw [pieces_eq]
  exact List.forall_mem_map.mpr fun e _ => h e

theorem closed_write : Sql.Closed l.write :=
  Sql.closed_writePieces (l.forall_pieces fun e => e.closed_write)

theorem unsplitAt_write (depth : Nat) : Sql.UnsplitAt (depth + 1) l.write :=
  Sql.unsplitAt_writePieces (l.forall_pieces fun e => e.unsplitAt_write)

theorem exists_write_eq : ∃ (s : Text) (e : Entry), l.write = s ++ e.write := by
  rcases List.eq_nil_or_concat l.further with hfurther | ⟨further, f, hfurther⟩
  · exact ⟨[], l.first, by simp [write, hfurther, Sql.writePieces]⟩
  · refine ⟨Sql.writePieces l.first.write (further.map (·.map Entry.write)) ++
      (f.left ++ (Sql.comma ++ f.right)), f.item, ?_⟩
    simp [write, hfurther, Sql.writePieces, Sql.Further.write, Sql.Further.map]

theorem solid_write : Text.Solid l.write := by
  obtain ⟨s, e, hwrite⟩ := l.exists_write_eq
  rw [hwrite]
  exact .append_of_ne_nil s e.solid_write (List.cons_ne_nil _ _)

theorem trim_write : Text.trim l.write = l.write := Text.Solid.trim_eq_self rfl l.solid_write

theorem dropOptions_write : dropOptions l.write = l.write := by
  refine dropOptions_eq_self l.solid_write ?_
  obtain ⟨s, e, hwrite⟩ := l.exists_write_eq
  rw [hwrite]
  exact e.not_endsWithOption s

theorem splitTopLevel_write :
    Sql.splitTopLevel Sql.comma l.write = l.entries.map Entry.write := by
  rw [← pieces_eq]
  refine Sql.splitTopLevel_writePieces (l.forall_pieces fun e => ?_)
  exact ⟨e.unsplitAt_write, e.trim_write, List.cons_ne_nil _ _⟩

theorem unwrapParens_write : Sql.unwrapParens l.write = l.write := by
  obtain ⟨s, hs⟩ : ∃ s, l.write = '@' :: s := ⟨_, rfl⟩
  rw [Sql.unwrapParens, l.trim_write, hs]
  simp

theorem parseParameters_write :
    parseParameters l.write = (l.entries.map Entry.write).filterMap Parameter.ofPiece? := by
  have hne : l.write.isEmpty = false := rfl
  rw [parseParameters, Sql.stripComments_eq_self l.closed_write.unmarked, l.trim_write, hne,
    if_neg Bool.false_ne_true, l.dropOptions_write, l.unwrapParens_write,
    show [','] = Sql.comma from rfl, l.splitTopLevel_write]

theorem length_parseParameters : (parseParameters l.write).length = l.entries.length := by
  rw [parseParameters_write, List.filterMap_length_eq_length.mpr, List.length_map]
  exact List.forall_mem_map.mpr fun e _ => e.isSome_ofPiece?

theorem dropOptions_writeEnclosed : dropOptions l.writeEnclosed = l.writeEnclosed := by
  have hlast : l.writeEnclosed.getLast? = some ')' := by
    rw [writeEnclosed, ← List.cons_append, List.getLast?_concat]
  refine dropOptions_eq_self ?_ (not_endsWithOption (guarded_of_getLast? hlast rfl) ?_)
  · rintro x hx
    obtain rfl : ')' = x := Option.some.inj (hlast.symm.trans hx)
    rfl
  · exact not_endsQuoted_of_getLast? (by simp [hlast, Sql.quoteMark])

theorem closed_writeEnclosed : Sql.Closed l.writeEnclosed := by
  have hopen : Sql.Closed ['('] := .of_all rfl
  have hclose : Sql.Closed [')'] := .of_all rfl
  exact hopen.append (l.closed_write.append hclose)

theorem parseParameters_writeEnclosed :
    parseParameters l.writeEnclosed =
      if Sql.StaysOpen l.write then parseParameters l.write else [] := by
  have htrim : Text.trim l.writeEnclosed = l.writeEnclosed := Sql.trim_enclosed l.write
  have hne : l.writeEnclosed.isEmpty = false := rfl
  rw [parseParameters, Sql.stripComments_eq_self l.closed_writeEnclosed.unmarked, htrim, hne,
    if_neg Bool.false_ne_true, l.dropOptions_writeEnclosed, show [','] = Sql.comma from rfl,
    writeEnclosed, Sql.unwrapParens_enclosed l.trim_write]
  by_cases hopen : Sql.StaysOpen l.write
  · rw [if_pos hopen, if_pos hopen, l.splitTopLevel_write, l.parseParameters_write]
  · rw [if_neg hopen, if_neg hopen, Sql.splitTopLevel_enclosed (l.unsplitAt_write 0),
      List.filterMap_cons, ofPiece?_enclosed]
    rfl

/-- Where every name and every literal closes only parentheses of its own, so does the list. -/
theorem staysOpen_write (h : ∀ e ∈ l.entries, e.Contained) : Sql.StaysOpen l.write := by
  obtain ⟨hfirst, hfurther⟩ := List.forall_mem_cons.mp h
  have hcomma : Sql.StaysOpen Sql.comma := Sql.staysOpen_of_not_mem (by decide)
  refine hfirst.staysOpen.append (.flatMap fun f hf => ?_)
  obtain ⟨g, hg, rfl⟩ := List.mem_map.mp hf
  refine (staysOpen_of_isBlank g.blankLeft).append (hcomma.append ?_)
  exact (staysOpen_of_isBlank g.blankRight).append
    (hfurther g.item (List.mem_map_of_mem hg)).staysOpen

end EntryList

/-- The list is read alike in parentheses exactly if it closes no parenthesis in front of it;
otherwise all of its parameters are lost. -/
theorem parseParameters_enclosed_iff (l : EntryList) :
    (parseParameters l.writeEnclosed = parseParameters l.write ↔ Sql.StaysOpen l.write) ∧
      (parseParameters l.writeEnclosed = parseParameters l.write ∨
        parseParameters l.writeEnclosed = [] ∧
          (parseParameters l.write).length = l.entries.length) := by
  have henclosed := l.parseParameters_writeEnclosed
  have hlength := l.length_parseParameters
  by_cases hopen : Sql.StaysOpen l.write
  · rw [if_pos hopen] at henclosed
    exact ⟨iff_of_true henclosed hopen, .inl henclosed⟩
  · rw [if_neg hopen] at henclosed
    refine ⟨iff_of_false (fun halike => ?_) hopen, .inr ⟨henclosed, hlength⟩⟩
    rw [← halike, henclosed] at hlength
    cases hlength

/-- The parenthesis in the literal is taken for the one that closes the list. -/
theorem exists_parseParameters_enclosed_ne :
    ∃ l : EntryList, l.write = "@a varchar(10) = ')', @b int".toList ∧
      parseParameters l.writeEnclosed = [] ∧
      (parseParameters l.write).map (·.name) = ["@a".toList, "@b".toList] := by
  let size : Size := ⟨[], "10".toList, by simp, fun _ hx => .inl (List.all_eq_true.mp rfl _ hx)⟩
  let first : Entry :=
    { name := .ofAll "a".toList rfl rfl
      type := ⟨.word (.ofAll "varchar".toList rfl rfl), [], some size⟩
      default := some (.literal false ")".toList (by decide)) }
  let second : Entry :=
    { name := .ofAll "b".toList rfl rfl
      type := ⟨.word (.ofAll "int".toList rfl rfl), [], none⟩ }
  refine ⟨⟨first, [⟨[], " ".toList, second, by simp, by simp⟩]⟩, ?_, ?_, ?_⟩ <;> decide +kernel

end ProcCatalog.Signature
