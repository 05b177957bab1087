import ProcCatalog.Proofs.Pattern.Preference
import ProcCatalog.Proofs.Sql.Pieces
import ProcCatalog.Signature.Parameter

/-!
# Written parameters

How a parameter is declared: its name, its type, then its default, OUTPUT and READONLY where they
apply. What can be written is told by the types, so every declaration here has a parameter.
-/

namespace ProcCatalog.Signature

open Text (Token)

/-! ## Character classes -/

def isNameChar (c : Char) : Bool := Text.isWord c || c == '@' || c == '#' || c == '$'

def isTypeChar (c : Char) : Bool := Text.isWord c || c == '$' || c == '#'

def isSizeChar (c : Char) : Bool := Text.isWord c || c == ','

def isNumeralChar (c : Char) : Bool := Text.isWord c || c == '.'

/-! ## Types, defaults and declarations -/

/-- Words joined by dots, and the size in parentheses, if any. The word AS alone is no type. -/
structure TypeName where
  first : Token isTypeChar
  further : List (Token isTypeChar) := []
  size : Option { s : Text // ∀ x ∈ s, isSizeChar x = true } := none
  isNotAs : further = [] → size = none → ¬ Pattern.Spells "AS".toList first.text

def writeFurther (words : List (Token isTypeChar)) : Text :=
  (words.map fun w => '.' :: w.text).flatten

def writeSize (size : Option { s : Text // ∀ x ∈ s, isSizeChar x = true }) : Text :=
  size.elim [] fun s => '(' :: (s.1 ++ [')'])

def TypeName.write (t : TypeName) : Text :=
  t.first.text ++ (writeFurther t.further ++ writeSize t.size)

/-- A word or a number, or a literal; what the literal holds marks no comment. -/
inductive Default where
  | word (negative : Bool) (numeral : Token isNumeralChar)
  | literal (national : Bool) (content : Text) (unmarked : Sql.Unmarked content)

def Default.write : Default → Text
  | .word negative numeral => (if negative then ['-'] else []) ++ numeral.text
  | .literal national content _ => (if national then ['N'] else []) ++ Sql.literal content

structure Declaration where
  name : Token isNameChar
  type : TypeName
  default : Option Default := none
  direction : Direction := .input
  readonly : Bool := false

namespace Declaration

def parameter (d : Declaration) : Parameter where
  name := '@' :: d.name.text
  dataType := d.type.write
  direction := d.direction
  default := d.default.map (·.write)
  readonly := d.readonly

def writeDefault (default : Option Default) : Text :=
  default.elim [] fun v => " = ".toList ++ v.write

def writeDirection : Direction → Text
  | .input => []
  | .output => " OUTPUT".toList

def writeReadonly (readonly : Bool) : Text := if readonly then " READONLY".toList else []

def writeTail (d : Declaration) : Text :=
  writeDefault d.default ++ (writeDirection d.direction ++ writeReadonly d.readonly)

def write (d : Declaration) : Text :=
  '@' :: (d.name.text ++ ' ' :: (d.type.write ++ d.writeTail))

end Declaration

def writeList (ds : List Declaration) : Text :=
  Text.joinWith [',', ' '] (ds.map (·.write))

/-! ## Characters without a meaning of their own -/

/-- A character that parts nothing, opens nothing and belongs to no mark of a comment. -/
structure Mild (c : Char) : Prop where
  notBlank : Text.isBlank c = false
  plain : Sql.isPlain c = true
  noMark : c ≠ '-' ∧ c ≠ '/'

theorem Mild.ne_quoteMark {c : Char} (h : Mild c) : c ≠ Sql.quoteMark := by
  have hplain := h.plain
  rintro rfl
  exact absurd hplain (by decide)

theorem mild_of_isWord {c : Char} (h : Text.isWord c = true) : Mild c := by
  have hne (x : Char) (hx : Text.isWord x = false) : c ≠ x := by
    rintro rfl
    simp [h] at hx
  refine ⟨Text.isBlank_eq_false_of_isWord h, ?_, hne '-' rfl, hne '/' rfl⟩
  simp [Sql.isPlain, Sql.quoteMark, hne ',' rfl, hne '\x27' rfl, hne '[' rfl, hne '(' rfl,
    hne ')' rfl]

theorem mild_of_isNameChar {c : Char} (h : isNameChar c = true) : Mild c := by
  simp only [isNameChar, Bool.or_eq_true, beq_iff_eq] at h
  rcases h with ((h | rfl) | rfl) | rfl
  · exact mild_of_isWord h
  all_goals exact ⟨rfl, rfl, by decide⟩

theorem mild_of_isTypeChar {c : Char} (h : isTypeChar c = true) : Mild c := by
  simp only [isTypeChar, Bool.or_eq_true, beq_iff_eq] at h
  rcases h with (h | rfl) | rfl
  · exact mild_of_isWord h
  all_goals exact ⟨rfl, rfl, by decide⟩

theorem mild_of_isNumeralChar {c : Char} (h : isNumeralChar c = true) : Mild c := by
  simp only [isNumeralChar, Bool.or_eq_true, beq_iff_eq] at h
  rcases h with h | rfl
  · exact mild_of_isWord h
  · exact ⟨rfl, rfl, by decide⟩

theorem mild_or_comma_of_isSizeChar {c : Char} (h : isSizeChar c = true) : Mild c ∨ c = ',' := by
  simp only [isSizeChar, Bool.or_eq_true, beq_iff_eq] at h
  exact h.imp_left mild_of_isWord

theorem closed_of_mild {s : Text} (h : ∀ c ∈ s, Mild c) : Sql.Closed s :=
  .of_forall fun c hc => (h c hc).noMark

theorem unsplitAt_of_mild {depth : Nat} {s : Text} (h : ∀ c ∈ s, Mild c) : Sql.UnsplitAt depth s :=
  .of_isPlain fun c hc => (h c hc).plain

theorem unsplit_of_mild {s : Text} (h : ∀ c ∈ s, Mild c) : Sql.Unsplit s := unsplitAt_of_mild h

theorem mild_writeFurther {words : List (Token isTypeChar)} : ∀ c ∈ writeFurther words, Mild c := by
  intro c hc
  simp only [writeFurther, List.mem_flatten, List.mem_map] at hc
  obtain ⟨_, ⟨w, -, rfl⟩, hc⟩ := hc
  rcases List.mem_cons.mp hc with rfl | hc
  · exact ⟨rfl, rfl, by decide⟩
  · exact mild_of_isTypeChar (w.accepted c hc)

/-! ## Comments and commas in what is written -/

theorem closed_writeSize (size : Option { s : Text // ∀ x ∈ s, isSizeChar x = true }) :
    Sql.Closed (writeSize size) := by
  cases size with
  | none => exact .nil
  | some s =>
      refine .of_forall fun c hc => ?_
      simp only [writeSize, Option.elim, List.mem_cons, List.mem_append, List.not_mem_nil,
        or_false] at hc
      rcases hc with rfl | hc | rfl
      · decide
      · rcases mild_or_comma_of_isSizeChar (s.2 c hc) with h | rfl
        · exact h.noMark
        · decide
      · decide

theorem unsplit_writeSize (size : Option { s : Text // ∀ x ∈ s, isSizeChar x = true }) :
    Sql.Unsplit (writeSize size) := by
  cases size with
  | none => exact .nil
  | some s =>
      refine .parens fun c hc => ?_
      exact (mild_or_comma_of_isSizeChar (s.2 c hc)).imp_left Mild.plain

namespace TypeName

theorem closed_write (t : TypeName) : Sql.Closed t.write :=
  (closed_of_mild (t.first.forall_of fun _ => mild_of_isTypeChar)).append
    ((closed_of_mild mild_writeFurther).append (closed_writeSize t.size))

theorem unsplit_write (t : TypeName) : Sql.Unsplit t.write :=
  (unsplit_of_mild (t.first.forall_of fun _ => mild_of_isTypeChar)).append
    ((unsplit_of_mild mild_writeFurther).append (unsplit_writeSize t.size))

theorem mild_or_mark_of_mem_write (t : TypeName) :
    ∀ c ∈ t.write, Mild c ∨ c = ',' ∨ c = '(' ∨ c = ')' := by
  intro c hc
  simp only [write, List.mem_append] at hc
  rcases hc with hc | hc | hc
  · exact .inl (mild_of_isTypeChar (t.first.accepted c hc))
  · exact .inl (mild_writeFurther c hc)
  · cases hsize : t.size with
    | none => simp [writeSize, hsize] at hc
    | some s =>
        simp only [writeSize, hsize, Option.elim, List.mem_cons, List.mem_append,
          List.not_mem_nil, or_false] at hc
        rcases hc with rfl | hc | rfl
        · simp
        · exact (mild_or_comma_of_isSizeChar (s.2 c hc)).imp_right .inl
        · simp

theorem isBlank_write (t : TypeName) : ∀ c ∈ t.write, Text.isBlank c = false := by
  intro c hc
  rcases t.mild_or_mark_of_mem_write c hc with h | rfl | rfl | rfl
  · exact h.notBlank
  all_goals rfl

theorem ne_quoteMark_write (t : TypeName) : ∀ c ∈ t.write, c ≠ Sql.quoteMark := by
  intro c hc
  rcases t.mild_or_mark_of_mem_write c hc with h | rfl | rfl | rfl
  · exact h.ne_quoteMark
  all_goals decide

theorem write_ne_nil (t : TypeName) : t.write ≠ [] := by
  simp [write, t.first.nonempty]

end TypeName

namespace Default

theorem closed_write (v : Default) : Sql.Closed v.write := by
  cases v with
  | word negative numeral =>
      have hclosed := closed_of_mild (numeral.forall_of fun _ => mild_of_isNumeralChar)
      cases negative with
      | false => exact hclosed
      | true =>
          obtain ⟨x, s, hs, hx⟩ := numeral.exists_cons
          constructor
          · refine List.isChain_cons.mpr ⟨fun y hy => ?_, hclosed.chain⟩
            obtain rfl : x = y := by simpa [hs] using hy
            have := (mild_of_isNumeralChar hx).noMark
            simp [Sql.Apart, this]
          · intro y hy
            have hlast : ('-' :: numeral.text).getLast? = numeral.text.getLast? := by
              rw [hs, List.getLast?_cons_cons]
            exact hclosed.last y (hlast ▸ hy)
  | literal national content unmarked =>
      have hclosed := Sql.closed_literal unmarked
      cases national with
      | false => exact hclosed
      | true => exact (Sql.Closed.of_all (s := ['N']) rfl).append hclosed

theorem unsplitAt_write {depth : Nat} (v : Default) : Sql.UnsplitAt depth v.write := by
  cases v with
  | word negative numeral =>
      have hunsplit : Sql.UnsplitAt depth numeral.text :=
        unsplitAt_of_mild (numeral.forall_of fun _ => mild_of_isNumeralChar)
      cases negative with
      | false => exact hunsplit
      | true => exact (Sql.UnsplitAt.of_all (s := ['-']) rfl).append hunsplit
  | literal national content unmarked =>
      have hunsplit : Sql.UnsplitAt depth (Sql.literal content) := .literal content
      cases national with
      | false => exact hunsplit
      | true => exact (Sql.UnsplitAt.of_all (s := ['N']) rfl).append hunsplit

theorem isBlank_write_word {negative : Bool} {numeral : Token isNumeralChar} :
    ∀ x ∈ (word negative numeral).write, Text.isBlank x = false := by
  intro x hx
  rcases List.mem_append.mp hx with hx | hx
  · cases negative with
    | false => simp at hx
    | true =>
        obtain rfl : x = '-' := by simpa using hx
        rfl
  · exact (mild_of_isNumeralChar (numeral.accepted x hx)).notBlank

theorem exists_write_eq_cons (v : Default) :
    ∃ x s, v.write = x :: s ∧ Text.isBlank x = false := by
  cases v with
  | word negative numeral =>
      cases negative with
      | true => exact ⟨'-', numeral.text, rfl, rfl⟩
      | false =>
          obtain ⟨x, s, hs, hx⟩ := numeral.exists_cons
          exact ⟨x, s, hs, (mild_of_isNumeralChar hx).notBlank⟩
  | literal national content unmarked =>
      cases national with
      | true => exact ⟨'N', Sql.literal content, rfl, rfl⟩
      | false => exact ⟨Sql.quoteMark, _, rfl, rfl⟩

theorem solid_write (v : Default) : Text.Solid v.write := by
  cases v with
  | word negative numeral => exact .of_forall isBlank_write_word
  | literal national content unmarked =>
      refine .append_of_ne_nil _ ?_ (List.cons_ne_nil _ _)
      refine .append_of_ne_nil (Sql.quoteMark :: Sql.doubled content) (.of_forall ?_) (by simp)
      intro x hx
      obtain rfl : x = Sql.quoteMark := by simpa using hx
      rfl

end Default

namespace Declaration

theorem closed_writeDefault (default : Option Default) : Sql.Closed (writeDefault default) := by
  cases default with
  | none => exact .nil
  | some v => exact (Sql.Closed.of_all rfl).append v.closed_write

theorem closed_writeDirection (direction : Direction) :
    Sql.Closed (writeDirection direction) := by
  cases direction with
  | input => exact .nil
  | output => exact .of_all rfl

theorem closed_writeTail (d : Declaration) : Sql.Closed d.writeTail := by
  refine (closed_writeDefault _).append ((closed_writeDirection _).append ?_)
  cases d.readonly with
  | false => exact .nil
  | true => exact .of_all rfl

theorem unsplitAt_writeDefault {depth : Nat} (default : Option Default) :
    Sql.UnsplitAt depth (writeDefault default) := by
  cases default with
  | none => exact .nil
  | some v => exact (Sql.UnsplitAt.of_all rfl).append v.unsplitAt_write

theorem unsplitAt_writeDirection {depth : Nat} (direction : Direction) :
    Sql.UnsplitAt depth (writeDirection direction) := by
  cases direction with
  | input => exact .nil
  | output => exact .of_all rfl

theorem unsplit_writeTail (d : Declaration) : Sql.Unsplit d.writeTail := by
  refine .append (unsplitAt_writeDefault _) (.append (unsplitAt_writeDirection _) ?_)
  cases d.readonly with
  | false => exact .nil
  | true => exact .of_all rfl

theorem closed_write (d : Declaration) : Sql.Closed d.write := by
  have hname := closed_of_mild (d.name.forall_of fun _ => mild_of_isNameChar)
  have hstart : Sql.Closed ['@'] := .of_all rfl
  have hblank : Sql.Closed [' '] := .of_all rfl
  exact hstart.append (hname.append (hblank.append (d.type.closed_write.append d.closed_writeTail)))

theorem unsplit_write (d : Declaration) : Sql.Unsplit d.write := by
  have hname := unsplit_of_mild (d.name.forall_of fun _ => mild_of_isNameChar)
  have hstart : Sql.Unsplit ['@'] := .of_all rfl
  have hblank : Sql.Unsplit [' '] := .of_all rfl
  exact hstart.append
    (hname.append (hblank.append (d.type.unsplit_write.append d.unsplit_writeTail)))

theorem solid_writeDefault (default : Option Default) : Text.Solid (writeDefault default) := by
  cases default with
  | none => exact fun x hx => nomatch hx
  | some v =>
      obtain ⟨x, s, hs, -⟩ := v.exists_write_eq_cons
      exact .append_of_ne_nil _ v.solid_write (by simp [hs])

theorem solid_writeDirection (direction : Direction) : Text.Solid (writeDirection direction) := by
  cases direction with
  | input => exact fun x hx => nomatch hx
  | output => exact fun x hx => by cases hx; rfl

theorem solid_writeTail (d : Declaration) : Text.Solid d.writeTail := by
  refine (solid_writeDefault _).append ((solid_writeDirection _).append ?_)
  cases d.readonly with
  | false => exact fun x hx => nomatch hx
  | true => exact fun x hx => by cases hx; rfl

theorem solid_write (d : Declaration) : Text.Solid d.write := by
  refine .append_of_ne_nil ('@' :: d.name.text) (.append_of_ne_nil [' '] ?_ ?_) (by simp)
  · exact (Text.Solid.of_forall d.type.isBlank_write).append d.solid_writeTail
  · simp [d.type.write_ne_nil]

theorem trim_write (d : Declaration) : Text.trim d.write = d.write :=
  Text.Solid.trim_eq_self rfl d.solid_write

end Declaration

/-! ## Lists -/

theorem writeList_singleton (d : Declaration) : writeList [d] = d.write := by
  simp [writeList, Text.joinWith]

theorem writeList_cons (d e : Declaration) (ds : List Declaration) :
    writeList (d :: e :: ds) = d.write ++ ([',', ' '] ++ writeList (e :: ds)) := by
  simp [writeList, Text.joinWith]

theorem exists_writeList_eq_cons (d : Declaration) (ds : List Declaration) :
    ∃ s, writeList (d :: ds) = '@' :: s := by
  cases ds with
  | nil => exact ⟨_, writeList_singleton d⟩
  | cons e ds => exact ⟨_, writeList_cons d e ds⟩

theorem closed_writeList (d : Declaration) (ds : List Declaration) :
    Sql.Closed (writeList (d :: ds)) := by
  induction ds generalizing d with
  | nil =>
      rw [writeList_singleton]
      exact d.closed_write
  | cons e ds ih =>
      rw [writeList_cons]
      exact d.closed_write.append ((Sql.Closed.of_all rfl).append (ih e))

theorem solid_writeList (d : Declaration) (ds : List Declaration) :
    Text.Solid (writeList (d :: ds)) := by
  induction ds generalizing d with
  | nil =>
      rw [writeList_singleton]
      exact d.solid_write
  | cons e ds ih =>
      obtain ⟨s, hs⟩ := exists_writeList_eq_cons e ds
      rw [writeList_cons, ← List.append_assoc]
      exact .append_of_ne_nil _ (ih e) (by simp [hs])

end ProcCatalog.Signature
