import ProcCatalog.Proofs.Signature.TrailingOptions

/-!
# Reading written parameters

A written declaration is read part by part, each taken from behind the one before it. The default is
the shortest text behind which the rest is in order; no shorter one will do, since what is left over
would have to begin with a blank and could hold no quote.
-/

namespace ProcCatalog.Signature

open Pattern
open Text (Token)

variable {c : Cursor} {k : Follow} {r : Cursor}

/-! ## The parts of a declaration -/

def namePart : Pattern := .named "name" (.seq (char '@') (many1 isNameChar))

def defaultPart : Pattern :=
  option (all [blanks, char '=', blanks, .named "default" (.few fun _ => true)])

def directionPart : Pattern :=
  option (.seq blanks1 (.named "direction" (any [keyword "OUTPUT", keyword "OUT"])))

def readonlyPart : Pattern := option (.seq blanks1 (.named "readonly" (keyword "READONLY")))

def ending : Pattern := all [directionPart, readonlyPart, blanks, .textEnd]

theorem run_declaration (c : Cursor) (k : Follow) :
    declaration.run c k =
      namePart.run c fun d => blanks1.run d fun d => (option (.seq (keyword "AS") blanks1)).run d
        fun d => (Pattern.named "type" typeName).run d fun d => defaultPart.run d fun d =>
          ending.run d k := rfl

/-! ## Marks -/

def readonlyMarks (readonly : Bool) : List (String × Text) :=
  if readonly then [("readonly", "READONLY".toList)] else []

def directionMarks : Direction → List (String × Text)
  | .input => []
  | .output => [("direction", "OUTPUT".toList)]

def defaultMarks (default : Option Default) : List (String × Text) :=
  (default.map fun v => ("default", v.write)).toList

/-- What is marked while a declaration is read, the last first. -/
def Declaration.marks (d : Declaration) : List (String × Text) :=
  readonlyMarks d.readonly ++ (directionMarks d.direction ++ (defaultMarks d.default ++
    [("type", d.type.write), ("name", '@' :: d.name.text)]))

/-! ## Direction and READONLY -/

theorem run_spaced_past {p : Pattern} {name : String} {u v : Text} (hp : Takes p u v)
    (hs : c.rest = ' ' :: (u ++ v)) (hu : ∀ x ∈ (u ++ v).head?, Text.isBlank x = false)
    (hk : k ((c.past (' ' :: u) v).mark name u) = some r) :
    (option (.seq blanks1 (.named name p))).run c k = some r := by
  refine run_alt_left ?_
  rw [run]
  refine run_many1_past (u := [' ']) hs (by simp) (by simp) hu ?_
  refine run_named_past hp rfl ?_
  rwa [Cursor.past_past]

theorem run_readonly (readonly : Bool) (hs : c.rest = Declaration.writeReadonly readonly) :
    ∃ r, (all [readonlyPart, blanks, .textEnd]).run c some = some r ∧
      r.marks = readonlyMarks readonly ++ c.marks := by
  cases readonly with
  | false =>
      obtain ⟨before, rest, offset, marks⟩ := c
      subst hs
      exact ⟨_, rfl, rfl⟩
  | true =>
      refine ⟨(c.past " READONLY".toList []).mark "readonly" "READONLY".toList, ?_, rfl⟩
      refine run_spaced_past (takes_keyword "READONLY" []) hs ?_ rfl
      rintro x ⟨⟩
      rfl

theorem run_ending (direction : Direction) (readonly : Bool)
    (hs : c.rest = Declaration.writeDirection direction ++ Declaration.writeReadonly readonly) :
    ∃ r, ending.run c some = some r ∧
      r.marks = readonlyMarks readonly ++ (directionMarks direction ++ c.marks) := by
  cases direction with
  | input =>
      have hskip (k : Follow) : (Pattern.seq blanks1
          (.named "direction" (any [keyword "OUTPUT", keyword "OUT"]))).run c k = none := by
        obtain ⟨before, rest, offset, marks⟩ := c
        subst hs
        cases readonly <;> rfl
      obtain ⟨r, hr, hmarks⟩ := run_readonly readonly hs
      refine ⟨r, ?_, hmarks⟩
      rw [ending, run_all_cons, directionPart, run_option_skip (hskip _), hr]
  | output =>
      have htakes : Takes (any [keyword "OUTPUT", keyword "OUT"]) "OUTPUT".toList
          (Declaration.writeReadonly readonly) := fun d k r hd hk =>
        run_alt_left (takes_keyword "OUTPUT" _ d k r hd hk)
      obtain ⟨r, hr, hmarks⟩ := run_readonly readonly
        (c := (c.past " OUTPUT".toList (Declaration.writeReadonly readonly)).mark "direction"
          "OUTPUT".toList) rfl
      refine ⟨r, ?_, hmarks⟩
      refine run_spaced_past htakes hs ?_ hr
      rintro x ⟨⟩
      rfl

/-! ## The default -/

/-- Blanks and word characters, beginning with a blank. -/
structure Loose (s : Text) : Prop where
  head : ∀ x ∈ s.head?, Text.isBlank x = true
  chars : ∀ x ∈ s, Text.isBlank x = true ∨ Text.isWord x = true

namespace Loose

theorem of_isBlank {s : Text} (h : ∀ x ∈ s, Text.isBlank x = true) : Loose s :=
  ⟨fun x hx => h x (List.mem_of_head? hx), fun x hx => .inl (h x hx)⟩

theorem append {s t : Text} (hs : Loose s) (ht : Loose t) : Loose (s ++ t) := by
  constructor
  · intro x hx
    cases s with
    | nil => exact ht.head x hx
    | cons y s => exact hs.head x hx
  · intro x hx
    exact (List.mem_append.mp hx).elim (hs.chars x) (ht.chars x)

theorem of_spaced {p : Pattern} {name : String} {before : Option Char} {u rest : Text}
    (hp : ∀ b v w, p.Spans b v w → ∀ x ∈ v, Text.isWord x = true)
    (h : (option (.seq blanks1 (.named name p))).Spans before u rest) : Loose u := by
  rcases h with ⟨gap, word, rfl, hgap, hword⟩ | rfl
  · obtain ⟨hne, hblank⟩ := spans_many1.mp hgap
    constructor
    · intro x hx
      rw [List.head?_append_of_ne_nil _ hne] at hx
      exact hblank x (List.mem_of_head? hx)
    · intro x hx
      exact (List.mem_append.mp hx).imp (hblank x) (hp _ _ _ hword x)
  · exact of_isBlank (by simp)

end Loose

theorem loose_of_begins {before : Option Char} {s : Text} (h : ending.Begins before s) :
    Loose s := by
  obtain ⟨_, rest, rfl, u, _, rfl, hu, v, _, rfl, hv, w, _, rfl, hw, _, _, rfl, ⟨rfl, hend⟩, rfl⟩ :=
    h
  have hdirection : Loose u := by
    refine .of_spaced (fun b v w hspan => ?_) hu
    rcases hspan with hspan | hspan | hspan
    · exact (spans_keyword_iff.mp hspan).isWord rfl
    · exact (spans_keyword_iff.mp hspan).isWord rfl
    · exact absurd hspan spans_any_nil
  have hreadonly : Loose v :=
    .of_spaced (fun b v w hspan => (spans_keyword_iff.mp hspan).isWord rfl) hv
  refine (hdirection.append (hreadonly.append ((Loose.of_isBlank hw).append ?_))).append ?_
  · exact .of_isBlank (by simp)
  · rcases hend with rfl | rfl
    · exact .of_isBlank (by simp)
    · exact .of_isBlank (by simp)

/-- No part cut from the end of a default looks like what may stand behind one. -/
theorem Default.not_loose {v : Default} {a b : Text} (h : v.write = a ++ b) (hne : b ≠ [])
    (rest : Text) : ¬ Loose (b ++ rest) := by
  intro hloose
  cases v with
  | word negative numeral =>
      cases b with
      | nil => exact hne rfl
      | cons x b =>
          have hmem : x ∈ (Default.word negative numeral).write := by simp [h]
          have hx : Text.isBlank x = true := hloose.head x rfl
          simp [isBlank_write_word x hmem] at hx
  | literal national content unmarked =>
      have hlast : b.getLast? = some Sql.quoteMark := by
        rw [← List.getLast?_append_of_ne_nil a hne, ← h, Default.write, Sql.literal,
          ← List.cons_append, ← List.append_assoc, List.getLast?_concat]
      have hmem : Sql.quoteMark ∈ b ++ rest :=
        List.mem_append_left _ (List.mem_of_getLast? hlast)
      rcases hloose.chars _ hmem with hquote | hquote
      · exact absurd hquote (by decide)
      · exact absurd hquote (by decide)

theorem run_default (default : Option Default) (direction : Direction) (readonly : Bool)
    (hs : c.rest = Declaration.writeDefault default ++
      (Declaration.writeDirection direction ++ Declaration.writeReadonly readonly)) :
    ∃ r, defaultPart.run c (fun d => ending.run d some) = some r ∧
      r.marks = readonlyMarks readonly ++
        (directionMarks direction ++ (defaultMarks default ++ c.marks)) := by
  cases default with
  | none =>
      have hskip (k : Follow) : (all [blanks, char '=', blanks,
          .named "default" (.few fun _ => true)]).run c k = none := by
        obtain ⟨before, rest, offset, marks⟩ := c
        subst hs
        cases direction <;> cases readonly <;> rfl
      rw [defaultPart, run_option_skip (hskip _)]
      exact run_ending direction readonly hs
  | some v =>
      obtain ⟨x, s, hx, hblank⟩ := v.exists_write_eq_cons
      set w := Declaration.writeDirection direction ++ Declaration.writeReadonly readonly
      obtain ⟨r, hr, hmarks⟩ := run_ending direction readonly
        (c := (((c.past " = ".toList (v.write ++ w)).past v.write w).mark "default" v.write)) rfl
      refine ⟨r, run_alt_left ?_, hmarks⟩
      have hs' : c.rest = [' '] ++ ('=' :: ' ' :: (v.write ++ w)) := hs
      rw [run_all_cons]
      refine run_many_past hs' (by simp) (by rintro y ⟨⟩; rfl) ?_
      rw [run_all_cons, run_char_past rfl, run_all_cons]
      refine run_many_past (u := [' ']) rfl (by simp) ?_ ?_
      · rintro y hy
        rw [hx] at hy
        obtain rfl : x = y := by simpa using hy
        exact hblank
      rw [run_all_cons, run]
      refine run_few_past rfl (by simp) (fun a b hab hne => ?_) ?_
      · rw [run_all_nil]
        refine run_eq_none_of_not_begins fun hbegins => ?_
        exact v.not_loose hab hne w (loose_of_begins hbegins)
      · rw [run_all_nil, Cursor.upTo_past (.past rfl)]
        exact hr

/-! ## The type -/

/-- Nothing, or a blank with a character behind it that continues no type. -/
def EndsType (s : Text) : Prop :=
  s = [] ∨ ∃ x t, s = ' ' :: x :: t ∧ Text.isBlank x = false ∧ x ≠ '.' ∧ x ≠ '('

theorem endsType_writeTail (d : Declaration) : EndsType d.writeTail := by
  cases hdefault : d.default with
  | some v =>
      refine .inr ⟨'=', ' ' :: (v.write ++ (Declaration.writeDirection d.direction ++
        Declaration.writeReadonly d.readonly)), ?_, rfl, by decide, by decide⟩
      rw [Declaration.writeTail, hdefault]
      rfl
  | none =>
      rw [Declaration.writeTail, hdefault]
      cases d.direction with
      | output => exact .inr ⟨'O', _, rfl, rfl, by decide, by decide⟩
      | input =>
          cases d.readonly with
          | true => exact .inr ⟨'R', _, rfl, rfl, by decide, by decide⟩
          | false => exact .inl rfl

namespace EndsType

variable {v : Text}

theorem head?_isBlank (h : EndsType v) : ∀ x ∈ v.head?, Text.isBlank x = true := by
  rcases h with rfl | ⟨x, t, rfl, -⟩
  · simp
  · simp

theorem head?_isTypeChar (h : EndsType v) : ∀ x ∈ v.head?, isTypeChar x = false := by
  rcases h with rfl | ⟨x, t, rfl, -⟩
  · simp
  · rintro y ⟨⟩
    rfl

theorem head?_trimStart (h : EndsType v) {m : Char} (hm : m = '.' ∨ m = '(') :
    (Text.trimStart v).head? ≠ some m := by
  rcases h with rfl | ⟨x, t, rfl, hblank, hdot, hparen⟩
  · simp [Text.trimStart]
  · have hstart : Text.trimStart (' ' :: x :: t) = x :: t :=
      Text.trimStart_append (u := [' ']) (by simp) (by simpa using hblank)
    rw [hstart]
    rcases hm with rfl | rfl
    · simpa using hdot
    · simpa using hparen

end EndsType

theorem not_begins_mark {m : Char} (hm : Text.isBlank m = false) {ps : List Pattern}
    {before : Option Char} {s : Text} (hs : (Text.trimStart s).head? ≠ some m) :
    ¬ (all (blanks :: char m :: ps)).Begins before s := by
  rintro ⟨_, rest, rfl, gap, _, rfl, hgap, u, t, rfl, hmark, -⟩
  obtain rfl := spans_char.mp hmark
  refine hs ?_
  have hstart : Text.trimStart (gap ++ (m :: (t ++ rest))) = m :: (t ++ rest) :=
    Text.trimStart_append hgap (by simpa using hm)
  rw [List.append_assoc, List.singleton_append, List.cons_append, hstart]
  rfl

theorem takes_typeWord (w : Token isTypeChar) {v : Text}
    (hv : ∀ x ∈ v.head?, isTypeChar x = false) : Takes typePart w.text v := by
  intro c k r hs hk
  obtain ⟨x, s, hx, hclass⟩ := w.exists_cons
  have hbracket : (all [char '[', many1 (· != ']'), char ']']).run c k = none := by
    refine run_eq_none_of_not_begins ?_
    rintro ⟨_, rest, hrest, u, t, rfl, hmark, -⟩
    obtain rfl := spans_char.mp hmark
    obtain rfl : x = '[' := by
      rw [hs, hx] at hrest
      exact (List.cons.inj hrest).1
    exact absurd hclass (by decide)
  rw [typePart, run_alt_right hbracket]
  exact run_many1_past hs w.nonempty w.accepted hv hk

theorem takes_furtherWord (w : Token isTypeChar) {v : Text}
    (hv : ∀ x ∈ v.head?, isTypeChar x = false) :
    Takes (all [blanks, char '.', blanks, typePart]) ('.' :: w.text) v := by
  intro c k r hs hk
  have hword : ∀ x ∈ (w.text ++ v).head?, Text.isBlank x = false :=
    Text.forall_head?_append v w.nonempty
      (w.forall_of fun _ hx => (mild_of_isTypeChar hx).notBlank)
  rw [run_all_cons]
  refine run_many_past (u := []) hs (by simp) (by rintro x ⟨⟩; rfl) ?_
  rw [run_all_cons, run_char_past rfl, run_all_cons]
  refine run_many_past (u := []) rfl (by simp) hword ?_
  rw [run_all_cons]
  refine takes_typeWord w hv _ _ _ rfl ?_
  rw [run_all_nil, Cursor.past_past, Cursor.past_past, Cursor.past_past]
  exact hk

theorem takes_size (size : Option { s : Text // ∀ x ∈ s, isSizeChar x = true }) {v : Text}
    (hv : EndsType v) :
    Takes (option (all [blanks, char '(', .many fun c => c != '(' && c != ')', char ')']))
      (writeSize size) v := by
  intro c k r hs hk
  cases size with
  | none =>
      have hstay : c.past [] v = c := Cursor.past_nil hs
      rw [run_option_skip (run_eq_none_of_not_begins ?_), ← hstay]
      · exact hk
      · refine not_begins_mark rfl ?_
        rw [show c.rest = v from hs]
        exact hv.head?_trimStart (.inr rfl)
  | some s =>
      have hs' : c.rest = '(' :: (s.1 ++ ')' :: v) := by simp [hs, writeSize]
      have hinner : ∀ x ∈ s.1, (x != '(' && x != ')') = true := by
        intro x hx
        rcases mild_or_comma_of_isSizeChar (s.2 x hx) with hmild | rfl
        · have hplain := hmild.plain
          simp only [Sql.isPlain, Bool.and_eq_true] at hplain ⊢
          exact ⟨hplain.1.2, hplain.2⟩
        · rfl
      refine run_alt_left ?_
      rw [run_all_cons]
      refine run_many_past (u := []) hs' (by simp) (by rintro x ⟨⟩; rfl) ?_
      rw [run_all_cons, run_char_past rfl, run_all_cons]
      refine run_many_past rfl hinner (by rintro x ⟨⟩; rfl) ?_
      rw [run_all_cons, run_char_past rfl, run_all_nil, Cursor.past_past, Cursor.past_past,
        Cursor.past_past]
      simpa [writeSize] using hk

private theorem head?_writeSize (size : Option { s : Text // ∀ x ∈ s, isSizeChar x = true })
    {v : Text} (hv : EndsType v) : ∀ x ∈ (writeSize size ++ v).head?, isTypeChar x = false := by
  cases size with
  | none => exact hv.head?_isTypeChar
  | some s =>
      rintro x ⟨⟩
      rfl

private theorem head?_words (words : List (Token isTypeChar)) {v : Text}
    (hv : ∀ x ∈ v.head?, isTypeChar x = false) :
    ∀ x ∈ (writeFurther words ++ v).head?, isTypeChar x = false := by
  cases words with
  | nil => exact hv
  | cons w words =>
      rintro x ⟨⟩
      rfl

theorem takes_typeName (t : TypeName) {v : Text} (hv : EndsType v) :
    Takes typeName t.write v := by
  intro c k r hs hk
  have hsize := head?_writeSize t.size hv
  have hs' : c.rest = t.first.text ++ (writeFurther t.further ++ (writeSize t.size ++ v)) := by
    simp [hs, TypeName.write]
  rw [typeName, run_all_cons]
  refine takes_typeWord t.first (head?_words t.further hsize) c _ r hs' ?_
  rw [run_all_cons]
  refine run_repeated_past (t.further.map fun w => '.' :: w.text)
    (fun s => ∀ x ∈ s.head?, isTypeChar x = false) (v := writeSize t.size ++ v) rfl ?_ ?_ ?_ ?_ ?_
  · intro w hw
    obtain ⟨word, -, rfl⟩ := List.mem_map.mp hw
    exact List.cons_ne_nil _ _
  · intro w hw d rest k r hd hstops hk
    obtain ⟨word, -, rfl⟩ := List.mem_map.mp hw
    exact takes_furtherWord word hstops d k r hd hk
  · intro ws hws
    obtain ⟨further, -, rfl⟩ := List.suffix_map_iff.mp hws
    exact head?_words further hsize
  · refine not_begins_mark rfl ?_
    cases t.size with
    | none => exact hv.head?_trimStart (.inl rfl)
    | some s => simp [writeSize, Text.trimStart, show Text.isBlank '(' = false from rfl]
  · rw [run_all_cons]
    refine takes_size t.size hv _ _ _ rfl ?_
    rw [run_all_nil, Cursor.past_past, Cursor.past_past]
    simpa [TypeName.write, writeFurther] using hk

theorem not_begins_as (t : TypeName) {before : Option Char} {v : Text} (hv : EndsType v) :
    ¬ (Pattern.seq (keyword "AS") blanks1).Begins before (t.write ++ v) := by
  rintro ⟨_, rest, hs, word, gap, rfl, hspan, hgap⟩
  have hspells : Spells "AS".toList word := spans_keyword_iff.mp hspan
  have hword : ∀ x ∈ word, Text.isWord x = true := hspells.isWord rfl
  obtain ⟨hne, hblank⟩ := spans_many1.mp hgap
  have hwrite : t.write = word := by
    have hleft := Text.takeWhile_notBlank_append t.isBlank_write hv.head?_isBlank
    rw [hs, List.append_assoc] at hleft
    rw [← hleft]
    exact Text.takeWhile_notBlank_append
      (fun x hx => Text.isBlank_eq_false_of_isWord (hword x hx))
      (Text.forall_head?_append rest hne hblank)
  have hfurther : t.further = [] := by
    cases hfurther : t.further with
    | nil => rfl
    | cons w words =>
        have hdot := hword '.' (by simp [← hwrite, TypeName.write, writeFurther, hfurther])
        exact absurd hdot (by decide)
  have hsize : t.size = none := by
    cases hsize : t.size with
    | none => rfl
    | some s =>
        have hparen := hword '(' (by simp [← hwrite, TypeName.write, writeSize, hsize])
        exact absurd hparen (by decide)
  have hfirst : t.first.text = word := by
    simpa [TypeName.write, writeFurther, writeSize, hfurther, hsize] using hwrite
  exact t.isNotAs hfurther hsize (hfirst ▸ hspells)

/-! ## The whole declaration -/

theorem takes_name (name : Token isNameChar) (s : Text) :
    Takes (.seq (char '@') (many1 isNameChar)) ('@' :: name.text) (' ' :: s) := by
  intro c k r hs hk
  rw [run, run_char_past hs]
  refine run_many1_past rfl name.nonempty name.accepted (by rintro x ⟨⟩; rfl) ?_
  rw [Cursor.past_past]
  exact hk

theorem run_declaration_write (d : Declaration) :
    ∃ r, declaration.run (.start d.write) some = some r ∧ r.marks = d.marks := by
  have htail := endsType_writeTail d
  have htype : ∀ x ∈ (d.type.write ++ d.writeTail).head?, Text.isBlank x = false :=
    Text.forall_head?_append _ d.type.write_ne_nil d.type.isBlank_write
  set name := '@' :: d.name.text
  obtain ⟨r, hr, hmarks⟩ := run_default d.default d.direction d.readonly
    (c := (((((Cursor.start d.write).past name
      (' ' :: (d.type.write ++ d.writeTail))).mark "name" name).past [' ']
        (d.type.write ++ d.writeTail)).past d.type.write d.writeTail).mark "type" d.type.write) rfl
  refine ⟨r, ?_, hmarks⟩
  rw [run_declaration]
  refine run_named_past (takes_name d.name _) rfl ?_
  refine run_many1_past (u := [' ']) rfl (by simp) (by simp) htype ?_
  rw [run_option_skip (run_eq_none_of_not_begins (not_begins_as d.type htail))]
  exact run_named_past (takes_typeName d.type htail) rfl hr

/-! ## Reading back -/

theorem tightenParens_eq_self {s : Text} (h : ∀ x ∈ s, Text.isBlank x = false) :
    tightenParens s = s := by
  induction s with
  | nil => rfl
  | cons x s ih =>
      have hx : Text.isBlank x = false := h x (by simp)
      simp [tightenParens, hx, ih fun y hy => h y (by simp [hy])]

theorem Default.getLast?_write_ne (v : Default) : v.write.getLast? ≠ some ',' := by
  intro hlast
  cases v with
  | word negative numeral =>
      rw [Default.write, List.getLast?_append_of_ne_nil _ numeral.nonempty] at hlast
      exact absurd (numeral.accepted _ (List.mem_of_getLast? hlast)) (by decide)
  | literal national content unmarked =>
      rw [Default.write, Sql.literal, ← List.cons_append, ← List.append_assoc,
        List.getLast?_concat] at hlast
      exact absurd hlast (by decide)

theorem cleanDefault_write (v : Default) : cleanDefault v.write = some v.write := by
  obtain ⟨x, s, hx, hblank⟩ := v.exists_write_eq_cons
  have htrim : Text.trim v.write = v.write := by
    have hsolid := v.solid_write
    rw [hx] at hsolid ⊢
    exact hsolid.trim_eq_self hblank
  rw [cleanDefault, htrim, if_neg v.getLast?_write_ne]
  simp [hx]

theorem Declaration.lookup_marks (d : Declaration) :
    d.marks.lookup "name" = some ('@' :: d.name.text) ∧
      d.marks.lookup "type" = some d.type.write ∧
      (d.marks.lookup "direction").isSome = (d.direction == .output) ∧
      d.marks.lookup "default" = d.default.map (·.write) ∧
      (d.marks.lookup "readonly").isSome = d.readonly := by
  rw [Declaration.marks]
  cases d.direction <;> cases d.readonly <;> cases d.default <;> exact ⟨rfl, rfl, rfl, rfl, rfl⟩

theorem ofPiece?_write (d : Declaration) : Parameter.ofPiece? d.write = some d.parameter := by
  obtain ⟨r, hr, hmarks⟩ := run_declaration_write d
  obtain ⟨hname, htype, hdirection, hdefault, hreadonly⟩ := d.lookup_marks
  have hdirection' : (if (d.direction == .output) = true then Direction.output else .input) =
      d.direction := by
    cases d.direction <;> rfl
  have hclean : (d.default.map (·.write)).bind cleanDefault = d.default.map (·.write) := by
    cases d.default with
    | none => rfl
    | some v => exact cleanDefault_write v
  have htight : tightenParens (Text.collapse d.type.write) = d.type.write := by
    rw [Text.collapse_eq_self d.type.isBlank_write, tightenParens_eq_self d.type.isBlank_write]
  rw [Parameter.ofPiece?, d.trim_write, matchAt, hr]
  simp only [Option.map_some, Found.mark?, hmarks, hname, htype, hdirection, hdefault, hreadonly,
    Option.getD_some, hdirection', hclean, htight]
  rfl

/-- Written parameters are read back, whatever clauses of options follow them. -/
theorem parseParameters_written (d : Declaration) (ds : List Declaration)
    (clauses : List Clause) :
    parseParameters (writeList (d :: ds) ++ writeClauses clauses) =
      (d :: ds).map (·.parameter) := by
  obtain ⟨s, hs⟩ := exists_writeList_eq_cons d ds
  have hsolid : Text.Solid (writeList (d :: ds) ++ writeClauses clauses) :=
    (solid_writeList d ds).append (solid_writeClauses clauses)
  have hstrip : Sql.stripComments (writeList (d :: ds) ++ writeClauses clauses) =
      writeList (d :: ds) ++ writeClauses clauses :=
    Sql.stripComments_eq_self
      ((closed_writeList d ds).append (closed_writeClauses clauses)).unmarked
  have htrim : Text.trim (writeList (d :: ds) ++ writeClauses clauses) =
      writeList (d :: ds) ++ writeClauses clauses := by
    rw [hs] at hsolid ⊢
    exact Text.Solid.trim_eq_self rfl hsolid
  have hunwrap : Sql.unwrapParens (writeList (d :: ds)) = writeList (d :: ds) := by
    have hlist : Text.trim (writeList (d :: ds)) = writeList (d :: ds) := by
      have hsolid := solid_writeList d ds
      rw [hs] at hsolid ⊢
      exact Text.Solid.trim_eq_self rfl hsolid
    rw [Sql.unwrapParens, hlist, hs]
    simp
  have hsplit : Sql.splitTopLevel Sql.comma (writeList (d :: ds)) = (d :: ds).map (·.write) := by
    have hall {p : Text → Prop} (h : ∀ e : Declaration, p e.write) :
        ∀ v ∈ (d :: ds).map (·.write), p v := List.forall_mem_map.mpr fun e _ => h e
    exact Sql.splitTopLevel_joinWith (hall fun e => e.unsplit_write) (hall fun e => e.trim_write)
      (hall fun e => List.cons_ne_nil _ _)
  have hread : ∀ es : List Declaration,
      (es.map (·.write)).filterMap Parameter.ofPiece? = es.map (·.parameter) := by
    intro es
    simp only [List.filterMap_map, Function.comp_def, ofPiece?_write]
    exact congrFun List.filterMap_eq_map' es
  rw [parseParameters, hstrip, htrim, if_neg (by simp [hs]), dropOptions_written, hunwrap]
  rw [show [','] = Sql.comma from rfl, hsplit, hread]

end ProcCatalog.Signature
