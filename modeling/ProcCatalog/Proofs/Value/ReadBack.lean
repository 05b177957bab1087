import ProcCatalog.Proofs.Value.Nesting
import ProcCatalog.Proofs.Value.Strings
import ProcCatalog.Proofs.Value.Whole

/-!
# Documents read back

A document that is written is read back as it was: the same members in the same order, and the same
strings, whole numbers, booleans and nulls. Behind a value stands nothing, a comma or a line feed;
so a number ends where it was ended, and a gap before a value is passed over.
-/

namespace ProcCatalog

/-! ## Characters of a raw text -/

namespace RawText

/-- The characters of a raw text, without the halves. -/
def chars (s : RawText) : Text := s.filterMap CodePoint.char?

@[simp] theorem chars_raw (s : Text) : chars (Text.raw s) = s := by
  induction s with
  | nil => rfl
  | cons c s ih => exact congrArg (c :: ·) ih

@[simp] theorem chars_append (s t : RawText) : chars (s ++ t) = chars s ++ chars t :=
  List.filterMap_append

theorem raw_chars {s : RawText} (h : s.isWhole = true) : Text.raw s.chars = s := by
  obtain ⟨t, rfl⟩ := isWhole_iff.mp h
  rw [chars_raw]

end RawText

namespace Value

/-- What may stand behind a value. -/
def Follows (rest : Text) : Prop := rest = [] ∨ ∃ c s, rest = c :: s ∧ (c = ',' ∨ c = '\n')

/-! ## Whole numbers -/

private theorem isNumeral_of_mem_ofNat {n : Nat} {c : Char} (h : c ∈ Text.ofNat n) :
    isNumeral c = true := by
  have hdigit : c.isDigit = true := Nat.isDigit_of_mem_toDigits (by decide) (by decide) h
  simpa [isNumeral, Char.isDigit, Char.le_def] using hdigit

private theorem natOf_ofNat (n : Nat) : natOf (Text.ofNat n) = n :=
  Nat.ofDigitChars_toDigits (by decide) (by decide)

private theorem ofNat_ne_nil (n : Nat) : Text.ofNat n ≠ [] := Nat.toDigits_ne_nil

/-- A number other than zero has no zero in front. -/
private theorem head_ofNat {n : Nat} (h : n ≠ 0) : (Text.ofNat n).head? ≠ some '0' := by
  induction n using Nat.strongRecOn with
  | ind n ih =>
      by_cases hn : n < 10
      · have hdigit : ∀ m < 10, m ≠ 0 → Nat.digitChar m ≠ '0' := by decide
        rw [Text.ofNat, Nat.toDigits_of_lt_base hn]
        exact fun heq => hdigit n hn h (Option.some.inj heq)
      · have hsplit : Text.ofNat n = Text.ofNat (n / 10) ++ [(n % 10).digitChar] :=
          Nat.toDigits_of_base_le (by decide) (Nat.le_of_not_lt hn)
        rw [hsplit, List.head?_append_of_ne_nil _ (ofNat_ne_nil _)]
        exact ih (n / 10) (by omega) (by omega)

private theorem Follows.takeWhile {rest : Text} (h : Follows rest) :
    rest.takeWhile isNumeral = [] := by
  obtain rfl | ⟨c, s, rfl, rfl | rfl⟩ := h
  · rfl
  · rfl
  · rfl

private theorem Follows.readFraction {rest : Text} (h : Follows rest) :
    readFraction rest = ([], rest) := by
  obtain rfl | ⟨c, s, rfl, rfl | rfl⟩ := h
  · rfl
  · rfl
  · rfl

private theorem Follows.readExponent {rest : Text} (h : Follows rest) :
    readExponent rest = (none, rest) := by
  obtain rfl | ⟨c, s, rfl, rfl | rfl⟩ := h
  · rfl
  · rfl
  · rfl

private theorem readMagnitude_ofNat (start : Text) (negative : Bool) {rest : Text} {n : Nat}
    (hdigits : (Text.ofNat n).length ≤ Text.longestNumeral) (hrest : Follows rest) :
    readMagnitude start negative (Text.ofNat n ++ rest) =
      .ok (.int (if negative then -(n : Int) else n), rest) := by
  have hwhole : (if (Text.ofNat n ++ rest).head? = some '0' then ['0']
      else (Text.ofNat n ++ rest).takeWhile isNumeral) = Text.ofNat n := by
    by_cases hn : n = 0
    · subst hn
      rfl
    · have hhead : (Text.ofNat n ++ rest).head? ≠ some '0' := by
        rw [List.head?_append_of_ne_nil _ (ofNat_ne_nil n)]
        exact head_ofNat hn
      rw [if_neg hhead, List.takeWhile_append_of_pos fun c => isNumeral_of_mem_ofNat,
        hrest.takeWhile, List.append_nil]
  have hsome : (Text.ofNat n).isEmpty = false := by
    simp [ofNat_ne_nil]
  rw [readMagnitude]
  simp only [hwhole, hsome, List.drop_left, hrest.readFraction, hrest.readExponent]
  rw [if_neg (by simp), if_pos (by simp), if_neg (Nat.not_lt.mpr hdigits), natOf_ofNat]

/-! ## Texts of values -/

variable {depth fuel nesting : Nat} {rest : Text}

def textAt (depth : Nat) (v : Value) : Text := RawText.chars (chunksAt depth v).flatten

def itemsText (depth : Nat) (vs : List Value) : Text := RawText.chars (itemChunks depth vs).flatten

def membersText (depth : Nat) (ms : List (RawText × Value)) : Text :=
  RawText.chars (memberChunks depth ms).flatten

def keyText (key : RawText) : Text :=
  '\x22' :: (key.chars.flatMap writeChar ++ ['\x22', ':', ' '])

private theorem chars_writeString (s : RawText) :
    (writeString s).chars = '\x22' :: (s.chars.flatMap writeChar ++ ['\x22']) := by
  have hpoints : RawText.chars (s.flatMap writePoint) = s.chars.flatMap writeChar := by
    induction s with
    | nil => rfl
    | cons c s ih =>
        rw [List.flatMap_cons, RawText.chars_append, ih]
        cases c with
        | char c => exact congrArg (· ++ _) (RawText.chars_raw (writeChar c))
        | half place => rfl
  have hquote : RawText.chars [quote] = ['\x22'] := rfl
  change RawText.chars ([quote] ++ (s.flatMap writePoint ++ [quote])) = _
  rw [RawText.chars_append, RawText.chars_append, hpoints, hquote]
  rfl

@[simp] theorem textAt_null : textAt depth null = "null".toList := rfl

@[simp] theorem textAt_bool (b : Bool) :
    textAt depth (bool b) = if b then "true".toList else "false".toList := by
  cases b <;> rfl

@[simp] theorem textAt_int (n : Int) : textAt depth (int n) = Text.ofInt n := by
  simp [textAt, chunksAt]

@[simp] theorem textAt_str (s : RawText) :
    textAt depth (str s) = '\x22' :: (s.chars.flatMap writeChar ++ ['\x22']) := by
  simp [textAt, chunksAt, chars_writeString]

@[simp] theorem textAt_arr_nil : textAt depth (arr []) = ['[', ']'] := rfl

@[simp] theorem textAt_obj_nil : textAt depth (obj []) = ['\x7b', '\x7d'] := rfl

@[simp] theorem textAt_arr_cons (v : Value) (vs : List Value) :
    textAt depth (arr (v :: vs)) =
      '[' :: (newLine (depth + 1) ++ (textAt (depth + 1) v ++ (itemsText (depth + 1) vs ++
        (newLine depth ++ [']'])))) := by
  simp [textAt, chunksAt, itemsText, flatten_withGap]

@[simp] theorem itemsText_nil : itemsText depth [] = [] := rfl

@[simp] theorem itemsText_cons (v : Value) (vs : List Value) :
    itemsText depth (v :: vs) =
      ',' :: (newLine depth ++ (textAt depth v ++ itemsText depth vs)) := by
  simp [textAt, itemChunks, itemsText, flatten_withGap]

@[simp] theorem textAt_obj_cons (key : RawText) (v : Value) (ms : List (RawText × Value)) :
    textAt depth (obj ((key, v) :: ms)) =
      '\x7b' :: (newLine (depth + 1) ++ (keyText key ++ (textAt (depth + 1) v ++
        (membersText (depth + 1) ms ++ (newLine depth ++ ['\x7d']))))) := by
  simp [textAt, chunksAt, membersText, keyText, chars_writeString]

@[simp] theorem membersText_nil : membersText depth [] = [] := rfl

@[simp] theorem membersText_cons (key : RawText) (v : Value) (ms : List (RawText × Value)) :
    membersText depth ((key, v) :: ms) =
      ',' :: (newLine depth ++ (keyText key ++ (textAt depth v ++ membersText depth ms))) := by
  simp [textAt, memberChunks, membersText, keyText, chars_writeString]

/-! ## Gaps -/

private theorem skipGaps_cons {c : Char} (h : isGap c = false) (s : Text) :
    skipGaps (c :: s) = c :: s := by
  rw [skipGaps, List.dropWhile_cons_of_neg (by simp [h])]

private theorem skipGaps_newLine (depth : Nat) (s : Text) :
    skipGaps (newLine depth ++ s) = skipGaps s := by
  refine List.dropWhile_append_of_pos fun c hc => ?_
  rcases List.mem_cons.mp hc with rfl | hc
  · rfl
  · rw [List.eq_of_mem_replicate hc]
    rfl

private theorem follows_newLine (depth : Nat) (s : Text) : Follows (newLine depth ++ s) :=
  .inr ⟨'\n', _, rfl, .inr rfl⟩

/-- A value begins neither with a gap nor as the end of a list or a byte order mark does. -/
structure Begins (c : Char) : Prop where
  noGap : isGap c = false
  noEnd : c ≠ ']'
  noMark : c ≠ Char.ofNat 0xfeff

instance : DecidablePred Begins := fun c =>
  decidable_of_iff (isGap c = false ∧ c ≠ ']' ∧ c ≠ Char.ofNat 0xfeff)
    ⟨fun h => ⟨h.1, h.2.1, h.2.2⟩, fun h => ⟨h.noGap, h.noEnd, h.noMark⟩⟩

/-- A value is read back wherever it is written, if there is enough fuel. -/
structure Reads (v : Value) : Prop where
  head : ∀ depth, ∃ c s, textAt depth v = c :: s ∧ Begins c
  read : ∀ {depth fuel nesting : Nat} {rest : Text}, (textAt depth v).length ≤ fuel →
    v.height ≤ nesting → Follows rest →
      readValue fuel nesting (textAt depth v ++ rest) = .ok (v, rest)

private theorem Reads.skipGaps {v : Value} (h : Reads v) (s : Text) :
    skipGaps (textAt depth v ++ s) = textAt depth v ++ s := by
  obtain ⟨c, t, htext, hc⟩ := h.head depth
  rw [htext, List.cons_append, skipGaps_cons hc.noGap]

/-! ## Lists -/

private theorem readItems_last {s t : Text} {v : Value}
    (hv : readValue fuel nesting s = .ok (v, t)) (ht : skipGaps t = ']' :: rest) :
    readItems (fuel + 1) nesting s = .ok ([v], rest) := by
  simp [readItems, hv, ht, bind, Except.bind, pure, Except.pure]

private theorem readItems_more {s t u : Text} {v : Value} {vs : List Value}
    (hv : readValue fuel nesting s = .ok (v, t)) (ht : skipGaps t = ',' :: u)
    (hvs : readItems fuel nesting (skipGaps u) = .ok (vs, rest)) :
    readItems (fuel + 1) nesting s = .ok (v :: vs, rest) := by
  simp [readItems, hv, ht, hvs, bind, Except.bind, pure, Except.pure]

private theorem follows_items (vs : List Value) (s : Text) {depth depth' : Nat} :
    Follows (itemsText depth vs ++ (newLine depth' ++ s)) := by
  cases vs with
  | nil => exact follows_newLine _ _
  | cons v vs =>
      rw [itemsText_cons]
      exact .inr ⟨',', _, rfl, .inl rfl⟩

private theorem readItems_text {depth' : Nat} (v : Value) (vs : List Value)
    (h : ∀ w ∈ v :: vs, Reads w ∧ w.height ≤ nesting)
    (hfuel : (textAt depth v).length + (itemsText depth vs).length + 1 ≤ fuel) :
    readItems fuel nesting
        (textAt depth v ++ (itemsText depth vs ++ (newLine depth' ++ ']' :: rest))) =
      .ok (v :: vs, rest) := by
  -- One round is spent on an item, and the comma behind it pays for the next round.
  induction vs generalizing v fuel with
  | nil =>
      obtain ⟨fuel, rfl⟩ : ∃ n, fuel = n + 1 := ⟨fuel - 1, by omega⟩
      obtain ⟨hreads, hheight⟩ := h v List.mem_cons_self
      refine readItems_last (hreads.read (by omega) hheight (follows_items _ _)) ?_
      rw [itemsText_nil, List.nil_append, skipGaps_newLine, skipGaps_cons rfl]
  | cons w vs ih =>
      have hlength : (itemsText depth (w :: vs)).length =
          (newLine depth).length + (textAt depth w).length + (itemsText depth vs).length + 1 := by
        simp only [itemsText_cons, List.length_cons, List.length_append]
        omega
      obtain ⟨fuel, rfl⟩ : ∃ n, fuel = n + 1 := ⟨fuel - 1, by omega⟩
      obtain ⟨hreads, hheight⟩ := h v List.mem_cons_self
      refine readItems_more (hreads.read (by omega) hheight (follows_items _ _)) ?_
        (u := newLine depth ++ (textAt depth w ++ (itemsText depth vs ++
          (newLine depth' ++ ']' :: rest)))) ?_
      · rw [itemsText_cons, List.cons_append, skipGaps_cons rfl]
        simp
      · rw [skipGaps_newLine, (h w (by simp)).1.skipGaps]
        exact ih w (fun u hu => h u (List.mem_cons_of_mem _ hu)) (by omega)

/-! ## Objects -/

private theorem keyText_append (key : RawText) (s : Text) :
    keyText key ++ s = '\x22' :: (key.chars.flatMap writeChar ++ '\x22' :: ':' :: ' ' :: s) := by
  simp [keyText]

private theorem readString_key {key : RawText} (h : key.isWhole = true) (opening s : Text) :
    readString opening 0 [] (key.chars.flatMap writeChar ++ '\x22' :: s) = .ok (key, s) := by
  rw [readString_write, RawText.raw_chars h, List.reverse_nil, List.nil_append]

section

variable {s t : Text} {key : RawText} {v : Value} {members result : List (RawText × Value)}

private theorem readMembers_last (hkey : key.isWhole = true) (hs : skipGaps s = s)
    (hv : readValue fuel nesting s = .ok (v, t)) (ht : skipGaps t = '\x7d' :: rest) :
    readMembers (fuel + 1) nesting members (keyText key ++ s) =
      .ok (putMember key v members, rest) := by
  have hcolon : skipGaps (':' :: ' ' :: s) = ':' :: ' ' :: s := skipGaps_cons rfl _
  have hspace : skipGaps (' ' :: s) = s := hs
  simp [keyText_append, readMembers, readString_key hkey, hcolon, hspace, hv, ht, bind,
    Except.bind, pure, Except.pure]

private theorem readMembers_more {u : Text} (hkey : key.isWhole = true) (hs : skipGaps s = s)
    (hv : readValue fuel nesting s = .ok (v, t)) (ht : skipGaps t = ',' :: u)
    (hresult : readMembers fuel nesting (putMember key v members) (skipGaps u) =
      .ok (result, rest)) :
    readMembers (fuel + 1) nesting members (keyText key ++ s) = .ok (result, rest) := by
  have hcolon : skipGaps (':' :: ' ' :: s) = ':' :: ' ' :: s := skipGaps_cons rfl _
  have hspace : skipGaps (' ' :: s) = s := hs
  simp [keyText_append, readMembers, readString_key hkey, hcolon, hspace, hv, ht, hresult, bind,
    Except.bind]

end

private theorem putMember_of_not_mem {key : RawText} {v : Value} {members : List (RawText × Value)}
    (h : key ∉ members.map (·.1)) : putMember key v members = members ++ [(key, v)] := by
  induction members with
  | nil => rfl
  | cons m members ih =>
      rw [List.map_cons, List.mem_cons, not_or] at h
      rw [putMember, if_neg (Ne.symm h.1), ih h.2, List.cons_append]

private theorem not_mem_of_nodup {key : RawText} {v : Value} {members ms : List (RawText × Value)}
    (h : ((members ++ (key, v) :: ms).map (·.1)).Nodup) : key ∉ members.map (·.1) := by
  rw [List.map_append, List.map_cons, List.nodup_middle, List.nodup_cons] at h
  exact fun hmem => h.1 (List.mem_append_left _ hmem)

private theorem follows_members (ms : List (RawText × Value)) (s : Text) {depth depth' : Nat} :
    Follows (membersText depth ms ++ (newLine depth' ++ s)) := by
  cases ms with
  | nil => exact follows_newLine _ _
  | cons m ms =>
      rw [membersText_cons]
      exact .inr ⟨',', _, rfl, .inl rfl⟩

private theorem skipGaps_keyText (key : RawText) (s : Text) :
    skipGaps (keyText key ++ s) = keyText key ++ s := skipGaps_cons rfl _

private theorem readMembers_text {depth' : Nat} {members : List (RawText × Value)}
    (key : RawText) (v : Value) (ms : List (RawText × Value))
    (h : ∀ m ∈ (key, v) :: ms, m.1.isWhole = true ∧ Reads m.2 ∧ m.2.height ≤ nesting)
    (hkeys : ((members ++ (key, v) :: ms).map (·.1)).Nodup)
    (hfuel : (textAt depth v).length + (membersText depth ms).length + 1 ≤ fuel) :
    readMembers fuel nesting members
        (keyText key ++ (textAt depth v ++ (membersText depth ms ++
          (newLine depth' ++ '\x7d' :: rest)))) =
      .ok (members ++ (key, v) :: ms, rest) := by
  -- The members read so far grow behind, which needs every key to be new.
  induction ms generalizing key v members fuel with
  | nil =>
      obtain ⟨fuel, rfl⟩ : ∃ n, fuel = n + 1 := ⟨fuel - 1, by omega⟩
      obtain ⟨hkey, hreads, hheight⟩ : key.isWhole = true ∧ Reads v ∧ v.height ≤ nesting :=
        h (key, v) List.mem_cons_self
      have hnew := not_mem_of_nodup hkeys
      rw [← putMember_of_not_mem hnew]
      refine readMembers_last hkey (hreads.skipGaps _)
        (hreads.read (by omega) hheight (follows_members _ _)) ?_
      rw [membersText_nil, List.nil_append, skipGaps_newLine, skipGaps_cons rfl]
  | cons m ms ih =>
      obtain ⟨key', w⟩ := m
      have hlength : (membersText depth ((key', w) :: ms)).length =
          (newLine depth).length + (keyText key').length + (textAt depth w).length +
            (membersText depth ms).length + 1 := by
        simp only [membersText_cons, List.length_cons, List.length_append]
        omega
      obtain ⟨fuel, rfl⟩ : ∃ n, fuel = n + 1 := ⟨fuel - 1, by omega⟩
      obtain ⟨hkey, hreads, hheight⟩ : key.isWhole = true ∧ Reads v ∧ v.height ≤ nesting :=
        h (key, v) List.mem_cons_self
      have hnew := not_mem_of_nodup hkeys
      refine readMembers_more hkey (hreads.skipGaps _)
        (hreads.read (by omega) hheight (follows_members _ _))
        (u := newLine depth ++ (keyText key' ++ (textAt depth w ++ (membersText depth ms ++
          (newLine depth' ++ '\x7d' :: rest))))) ?_ ?_
      · rw [membersText_cons, List.cons_append, skipGaps_cons rfl]
        simp
      · rw [skipGaps_newLine, skipGaps_keyText, putMember_of_not_mem hnew]
        have happend : members ++ (key, v) :: (key', w) :: ms =
            (members ++ [(key, v)]) ++ (key', w) :: ms := by simp
        rw [happend] at hkeys ⊢
        exact ih key' w (fun m hm => h m (List.mem_cons_of_mem _ hm)) hkeys (by omega)

/-! ## Values -/

/-- Neither a number with a fraction nor an object with one key twice. -/
def IsPlain : Value → Prop
  | real _ => False
  | obj ms => (ms.map (·.1)).Nodup
  | _ => True

instance : DecidablePred IsPlain
  | real _ => .isFalse id
  | obj ms => inferInstanceAs (Decidable (ms.map (·.1)).Nodup)
  | null | bool _ | int _ | str _ | arr _ => .isTrue trivial

/-- A whole number has no more digits than are read. -/
def NumeralFits : Value → Prop
  | int n => (Text.ofNat n.natAbs).length ≤ Text.longestNumeral
  | _ => True

instance : DecidablePred NumeralFits
  | int n => inferInstanceAs (Decidable ((Text.ofNat n.natAbs).length ≤ Text.longestNumeral))
  | null | bool _ | real _ | str _ | arr _ | obj _ => .isTrue trivial

private theorem readValue_scalar {c : Char} {s : Text} (h : c ≠ '\x22' ∧ c ≠ '[' ∧ c ≠ '\x7b') :
    readValue (fuel + 1) nesting (c :: s) = readScalar (c :: s) := by
  rw [readValue]
  · exact fun r heq => h.1 (List.cons.inj heq).1
  · exact fun r heq => h.2.1 (List.cons.inj heq).1
  · exact fun r heq => h.2.2 (List.cons.inj heq).1

private theorem readWord?_numeral {c : Char} (h : isNumeral c = true) (s : Text) :
    readWord? (c :: s) = none ∧ readWord? ('-' :: c :: s) = none := by
  have hne (d : Char) (hd : isNumeral d = false) : (d == c) = false :=
    beq_eq_false_iff_ne.mpr fun heq => by rw [heq, h] at hd; cases hd
  simp [readWord?, List.find?, List.isPrefixOf, hne 'n' rfl, hne 't' rfl, hne 'f' rfl, hne 'N' rfl,
    hne 'I' rfl, hne '-' rfl]

private theorem exists_ofNat_eq_cons (n : Nat) :
    ∃ c s, Text.ofNat n = c :: s ∧ isNumeral c = true := by
  obtain ⟨c, s, htext⟩ := List.exists_cons_of_ne_nil (ofNat_ne_nil n)
  exact ⟨c, s, htext, isNumeral_of_mem_ofNat (n := n) (by rw [htext]; exact List.mem_cons_self)⟩

private theorem readScalar_ofNat {n : Nat} (hn : (Text.ofNat n).length ≤ Text.longestNumeral)
    (hrest : Follows rest) :
    readScalar (Text.ofNat n ++ rest) = .ok (.int n, rest) ∧
      readScalar ('-' :: (Text.ofNat n ++ rest)) = .ok (.int (-n), rest) := by
  have hread (start : Text) (negative : Bool) :=
    readMagnitude_ofNat start negative hn hrest
  obtain ⟨c, s, htext, hc⟩ := exists_ofNat_eq_cons n
  rw [htext, List.cons_append] at hread ⊢
  obtain ⟨hword, hword'⟩ := readWord?_numeral hc (s ++ rest)
  refine ⟨?_, ?_⟩
  · rw [readScalar, hword]
    · exact hread _ _
    · intro r heq
      rw [(List.cons.inj heq).1] at hc
      cases hc
  · rw [readScalar, hword']
    exact hread _ _

private theorem begins_of_isNumeral {c : Char} (h : isNumeral c = true) : Begins c where
  noGap := by
    refine Bool.eq_false_iff.mpr fun hgap => ?_
    simp only [isGap, Bool.or_eq_true, beq_iff_eq] at hgap
    obtain ((rfl | rfl) | rfl) | rfl := hgap <;> cases h
  noEnd heq := by
    rw [heq] at h
    cases h
  noMark heq := by
    rw [heq] at h
    cases h

private theorem reads_int {n : Int} (hn : NumeralFits (int n)) : Reads (int n) where
  head depth := by
    cases n with
    | ofNat n =>
        obtain ⟨c, s, htext, hc⟩ := exists_ofNat_eq_cons n
        exact ⟨c, s, by rw [textAt_int]; exact htext, begins_of_isNumeral hc⟩
    | negSucc n => exact ⟨'-', Text.ofNat (n + 1), by rw [textAt_int]; rfl, by decide⟩
  read := by
    intro depth fuel nesting rest hfuel hheight hrest
    rw [textAt_int] at hfuel ⊢
    cases n with
    | ofNat n =>
        obtain ⟨hread, -⟩ := readScalar_ofNat (n := n) hn hrest
        obtain ⟨c, s, htext, hc⟩ := exists_ofNat_eq_cons n
        change (Text.ofNat n).length ≤ fuel at hfuel
        change readValue fuel nesting (Text.ofNat n ++ rest) = _
        rw [htext] at hfuel hread ⊢
        obtain ⟨fuel, rfl⟩ : ∃ m, fuel = m + 1 := ⟨fuel - 1, by simp at hfuel; omega⟩
        rw [List.cons_append, readValue_scalar ⟨?_, ?_, ?_⟩]
        · exact hread
        all_goals
          rintro rfl
          cases hc
    | negSucc n =>
        obtain ⟨-, hread⟩ := readScalar_ofNat (n := n + 1) hn hrest
        obtain ⟨fuel, rfl⟩ : ∃ m, fuel = m + 1 :=
          ⟨fuel - 1, by simp [Text.ofInt] at hfuel; omega⟩
        change readValue (fuel + 1) nesting ('-' :: (Text.ofNat (n + 1) ++ rest)) = _
        rw [readValue_scalar ⟨by decide, by decide, by decide⟩]
        exact hread

private theorem exists_fuel {s : Text} {c : Char} (h : (c :: s).length ≤ fuel) :
    ∃ n, fuel = n + 1 ∧ s.length ≤ n :=
  ⟨fuel - 1, by simp at h; omega, by simp at h; omega⟩

private theorem reads_null : Reads null where
  head _ := ⟨'n', ['u', 'l', 'l'], rfl, by decide⟩
  read := by
    intro depth fuel nesting rest hfuel _ _
    obtain ⟨fuel, rfl, -⟩ := exists_fuel hfuel
    exact readValue_scalar (by decide)

private theorem reads_bool (b : Bool) : Reads (bool b) := by
  cases b with
  | false =>
      refine ⟨fun _ => ⟨'f', ['a', 'l', 's', 'e'], rfl, by decide⟩, ?_⟩
      intro depth fuel nesting rest hfuel _ _
      obtain ⟨fuel, rfl, -⟩ := exists_fuel hfuel
      exact readValue_scalar (by decide)
  | true =>
      refine ⟨fun _ => ⟨'t', ['r', 'u', 'e'], rfl, by decide⟩, ?_⟩
      intro depth fuel nesting rest hfuel _ _
      obtain ⟨fuel, rfl, -⟩ := exists_fuel hfuel
      exact readValue_scalar (by decide)

private theorem reads_str {s : RawText} (hs : s.isWhole = true) : Reads (str s) where
  head _ := ⟨'\x22', _, textAt_str s, by decide⟩
  read := by
    intro depth fuel nesting rest hfuel _ _
    rw [textAt_str] at hfuel ⊢
    obtain ⟨fuel, rfl, -⟩ := exists_fuel hfuel
    rw [List.cons_append, List.append_assoc, List.singleton_append, readValue,
      readString_key hs]
    rfl

private theorem readValue_items {s t : Text} {vs : List Value} (hs : skipGaps s = t)
    (hhead : ∀ r, t ≠ ']' :: r) (hread : readItems fuel nesting t = .ok (vs, rest)) :
    readValue (fuel + 1) (nesting + 1) ('[' :: s) = .ok (.arr vs, rest) := by
  rw [readValue, if_neg (Nat.succ_ne_zero _), hs]
  split
  · exact absurd rfl (hhead _)
  · rw [Nat.add_sub_cancel, hread]
    rfl

private theorem readValue_members {s t : Text} {ms : List (RawText × Value)}
    (hs : skipGaps s = t) (hhead : ∀ r, t ≠ '\x7d' :: r)
    (hread : readMembers fuel nesting [] t = .ok (ms, rest)) :
    readValue (fuel + 1) (nesting + 1) ('\x7b' :: s) = .ok (.obj ms, rest) := by
  rw [readValue, if_neg (Nat.succ_ne_zero _), hs]
  split
  · exact absurd rfl (hhead _)
  · rw [Nat.add_sub_cancel, hread]
    rfl

private theorem reads_arr {vs : List Value} (h : ∀ v ∈ vs, Reads v) : Reads (arr vs) where
  head _ := by
    cases vs with
    | nil => exact ⟨'[', _, rfl, by decide⟩
    | cons v vs => exact ⟨'[', _, textAt_arr_cons v vs, by decide⟩
  read := by
    intro depth fuel nesting rest hfuel hheight _
    obtain ⟨nesting, rfl⟩ : ∃ n, nesting = n + 1 :=
      ⟨nesting - 1, by rw [height] at hheight; omega⟩
    rw [height_arr_le] at hheight
    cases vs with
    | nil =>
        obtain ⟨fuel, rfl, -⟩ := exists_fuel hfuel
        rfl
    | cons v vs =>
        rw [textAt_arr_cons] at hfuel ⊢
        obtain ⟨fuel, rfl, hfuel⟩ := exists_fuel hfuel
        have hitems : readItems fuel nesting (textAt (depth + 1) v ++
            (itemsText (depth + 1) vs ++ (newLine depth ++ ']' :: rest))) = .ok (v :: vs, rest) :=
          readItems_text v vs (fun w hw => ⟨h w hw, hheight w hw⟩) (by simp at hfuel; omega)
        simp only [List.cons_append, List.append_assoc, List.nil_append]
        refine readValue_items ?_ (fun r heq => ?_) hitems
        · rw [skipGaps_newLine, (h v List.mem_cons_self).skipGaps]
        · obtain ⟨c, s, htext, hc⟩ := (h v List.mem_cons_self).head (depth + 1)
          rw [htext] at heq
          exact hc.noEnd (List.cons.inj heq).1

private theorem reads_obj {ms : List (RawText × Value)}
    (h : ∀ m ∈ ms, m.1.isWhole = true ∧ Reads m.2) (hkeys : (ms.map (·.1)).Nodup) :
    Reads (obj ms) where
  head _ := by
    cases ms with
    | nil => exact ⟨'\x7b', _, rfl, by decide⟩
    | cons m ms => exact ⟨'\x7b', _, textAt_obj_cons m.1 m.2 ms, by decide⟩
  read := by
    intro depth fuel nesting rest hfuel hheight _
    obtain ⟨nesting, rfl⟩ : ∃ n, nesting = n + 1 :=
      ⟨nesting - 1, by rw [height] at hheight; omega⟩
    rw [height_obj_le] at hheight
    cases ms with
    | nil =>
        obtain ⟨fuel, rfl, -⟩ := exists_fuel hfuel
        rfl
    | cons m ms =>
        obtain ⟨key, v⟩ := m
        rw [textAt_obj_cons] at hfuel ⊢
        obtain ⟨fuel, rfl, hfuel⟩ := exists_fuel hfuel
        have hmembers : readMembers fuel nesting [] (keyText key ++ (textAt (depth + 1) v ++
            (membersText (depth + 1) ms ++ (newLine depth ++ '\x7d' :: rest)))) =
              .ok ([] ++ (key, v) :: ms, rest) :=
          readMembers_text key v ms (fun m hm => ⟨(h m hm).1, (h m hm).2, hheight m hm⟩) hkeys
            (by simp at hfuel; omega)
        simp only [List.cons_append, List.append_assoc, List.nil_append]
        refine readValue_members ?_ (fun r heq => ?_) hmembers
        · rw [skipGaps_newLine, skipGaps_keyText]
        · cases (List.cons.inj heq).1

/-- A value without halves is read back if it is plain and its numbers are not too long. -/
theorem reads_of_plain {v : Value} (hwhole : v.isWhole = true) (hplain : v.Everywhere IsPlain)
    (hnumerals : v.Everywhere NumeralFits) : Reads v := by
  induction v using Value.induction with
  | null => exact reads_null
  | bool b => exact reads_bool b
  | int n => exact reads_int hnumerals
  | real x => exact hplain.elim
  | str s => exact reads_str hwhole
  | arr vs ih =>
      rw [isWhole_arr, List.all_eq_true] at hwhole
      rw [everywhere_arr] at hplain hnumerals
      exact reads_arr fun v hv => ih v hv (hwhole v hv) (hplain.2 v hv) (hnumerals.2 v hv)
  | obj ms ih =>
      rw [isWhole_obj, List.all_eq_true] at hwhole
      rw [everywhere_obj] at hplain hnumerals
      refine reads_obj (fun m hm => ?_) hplain.1
      obtain ⟨hkey, hvalue⟩ := Bool.and_eq_true_iff.mp (hwhole m hm)
      exact ⟨hkey, ih m hm hvalue (hplain.2 m hm) (hnumerals.2 m hm)⟩

/-! ## Documents -/

private theorem return_not_mem_writeChar (c : Char) : '\r' ∉ writeChar c := by
  have hdigit : ∀ n < 16, '\r' ≠ hexDigit n := by decide
  rw [writeChar]
  split_ifs with h1 h2 h3 h4 h5 h6 h7 h8
  -- Seven characters have an escape of two characters.
  iterate 7 decide
  · have hhigh := hdigit (c.toNat / 16) (by omega)
    have hlow := hdigit (c.toNat % 16) (by omega)
    simp [hhigh, hlow]
  · simpa using Ne.symm h4

private theorem return_not_mem_newLine (depth : Nat) : '\r' ∉ newLine depth := by
  simp [newLine, List.mem_replicate]

private theorem return_not_mem_ofNat (n : Nat) : '\r' ∉ Text.ofNat n :=
  fun h => nomatch isNumeral_of_mem_ofNat h

private theorem return_not_mem_keyText (key : RawText) : '\r' ∉ keyText key := by
  simp [keyText, return_not_mem_writeChar]

section

variable {depth : Nat}

private theorem return_not_mem_itemsText {vs : List Value}
    (h : ∀ v ∈ vs, '\r' ∉ textAt depth v) : '\r' ∉ itemsText depth vs := by
  induction vs with
  | nil => simp
  | cons v vs ih =>
      obtain ⟨hv, hvs⟩ := List.forall_mem_cons.mp h
      simp [return_not_mem_newLine, hv, ih hvs]

private theorem return_not_mem_membersText {ms : List (RawText × Value)}
    (h : ∀ m ∈ ms, '\r' ∉ textAt depth m.2) : '\r' ∉ membersText depth ms := by
  induction ms with
  | nil => simp
  | cons m ms ih =>
      obtain ⟨key, v⟩ := m
      obtain ⟨hv, hms⟩ := List.forall_mem_cons.mp h
      simp [return_not_mem_newLine, return_not_mem_keyText, hv, ih hms]

end

theorem return_not_mem_textAt {v : Value} (h : v.Everywhere IsPlain) (depth : Nat) :
    '\r' ∉ textAt depth v := by
  induction v using Value.induction generalizing depth with
  | null =>
      rw [textAt_null]
      decide
  | bool b =>
      rw [textAt_bool]
      cases b <;> decide
  | int n =>
      rw [textAt_int]
      cases n with
      | ofNat n => exact return_not_mem_ofNat n
      | negSucc n => simpa [Text.ofInt] using return_not_mem_ofNat (n + 1)
  | real x => exact h.elim
  | str s => simp [return_not_mem_writeChar]
  | arr vs ih =>
      rw [everywhere_arr] at h
      have hvs : ∀ v ∈ vs, '\r' ∉ textAt (depth + 1) v := fun v hv => ih v hv (h.2 v hv) _
      cases vs with
      | nil => simp
      | cons v vs =>
          obtain ⟨hv, hvs⟩ := List.forall_mem_cons.mp hvs
          simp [return_not_mem_newLine, hv, return_not_mem_itemsText hvs]
  | obj ms ih =>
      rw [everywhere_obj] at h
      have hms : ∀ m ∈ ms, '\r' ∉ textAt (depth + 1) m.2 := fun m hm => ih m hm (h.2 m hm) _
      cases ms with
      | nil => simp
      | cons m ms =>
          obtain ⟨key, v⟩ := m
          obtain ⟨hv, hms⟩ := List.forall_mem_cons.mp hms
          simp [return_not_mem_newLine, return_not_mem_keyText, hv, return_not_mem_membersText hms]

private theorem textAt_zero {v : Value} {t : Text} (h : v.write = Text.raw t) : textAt 0 v = t := by
  rw [textAt, ← chunks, ← write, h, RawText.chars_raw]

/-- A value that can be written to a file and read from it. -/
structure Readable (v : Value) : Prop where
  whole : v.isWhole = true
  plain : v.Everywhere IsPlain
  numerals : v.Everywhere NumeralFits
  shallow : v.height ≤ deepestNesting

namespace Readable

variable {v : Value} {t : Text}

theorem exists_write_eq (h : Readable v) : ∃ t, v.write = Text.raw t :=
  RawText.isWhole_iff.mp ((isWhole_write v).trans h.whole)

theorem return_not_mem (h : Readable v) (ht : v.write = Text.raw t) : '\r' ∉ t :=
  textAt_zero ht ▸ return_not_mem_textAt h.plain 0

theorem read_eq (h : Readable v) (ht : v.write = Text.raw t) : read t = .ok v := by
  have hreads := reads_of_plain h.whole h.plain h.numerals
  obtain ⟨c, s, hhead, hc⟩ := hreads.head 0
  have hvalue : readValue (2 * t.length + 2) deepestNesting (textAt 0 v ++ []) = .ok (v, []) :=
    hreads.read (by rw [textAt_zero ht]; omega) h.shallow (.inl rfl)
  rw [List.append_nil] at hvalue
  rw [textAt_zero ht] at hhead hvalue
  have hgaps : skipGaps t = t := by rw [hhead, skipGaps_cons hc.noGap]
  have hmark : ¬t.head? = some (Char.ofNat 0xfeff) := by
    rw [hhead]
    exact fun heq => hc.noMark (Option.some.inj heq)
  rw [read, if_neg hmark, hgaps, hvalue]
  rfl

end Readable

end Value

end ProcCatalog
