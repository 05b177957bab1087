import ProcCatalog.Catalog.ExportDate
import ProcCatalog.Proofs.Pattern.Matches
import ProcCatalog.Proofs.Text.Digits
import ProcCatalog.Storage.Folder

/-!
# The date in the name of a script

A name may hold several stamps, some of which are no dates of the calendar. The earliest stamp alone
decides: its date is taken if there is such a day, and otherwise today's, also where a later stamp
is a date.
-/

namespace ProcCatalog.ExportDate

open Pattern

/-! ## Stamps -/

/-- Eight digits of a name that begin with 20, with no digit beside them. -/
structure Stamp (name : Text) where
  before : Text
  digits : Text
  behind : Text
  cut : name = before ++ (digits ++ behind)
  length : digits.length = 8
  century : "20".toList <+: digits
  areDigits : ∀ c ∈ digits, Text.isDigit c = true
  endsBefore : ∀ c ∈ before.getLast?, Text.isDigit c = false
  endsBehind : ∀ c ∈ behind.head?, Text.isDigit c = false

namespace Stamp

variable {name : Text}

def date (s : Stamp name) : Date := ofDigits s.digits

def Earliest (s : Stamp name) : Prop := ∀ t : Stamp name, s.before.length ≤ t.before.length

/-- The earliest of the stamps that are dates of the calendar. -/
structure FirstDate (s : Stamp name) : Prop where
  isValid : s.date.isValid = true
  first : ∀ t : Stamp name, t.date.isValid = true → s.before.length ≤ t.before.length

theorem take_drop (s : Stamp name) : (name.drop s.before.length).take 8 = s.digits := by
  have hcut := congrArg (List.drop s.before.length) s.cut
  rw [hcut, List.drop_left' rfl, List.take_left' s.length]

theorem Earliest.date_eq {s t : Stamp name} (hs : s.Earliest) (ht : t.Earliest) :
    s.date = t.date := by
  have hplace := Nat.le_antisymm (hs t) (ht s)
  rw [date, date, ← s.take_drop, ← t.take_drop, hplace]

end Stamp

/-! ## The search for a stamp -/

private theorem spans_replicate {n : Nat} {accepts : Char → Bool} {before : Option Char}
    {u rest : Text} : (all (List.replicate n (.one accepts))).Spans before u rest ↔
      u.length = n ∧ ∀ x ∈ u, accepts x = true := by
  induction n generalizing before u with
  | zero =>
      change u = [] ↔ _
      simp +contextual
  | succ n ih =>
      change (∃ v w, u = v ++ w ∧ (∃ x, accepts x ∧ v = [x]) ∧
        (all (List.replicate n (.one accepts))).Spans _ w rest) ↔ _
      constructor
      · rintro ⟨v, w, rfl, ⟨x, hx, rfl⟩, hw⟩
        obtain ⟨hlength, haccepts⟩ := ih.mp hw
        exact ⟨by simp [hlength], by simpa [hx] using haccepts⟩
      · rintro ⟨hlength, haccepts⟩
        obtain ⟨x, w, rfl⟩ := List.exists_cons_of_length_eq_add_one hlength
        obtain ⟨hx, hw⟩ := List.forall_mem_cons.mp haccepts
        exact ⟨[x], w, rfl, ⟨x, hx, rfl⟩, ih.mpr ⟨by simpa using hlength, hw⟩⟩

private theorem spans_stamp {before : Option Char} {u rest : Text} :
    stamp.Spans before u rest ↔ (∀ c ∈ before, Text.isDigit c = false) ∧
      (u.length = 8 ∧ "20".toList <+: u ∧ ∀ c ∈ u, Text.isDigit c = true) ∧
        ∀ c ∈ rest.head?, Text.isDigit c = false := by
  have hbehind : before.any Text.isDigit = false ↔ ∀ c ∈ before, Text.isDigit c = false := by
    cases before <;> simp
  have hahead : (¬ ∃ v w, rest = v ++ w ∧ ∃ x, Text.isDigit x = true ∧ v = [x]) ↔
      ∀ c ∈ rest.head?, Text.isDigit c = false := by
    constructor
    · intro h c hc
      obtain ⟨w, rfl⟩ := List.head?_eq_some_iff.mp hc
      exact Bool.eq_false_iff.mpr fun hdigit => h ⟨[c], w, rfl, c, hdigit, rfl⟩
    · rintro h ⟨_, w, rfl, c, hdigit, rfl⟩
      rw [h c rfl] at hdigit
      cases hdigit
  constructor
  · rintro ⟨_, _, rfl, ⟨rfl, hbefore⟩, _, _, rfl, htwo, _, _, rfl, hzero, _, _, rfl, hdigits, _, _,
      rfl, ⟨rfl, hrest⟩, rfl⟩
    obtain rfl := spans_char.mp htwo
    obtain rfl := spans_char.mp hzero
    obtain ⟨hlength, hdigits⟩ := spans_replicate.mp hdigits
    refine ⟨hbehind.mp hbefore, ⟨by simp [hlength], by simp, ?_⟩, hahead.mp hrest⟩
    simpa using ⟨by decide, by decide, hdigits⟩
  · rintro ⟨hbefore, ⟨hlength, ⟨w, rfl⟩, hdigits⟩, hrest⟩
    have hw : w.length = 6 := by simpa using hlength
    refine ⟨[], _, rfl, ⟨rfl, hbehind.mpr hbefore⟩, ['2'], '0' :: w, rfl, spans_char.mpr rfl, ['0'],
      w, rfl, spans_char.mpr rfl, w, [], by simp, spans_replicate.mpr ⟨hw, fun c hc => ?_⟩, [], [],
      rfl, ⟨rfl, hahead.mpr hrest⟩, rfl⟩
    exact hdigits c (by simp [hc])

namespace Stamp

variable {name : Text}

theorem begins (s : Stamp name) : stamp.Begins (lastOr none s.before) (s.digits ++ s.behind) := by
  rw [lastOr_none]
  exact ⟨s.digits, s.behind, rfl,
    spans_stamp.mpr ⟨s.endsBefore, ⟨s.length, s.century, s.areDigits⟩, s.endsBehind⟩⟩

/-- No stamp begins in a part in which the pattern begins nowhere. -/
theorem length_le_before (s : Stamp name) {a rest : Text} (hname : name = a ++ rest)
    (h : stamp.Avoids none a rest) : a.length ≤ s.before.length := by
  by_contra hshort
  have hcut := hname.symm.trans s.cut
  obtain ⟨b, rfl⟩ := List.prefix_of_prefix_length_le ⟨_, hcut.symm⟩ ⟨_, rfl⟩
    (Nat.le_of_not_le hshort)
  rw [List.append_assoc, List.append_cancel_left_eq] at hcut
  refine h s.before b rfl (fun hnil => hshort (by simp [hnil])) ?_
  rw [hcut]
  exact s.begins

end Stamp

/-- A search for the date of a name sees its earliest stamp and no other. -/
private theorem ofName?_cases (name : Text) :
    IsEmpty (Stamp name) ∧ ofName? name = none ∨
      ∃ s : Stamp name, s.Earliest ∧
        ofName? name = if s.date.isValid then some s.date else none := by
  rcases head?_textsIn_cases (by decide : stamp.moves = true) name with
    ⟨hnone, havoids⟩ | ⟨a, u, v, hname, havoids, hspan, hsome⟩
  · refine .inl ⟨⟨fun s => ?_⟩, by rw [ofName?, hnone]; rfl⟩
    have hlength := congrArg List.length s.cut
    have hshort := s.length_le_before (List.append_nil name).symm havoids
    have height := s.length
    simp only [List.length_append] at hlength
    omega
  · rw [lastOr_none] at hspan
    obtain ⟨hbefore, ⟨hlength, hcentury, hdigits⟩, hrest⟩ := spans_stamp.mp hspan
    let s : Stamp name := ⟨a, u, v, hname, hlength, hcentury, hdigits, hbefore, hrest⟩
    refine .inr ⟨s, fun t => t.length_le_before hname havoids, ?_⟩
    rw [ofName?, hsome, Option.map_some, Option.filter_some]
    rfl

theorem isEmpty_or_exists_earliest (name : Text) :
    IsEmpty (Stamp name) ∨ ∃ s : Stamp name, s.Earliest :=
  (ofName?_cases name).imp And.left fun ⟨s, hs, _⟩ => ⟨s, hs⟩

/-! ## Dates in ISO form -/

structure Writes (width n : Nat) (digits : Text) : Prop where
  length : digits.length = width
  areDigits : ∀ c ∈ digits, c.isDigit = true
  value : Nat.ofDigitChars 10 digits 0 = n

def IsIso (d : Date) (text : Text) : Prop :=
  ∃ year month day, text = year ++ '-' :: month ++ '-' :: day ∧
    Writes 4 d.year year ∧ Writes 2 d.month month ∧ Writes 2 d.day day

theorem IsIso.eq {d : Date} {text : Text} (h : IsIso d text) :
    d = ⟨Nat.ofDigitChars 10 (text.take 4) 0, Nat.ofDigitChars 10 ((text.drop 5).take 2) 0,
      Nat.ofDigitChars 10 (text.drop 8) 0⟩ := by
  obtain ⟨year, month, day, rfl, hyear, hmonth, hday⟩ := h
  have hdropYear : year.drop 5 = [] ∧ year.drop 8 = [] := by simp [hyear.length]
  have hdropMonth : month.drop 3 = [] := by simp [hmonth.length]
  have htakeYear : (year ++ '-' :: month ++ '-' :: day).take 4 = year := by
    simp [hyear.length]
  have htakeMonth : ((year ++ '-' :: month ++ '-' :: day).drop 5).take 2 = month := by
    simp [List.drop_append, hdropYear, hyear.length, hmonth.length]
  have htakeDay : (year ++ '-' :: month ++ '-' :: day).drop 8 = day := by
    simp [List.drop_append, hdropYear, hdropMonth, hyear.length, hmonth.length]
  rw [htakeYear, htakeMonth, htakeDay, hyear.value, hmonth.value, hday.value]

theorem writes_padded {width n : Nat} (hwidth : 0 < width) (hn : n < 10 ^ width) :
    Writes width n (padded width n) where
  length := by
    have hshort : (Text.ofNat n).length ≤ width :=
      (Nat.length_toDigits_le_iff (by decide) hwidth).mpr hn
    simp only [padded, List.length_append, List.length_replicate]
    omega
  areDigits c hc := by
    rcases List.mem_append.mp hc with hc | hc
    · obtain rfl := List.eq_of_mem_replicate hc
      rfl
    · exact Nat.isDigit_of_mem_toDigits (by decide) (by decide) hc
  value := by
    rw [padded, Nat.ofDigitChars_append, Nat.ofDigitChars_replicate_zero, Nat.mul_zero]
    exact Nat.ofDigitChars_ten_toDigits

theorem Stamp.isIso_write {name : Text} (s : Stamp name) : IsIso s.date s.date.write := by
  have hyear : s.date.year < 10 ^ 4 :=
    lt_of_lt_of_eq (Text.numberOf_lt (s.digits.take 4)) (by simp [s.length])
  have hmonth : s.date.month < 10 ^ 2 :=
    lt_of_lt_of_eq (Text.numberOf_lt ((s.digits.drop 4).take 2)) (by simp [s.length])
  have hday : s.date.day < 10 ^ 2 :=
    lt_of_lt_of_eq (Text.numberOf_lt (s.digits.drop 6)) (by simp [s.length])
  exact ⟨_, _, _, rfl, writes_padded (by decide) hyear, writes_padded (by decide) hmonth,
    writes_padded (by decide) hday⟩

/-! ## The date of an export -/

theorem resolve_of_isEmpty {name : Text} (h : IsEmpty (Stamp name)) (today : Text) :
    resolve [] name today = today := by
  rcases ofName?_cases name with ⟨-, hnone⟩ | ⟨s, -, -⟩
  · rw [resolve, hnone]
    rfl
  · exact h.elim s

theorem resolve_of_earliest {name : Text} {s : Stamp name} (hs : s.Earliest) (today : Text) :
    resolve [] name today = if s.date.isValid then s.date.write else today := by
  rcases ofName?_cases name with ⟨hempty, -⟩ | ⟨t, ht, hname⟩
  · exact hempty.elim s
  · rw [resolve, hname, ht.date_eq hs]
    cases s.date.isValid <;> rfl

/-- The first stamp of a name that is a date of the calendar decides, and today's date if there is
none. -/
def Resolves (name today result : Text) : Prop :=
  (∃ s : Stamp name, s.FirstDate ∧ IsIso s.date result) ∨
    (∀ s : Stamp name, s.date.isValid = false) ∧ result = today

/-- The earliest stamp decides alone. That is the first stamp with a date of the calendar unless the
earliest one has none, and then today's date is right only where no stamp has one or the first that
has one is of today. -/
theorem resolves_iff (path today : Text) :
    let name := Storage.baseName path
    (∀ s : Stamp name, s.Earliest → s.date.isValid = true →
        IsIso s.date (resolve [] name today)) ∧
      (∀ s : Stamp name, s.Earliest → s.date.isValid = false → resolve [] name today = today) ∧
      (IsEmpty (Stamp name) → resolve [] name today = today) ∧
      (Resolves name today (resolve [] name today) ↔
        (∀ s : Stamp name, s.Earliest → s.date.isValid = true) ∨
          (∀ s : Stamp name, s.date.isValid = false) ∨
          ∃ s : Stamp name, s.FirstDate ∧ IsIso s.date today) := by
  intro name
  have hvalid (s : Stamp name) (hs : s.Earliest) (h : s.date.isValid = true) :
      IsIso s.date (resolve [] name today) := by
    rw [resolve_of_earliest hs, if_pos h]
    exact s.isIso_write
  have hinvalid (s : Stamp name) (hs : s.Earliest) (h : s.date.isValid = false) :
      resolve [] name today = today := by
    rw [resolve_of_earliest hs, h]
    rfl
  refine ⟨hvalid, hinvalid, fun h => resolve_of_isEmpty h today, ?_⟩
  obtain hempty | ⟨s, hs⟩ := isEmpty_or_exists_earliest name
  · have hnone (t : Stamp name) : t.date.isValid = false := hempty.elim t
    exact iff_of_true (.inr ⟨hnone, resolve_of_isEmpty hempty today⟩) (.inr (.inl hnone))
  have hfirst (h : s.date.isValid = true) : s.FirstDate := ⟨h, fun t _ => hs t⟩
  cases h : s.date.isValid with
  | true =>
      refine iff_of_true (.inl ⟨s, hfirst h, hvalid s hs h⟩) (.inl fun t ht => ?_)
      rwa [ht.date_eq hs]
  | false =>
      -- The result is of today, so the two sides differ only in what the earliest stamps say.
      rw [Resolves, hinvalid s hs h, and_iff_left rfl, or_comm]
      refine (or_iff_right fun hall => ?_).symm
      rw [hall s hs] at h
      cases h

/-- The earliest stamp of the name is of a thirteenth month, and the date behind it is passed
over. -/
theorem not_resolves_behind_thirteenth_month :
    let name := Storage.baseName "dump_20251340_20250114.sql".toList
    ¬ Resolves name "2025-03-01".toList (resolve [] name "2025-03-01".toList) := by
  intro name
  let january : Stamp name :=
    { before := "dump_20251340_".toList
      digits := "20250114".toList
      behind := ".sql".toList
      cut := by decide +kernel
      length := rfl
      century := by decide
      areDigits := List.all_eq_true.mp (by decide +kernel)
      endsBefore := by rintro c ⟨⟩; decide +kernel
      endsBehind := by rintro c ⟨⟩; decide +kernel }
  have hjanuary : january.date.isValid = true := by decide +kernel
  have htoday : resolve [] name "2025-03-01".toList = "2025-03-01".toList := by decide +kernel
  rw [htoday]
  rintro (⟨s, hs, hiso⟩ | ⟨hnone, -⟩)
  · have hplace : s.before.length < 15 := Nat.lt_succ_of_le (hs.first january hjanuary)
    have hother : ∀ i < 15, ofDigits ((name.drop i).take 8) ≠ ⟨2025, 3, 1⟩ := by decide +kernel
    refine hother _ hplace ?_
    rw [s.take_drop]
    exact hiso.eq
  · rw [hnone january] at hjanuary
    cases hjanuary

end ProcCatalog.ExportDate
