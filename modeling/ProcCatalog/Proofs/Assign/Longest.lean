import ProcCatalog.Proofs.Assign.Codes
import ProcCatalog.Proofs.Text.Order

/-!
# The longest code that begins a name

A name carries the longest of the codes that, with an underscore behind them, begin it. Two codes
of one length cannot both begin a name, so neither the order of the codes nor repetitions among
them matter. The marker of deleted objects and the modules of schemas decide before any code does.
-/

namespace ProcCatalog.Assign

variable {rules : Rules} {name schema : Text}

/-! ## Rules that can be applied -/

/-- The codes are strings, and so is the marker of deleted objects, if there is one. -/
structure Rules.Applicable (rules : Rules) : Prop where
  codes : ∀ v ∈ rules.codes, v.IsString
  marker : rules.deletedMarker.isTruthy = true → rules.deletedMarker.IsString

/-- The name begins with the marker of deleted objects, and the marker is not empty. -/
def Rules.Marks (rules : Rules) (name : Text) : Prop :=
  ∃ marker ≠ [], rules.deletedMarker = .str marker ∧ marker <+: Text.raw name

def Begins (code : RawText) (name : Text) : Prop := code ++ Text.raw ['_'] <+: Text.raw name

/-- No longer one of the codes begins the name. -/
structure Rules.Longest (rules : Rules) (name : Text) (code : RawText) : Prop where
  declared : .str code ∈ rules.codes
  begins : Begins code name
  longest : ∀ other, .str other ∈ rules.codes → Begins other name → other.length ≤ code.length

theorem Begins.start {code : RawText} (h : Begins code name) : code <+: Text.raw name :=
  (List.prefix_append _ _).trans h

theorem Rules.Longest.unique {rules' : Rules} {code code' : RawText}
    (hcodes : ∀ v, v ∈ rules'.codes ↔ v ∈ rules.codes) (h : rules.Longest name code)
    (h' : rules'.Longest name code') : code = code' := by
  have hle : code.length ≤ code'.length :=
    h'.longest code ((hcodes _).mpr h.declared) h.begins
  have hge : code'.length ≤ code.length :=
    h.longest code' ((hcodes _).mp h'.declared) h'.begins
  exact (List.prefix_of_prefix_length_le h.begins.start h'.begins.start hle).eq_of_length
    (Nat.le_antisymm hle hge)

/-! ## The order of codes -/

private theorem pairLengths_strings (codes : List RawText) :
    Rules.pairLengths (codes.map .str) = .ok (codes.map fun s => (s.length, .str s)) := by
  induction codes with
  | nil => rfl
  | cons s codes ih =>
      have hlength : (Value.str s).length = .ok s.length := by
        simp [Value.length, Value.elements, Value.elements?, Except.map]
      rw [List.map_cons, Rules.pairLengths, ih, hlength]
      rfl

private def noShorter (s t : RawText) : Bool := decide (t.length ≤ s.length)

private theorem ranks_noShorter : Ranks noShorter where
  total s t := by simpa [noShorter] using Nat.le_total t.length s.length
  trans s t u hst htu := by
    simp only [noShorter, decide_eq_true_eq] at hst htu ⊢
    exact Nat.le_trans htu hst

private theorem orderedCodes_eq_ok {codes : List RawText} (h : rules.codes = codes.map .str) :
    rules.orderedCodes = .ok ((sortBy noShorter codes).map .str) := by
  have hsort : sortBy (fun a b : Nat × Value => decide (b.1 ≤ a.1))
        (codes.map fun s => (s.length, .str s)) =
      (sortBy noShorter codes).map fun s => (s.length, .str s) :=
    sortBy_map (fun _ _ => rfl) codes
  rw [Rules.orderedCodes, h, pairLengths_strings]
  refine congrArg Except.ok ?_
  rw [hsort, List.map_map]
  rfl

private def begins (name : Text) (code : RawText) : Bool :=
  (code ++ Text.raw ['_']).isPrefixOf (Text.raw name)

private theorem begins_iff {code : RawText} : begins name code = true ↔ Begins code name :=
  List.isPrefixOf_iff_prefix

private theorem firstCode_strings (name : Text) (codes : List RawText) :
    firstCode name (codes.map .str) = .ok ((codes.find? (begins name)).map .str) := by
  induction codes with
  | nil => rfl
  | cons s codes ih =>
      rw [List.map_cons, firstCode, ih, List.find?_cons]
      change (if begins name s = true then _ else _) = _
      cases begins name s <;> rfl

private theorem exists_search (h : rules.Applicable) (name : Text) :
    ∃ found : Option RawText,
      (rules.orderedCodes >>= firstCode name) = .ok (found.map .str) ∧
        (∀ code ∈ found, rules.Longest name code) ∧
        (found = none → ∀ code, .str code ∈ rules.codes → ¬Begins code name) := by
  obtain ⟨codes, hcodes⟩ : rules.codes ∈ Set.range (List.map Value.str) := by
    rw [Set.range_list_map]
    exact fun v hv => (h.codes v hv).imp fun _ hs => hs.symm
  have hdeclared (s : RawText) : Value.str s ∈ rules.codes ↔ s ∈ codes := by
    rw [← hcodes, List.mem_map_of_injective fun _ _ => Value.str.inj]
  refine ⟨(sortBy noShorter codes).find? (begins name), ?_, fun code hfind => ?_, fun hnone => ?_⟩
  · rw [orderedCodes_eq_ok hcodes.symm]
    exact firstCode_strings name _
  · refine ⟨(hdeclared code).mpr (mem_sortBy.mp (List.mem_of_find?_eq_some hfind)),
      begins_iff.mp (List.find?_some (p := begins name) hfind), fun other hother hbegins => ?_⟩
    have hle := le_of_find?_sortBy ranks_noShorter hfind ((hdeclared other).mp hother)
      (begins_iff.mpr hbegins)
    simpa [noShorter] using hle
  · intro code hcode hbegins
    exact List.find?_eq_none.mp hnone code (mem_sortBy.mpr ((hdeclared code).mp hcode))
      (begins_iff.mpr hbegins)

/-! ## Detection -/

private theorem isDeleted_eq_ok (h : rules.Applicable) (name : Text) :
    ∃ deleted, isDeleted rules name = .ok deleted ∧ (deleted = true ↔ rules.Marks name) := by
  rw [isDeleted]
  cases htruthy : rules.deletedMarker.isTruthy with
  | false =>
      refine ⟨false, rfl, by simp, ?_⟩
      rintro ⟨marker, hne, hmarker, -⟩
      simp [hmarker, Value.isTruthy, hne] at htruthy
  | true =>
      obtain ⟨marker, hmarker⟩ := h.marker htruthy
      have hne : marker ≠ [] := by
        rintro rfl
        simp [hmarker, Value.isTruthy] at htruthy
      refine ⟨marker.isPrefixOf (Text.raw name), by simp [hmarker], ?_⟩
      rw [List.isPrefixOf_iff_prefix]
      refine ⟨fun hstart => ⟨marker, hne, hmarker, hstart⟩, ?_⟩
      rintro ⟨marker', -, hmarker', hstart⟩
      obtain rfl := Value.str.inj (hmarker.symm.trans hmarker')
      exact hstart

/-- Neither the marker of deleted objects nor the schema decides about a name. -/
structure Rules.LeavesOpen (rules : Rules) (name schema : Text) : Prop where
  unmarked : ¬rules.Marks name
  unmapped : rules.schemaModules.find? (.text schema) = none

/-- What the code of a name is. -/
structure DecidesByLongest (rules : Rules) (name schema : Text) : Prop where
  marked : rules.Marks name → detectCode rules name schema = .ok (some rules.deletedMarker)
  mapped : ¬rules.Marks name → ∀ code, rules.schemaModules.find? (.text schema) = some code →
    detectCode rules name schema = .ok (codeOf code)
  unknown : rules.LeavesOpen name schema →
    (∀ code, .str code ∈ rules.codes → ¬Begins code name) →
      detectCode rules name schema = .ok none
  longest : rules.LeavesOpen name schema → ∀ code, rules.Longest name code →
    ∃ v, rules.canonical (.str code) = .ok v ∧ detectCode rules name schema = .ok (codeOf v)
  exists_longest : (∃ code, .str code ∈ rules.codes ∧ Begins code name) →
    ∃ code, rules.Longest name code
  /-- No alias stands for null, which is no code. -/
  none_iff : rules.LeavesOpen name schema → (∀ e ∈ rules.aliases, e.2 ≠ .null) →
    (detectCode rules name schema = .ok none ↔
      ∀ code, .str code ∈ rules.codes → ¬Begins code name)

theorem detectCode_of_marks (h : rules.Marks name) :
    detectCode rules name schema = .ok (some rules.deletedMarker) := by
  obtain ⟨marker, hne, hmarker, hstart⟩ := h
  have hdeleted : isDeleted rules name = .ok true := by
    rw [isDeleted, hmarker]
    simp [Value.isTruthy, hne, hstart]
  rw [detectCode, hdeleted]
  rfl

private theorem detectCode_of_not_marks (h : rules.Applicable) (hmarks : ¬rules.Marks name) :
    detectCode rules name schema =
      match rules.schemaModules.find? (.text schema) with
      | some code => .ok (codeOf code)
      | none => do
        match ← rules.orderedCodes >>= firstCode name with
        | none => return none
        | some code => return codeOf (← rules.canonical code) := by
  obtain ⟨deleted, hdeleted, hiff⟩ := isDeleted_eq_ok h name
  obtain rfl : deleted = false := Bool.eq_false_iff.mpr fun htrue => hmarks (hiff.mp htrue)
  rw [detectCode, hdeleted]
  cases rules.schemaModules.find? (.text schema) with
  | some code => rfl
  | none => cases rules.orderedCodes <;> rfl

private theorem canonical_string (rules : Rules) (code : RawText) :
    ∃ v, rules.canonical (.str code) = .ok v ∧
      ((∀ e ∈ rules.aliases, e.2 ≠ .null) → codeOf v ≠ none) := by
  refine ⟨(rules.aliases.find? (.str code)).getD (.str code), rfl, fun haliases hnone => ?_⟩
  have hnull : (rules.aliases.find? (.str code)).getD (.str code) = .null := by
    generalize (rules.aliases.find? (.str code)).getD (.str code) = v at hnone
    cases v <;> first | rfl | cases hnone
  cases hfind : rules.aliases.find? (.str code) with
  | none => simp [hfind] at hnull
  | some v =>
      obtain ⟨e, he, rfl⟩ := Option.map_eq_some_iff.mp hfind
      rw [hfind] at hnull
      exact haliases e (List.mem_of_find?_eq_some he) hnull

/-- No code begins the name, or the longest one that does decides. -/
private theorem detectCode_cases (h : rules.Applicable) (hleft : rules.LeavesOpen name schema) :
    detectCode rules name schema = .ok none ∧
        (∀ code, .str code ∈ rules.codes → ¬Begins code name) ∨
      ∃ code v, rules.Longest name code ∧ rules.canonical (.str code) = .ok v ∧
        detectCode rules name schema = .ok (codeOf v) := by
  obtain ⟨found, hsearch, hfound, hnone⟩ := exists_search h name
  rw [detectCode_of_not_marks h hleft.unmarked, hleft.unmapped]
  dsimp only
  rw [hsearch]
  cases found with
  | none => exact .inl ⟨rfl, hnone rfl⟩
  | some code => exact .inr ⟨code, _, hfound code rfl, rfl, rfl⟩

theorem exists_detectCode (h : rules.Applicable) (name schema : Text) :
    ∃ code?, detectCode rules name schema = .ok code? := by
  by_cases hmarks : rules.Marks name
  · exact ⟨_, detectCode_of_marks hmarks⟩
  cases hschema : rules.schemaModules.find? (.text schema) with
  | some code => exact ⟨codeOf code, by rw [detectCode_of_not_marks h hmarks, hschema]⟩
  | none =>
      rcases detectCode_cases h ⟨hmarks, hschema⟩ with ⟨hresult, -⟩ | ⟨_, _, -, -, hresult⟩
      · exact ⟨_, hresult⟩
      · exact ⟨_, hresult⟩

private theorem exists_longest (h : rules.Applicable) {code : RawText}
    (hcode : .str code ∈ rules.codes) (hbegins : Begins code name) :
    ∃ code, rules.Longest name code := by
  obtain ⟨found, -, hfound, hnone⟩ := exists_search h name
  cases found with
  | none => exact absurd hbegins (hnone rfl code hcode)
  | some longest => exact ⟨longest, hfound longest rfl⟩

private theorem decidesByLongest (h : rules.Applicable) (name schema : Text) :
    DecidesByLongest rules name schema where
  marked := detectCode_of_marks
  mapped hmarks code hcode := by rw [detectCode_of_not_marks h hmarks, hcode]
  unknown hleft hno := by
    rcases detectCode_cases h hleft with ⟨hresult, -⟩ | ⟨code, v, hcode, -, -⟩
    · exact hresult
    · exact absurd hcode.begins (hno code hcode.declared)
  longest hleft code hcode := by
    rcases detectCode_cases h hleft with ⟨-, hno⟩ | ⟨code', v, hcode', hv, hresult⟩
    · exact absurd hcode.begins (hno code hcode.declared)
    · obtain rfl := hcode.unique (fun _ => Iff.rfl) hcode'
      exact ⟨v, hv, hresult⟩
  exists_longest := fun ⟨_, hcode, hbegins⟩ => exists_longest h hcode hbegins
  none_iff hleft haliases := by
    rcases detectCode_cases h hleft with ⟨hresult, hno⟩ | ⟨code, v, hcode, hv, hresult⟩
    · exact ⟨fun _ => hno, fun _ => hresult⟩
    · obtain ⟨v', hv', hsome⟩ := canonical_string rules code
      obtain rfl : v = v' := Except.ok.inj (hv.symm.trans hv')
      refine ⟨fun hnull => ?_, fun hno => absurd hcode.begins (hno code hcode.declared)⟩
      exact absurd (Except.ok.inj (hresult.symm.trans hnull)) (hsome haliases)

/-- A name carries the longest code that begins it, unless the marker of deleted objects or the
schema decides. Neither the order of the codes nor repetitions among them matter. -/
theorem detectCode_longest (h : rules.Applicable) (name schema : Text) :
    DecidesByLongest rules name schema ∧
      ∀ codes', (∀ v, v ∈ codes' ↔ v ∈ rules.codes) →
        detectCode { rules with codes := codes' } name schema = detectCode rules name schema := by
  refine ⟨decidesByLongest h name schema, fun codes' hcodes => ?_⟩
  have h' : Rules.Applicable { rules with codes := codes' } :=
    ⟨fun v hv => h.codes v ((hcodes v).mp hv), h.marker⟩
  have hthis := decidesByLongest h name schema
  have hother := decidesByLongest h' name schema
  by_cases hmarks : rules.Marks name
  · rw [hthis.marked hmarks, hother.marked hmarks]
  cases hschema : rules.schemaModules.find? (.text schema) with
  | some code => rw [hthis.mapped hmarks code hschema, hother.mapped hmarks code hschema]
  | none =>
      by_cases hbegins : ∃ code, .str code ∈ rules.codes ∧ Begins code name
      · obtain ⟨code, hcode⟩ := hthis.exists_longest hbegins
        obtain ⟨v, hv, hresult⟩ := hthis.longest ⟨hmarks, hschema⟩ code hcode
        have hcode' : Rules.Longest { rules with codes := codes' } name code :=
          ⟨(hcodes _).mpr hcode.declared, hcode.begins, fun other hmem =>
            hcode.longest other ((hcodes _).mp hmem)⟩
        obtain ⟨v', hv', hresult'⟩ := hother.longest ⟨hmarks, hschema⟩ code hcode'
        obtain rfl : v = v' := Except.ok.inj (hv.symm.trans hv')
        rw [hresult, hresult']
      · have hno : ∀ code, .str code ∈ rules.codes → ¬Begins code name :=
          fun code hmem hcode => hbegins ⟨code, hmem, hcode⟩
        rw [hthis.unknown ⟨hmarks, hschema⟩ hno,
          hother.unknown ⟨hmarks, hschema⟩ fun code hmem => hno code ((hcodes _).mp hmem)]

/-- Codes that begin one another, one of them declared twice. -/
def nestedCodes : Rules where
  codes := ["APE", "APE2", "APE2_X", "APE", "B"].map fun s => .text s.toList
  aliases := .ofTexts [("APE2_X", "APEX")]
  displayNames := []
  deletedMarker := .text "_DEL_".toList
  schemaModules := .ofTexts [("perf", "perf")]

theorem detectCode_longest_of_nested :
    nestedCodes.Applicable ∧
      DecidesByLongest nestedCodes "APE2_X_Run".toList "dbo".toList ∧
      detectCode nestedCodes "APE2_X_Run".toList "dbo".toList = .ok (some (.text "APEX".toList)) ∧
      detectCode { nestedCodes with codes := nestedCodes.codes.reverse } "APE2_X_Run".toList
        "dbo".toList = .ok (some (.text "APEX".toList)) := by
  have happlicable : nestedCodes.Applicable := ⟨by decide, fun _ => ⟨_, rfl⟩⟩
  obtain ⟨hdecides, horder⟩ := detectCode_longest happlicable "APE2_X_Run".toList "dbo".toList
  have hcode : detectCode nestedCodes "APE2_X_Run".toList "dbo".toList =
      .ok (some (.text "APEX".toList)) := by rfl
  exact ⟨happlicable, hdecides, hcode, (horder _ fun v => List.mem_reverse).trans hcode⟩

end ProcCatalog.Assign
