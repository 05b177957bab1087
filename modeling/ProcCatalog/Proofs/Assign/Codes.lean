import ProcCatalog.Assign.Module
import ProcCatalog.Proofs.Outcome
import ProcCatalog.Proofs.Value.Keys

/-!
# Where codes come from

The code of a procedure is the marker of deleted objects, the module of a schema, what a prefix or
a hint stands for, or the code of those without a module. What holds of all of these holds of every
code that is given. So where the rules and the hints are made of strings, every procedure is given
a string as its code.
-/

namespace ProcCatalog.Assign

variable {rules : Rules} {hints : Hints} {name schema : Text} {v : Value} {P : Value → Prop}

/-! ## What holds of a code -/

/-- All codes that the rules give by a name have the property. A prefix and the marker decide about
a name only if they are strings. -/
structure Rules.Give (rules : Rules) (P : Value → Prop) : Prop where
  marker : rules.deletedMarker.IsString → P rules.deletedMarker
  schemaModules : ∀ e ∈ rules.schemaModules, P e.2
  canonical : ∀ code ∈ rules.codes, code.IsString → ∀ v, rules.canonical code = .ok v → P v

/-- What the usable hints stand for has the property. -/
def Hints.Give (hints : Hints) (rules : Rules) (P : Value → Prop) : Prop :=
  ∀ e ∈ hints, ∀ hint, usableHint? e.2 = some hint → ∀ v, rules.canonical hint = .ok v → P v

private theorem codeOf_eq_some {w : Value} (h : codeOf v = some w) : v = w := by
  cases v with
  | null => cases h
  | _ => exact Option.some.inj h

private theorem mem_of_firstCode {codes : List Value} (h : firstCode name codes = .ok (some v)) :
    v ∈ codes ∧ v.IsString := by
  induction codes with
  | nil => cases h
  | cons code codes ih =>
      rw [firstCode] at h
      obtain ⟨starts, hstarts, h⟩ := Outcome.bind_eq_ok.mp h
      cases starts with
      | false => exact (ih h).imp_left (List.mem_cons_of_mem _)
      | true =>
          obtain rfl : code = v := Option.some.inj (Except.ok.inj h)
          refine ⟨List.mem_cons_self, ?_⟩
          cases code with
          | str s => exact ⟨s, rfl⟩
          | _ => cases hstarts

private theorem mem_of_orderedCodes {codes : List Value} (h : rules.orderedCodes = .ok codes) :
    ∀ v ∈ codes, v ∈ rules.codes := by
  have hpairs {vs : List Value} {pairs : List (Nat × Value)}
      (hvs : Rules.pairLengths vs = .ok pairs) : pairs.map (·.2) = vs := by
    induction vs generalizing pairs with
    | nil =>
        obtain rfl : [] = pairs := Except.ok.inj hvs
        rfl
    | cons v vs ih =>
        rw [Rules.pairLengths] at hvs
        obtain ⟨n, -, hvs⟩ := Outcome.bind_eq_ok.mp hvs
        obtain ⟨rest, hrest, hvs⟩ := Outcome.bind_eq_ok.mp hvs
        obtain rfl : (n, v) :: rest = pairs := Except.ok.inj hvs
        rw [List.map_cons, ih hrest]
  obtain ⟨pairs, hlengths, h⟩ := Outcome.bind_eq_ok.mp h
  intro v hv
  rw [← Except.ok.inj h, List.mem_map] at hv
  obtain ⟨pair, hpair, rfl⟩ := hv
  rw [← hpairs hlengths]
  exact List.mem_map_of_mem (mem_sortBy.mp hpair)

private theorem isString_of_isDeleted (h : isDeleted rules name = .ok true) :
    rules.deletedMarker.IsString := by
  rw [isDeleted] at h
  split at h
  · split at h
    · rename_i marker hmarker
      exact ⟨marker, hmarker⟩
    · cases h
  · cases h

theorem Rules.Give.of_detectCode (hrules : rules.Give P)
    (h : detectCode rules name schema = .ok (some v)) : P v := by
  rw [detectCode] at h
  obtain ⟨deleted, hdeleted, h⟩ := Outcome.bind_eq_ok.mp h
  cases deleted with
  | true =>
      obtain rfl : rules.deletedMarker = v := Option.some.inj (Except.ok.inj h)
      exact hrules.marker (isString_of_isDeleted hdeleted)
  | false =>
      cases hschema : rules.schemaModules.find? (.text schema) with
      | some code =>
          simp only [Bool.false_eq_true, if_false, hschema] at h
          obtain ⟨e, he, rfl⟩ := Option.map_eq_some_iff.mp hschema
          rw [← codeOf_eq_some (Except.ok.inj h)]
          exact hrules.schemaModules e (List.mem_of_find?_eq_some he)
      | none =>
          simp only [Bool.false_eq_true, if_false, hschema] at h
          obtain ⟨codes, hcodes, h⟩ := Outcome.bind_eq_ok.mp h
          obtain ⟨first, hfirst, h⟩ := Outcome.bind_eq_ok.mp h
          cases first with
          | none => cases h
          | some code =>
              obtain ⟨w, hw, h⟩ := Outcome.map_eq_ok.mp h
              obtain ⟨hcode, hstring⟩ := mem_of_firstCode hfirst
              rw [← codeOf_eq_some h]
              exact hrules.canonical code (mem_of_orderedCodes hcodes code hcode) hstring w hw

theorem Hints.Give.of_codeOfHint (hhints : hints.Give rules P)
    (h : codeOfHint rules hints name = .ok (some v)) : P v := by
  rw [codeOfHint] at h
  cases hhint : (hints.lookup (Text.raw (Text.lower name))).bind usableHint? with
  | none => simp [hhint] at h
  | some hint =>
      obtain ⟨given, hlookup, husable⟩ := Option.bind_eq_some_iff.mp hhint
      obtain ⟨before, after, hsplit, -⟩ := List.lookup_eq_some_iff.mp hlookup
      have hmem : (Text.raw (Text.lower name), given) ∈ hints := by
        rw [hsplit]
        simp
      simp only [hhint] at h
      obtain ⟨w, hw, h⟩ := Outcome.map_eq_ok.mp h
      rw [← codeOf_eq_some h]
      exact hhints _ hmem hint husable w hw

private theorem of_castVote {votes : Votes} {code : Value} (hcode : P code)
    (h : ∀ e ∈ votes, P e.1) : ∀ e ∈ castVote code votes, P e.1 := by
  induction votes with
  | nil => simpa [castVote] using hcode
  | cons vote votes ih =>
      obtain ⟨hvote, hvotes⟩ := List.forall_mem_cons.mp h
      obtain ⟨c, n⟩ := vote
      rw [castVote]
      split
      · exact List.forall_mem_cons.mpr ⟨hvote, hvotes⟩
      · exact List.forall_mem_cons.mpr ⟨hvote, ih hvotes⟩

private theorem of_countVotes (hrules : rules.Give P) {tables : List Text} {votes result : Votes}
    (hvotes : ∀ e ∈ votes, P e.1) (h : countVotes rules tables votes = .ok result) :
    ∀ e ∈ result, P e.1 := by
  induction tables generalizing votes with
  | nil =>
      obtain rfl : votes = result := Except.ok.inj h
      exact hvotes
  | cons table tables ih =>
      rw [countVotes] at h
      obtain ⟨code?, hcode, h⟩ := Outcome.bind_eq_ok.mp h
      cases code? with
      | none => exact ih hvotes h
      | some code =>
          dsimp only at h
          split at h
          · exact ih (of_castVote (hrules.of_detectCode hcode) hvotes) h
          · cases h

theorem Rules.Give.of_codeOfTables (hrules : rules.Give P) {tables : List Text}
    (h : codeOfTables rules tables = .ok (some v)) : P v := by
  obtain ⟨votes, hcount, h⟩ := Outcome.map_eq_ok.mp h
  obtain ⟨vote, hvote, rfl⟩ := Option.map_eq_some_iff.mp h
  exact of_countVotes hrules (List.forall_mem_nil _) hcount vote (List.mem_of_find?_eq_some hvote)

/-- Whichever strategy decides, the code it gives has the property. -/
theorem Rules.Give.of_assign (hrules : rules.Give P) (hhints : hints.Give rules P)
    (hrest : P (.text uncategorized)) {tables : List Text} {assignment : Assignment}
    (h : assign rules hints name schema tables = .ok assignment) : P assignment.code := by
  rw [assign] at h
  obtain ⟨code?, hcode, h⟩ := Outcome.bind_eq_ok.mp h
  cases code? with
  | some code =>
      rw [← Except.ok.inj h]
      exact hrules.of_detectCode hcode
  | none =>
      obtain ⟨code?, hcode, h⟩ := Outcome.bind_eq_ok.mp h
      cases code? with
      | some code =>
          rw [← Except.ok.inj h]
          exact hhints.of_codeOfHint hcode
      | none =>
          obtain ⟨code?, hcode, h⟩ := Outcome.bind_eq_ok.mp h
          cases code? with
          | some code =>
              rw [← Except.ok.inj h]
              exact hrules.of_codeOfTables hcode
          | none =>
              rw [← Except.ok.inj h]
              exact hrest

/-! ## Strings -/

/-- The modules of schemas and what spellings stand for are strings. -/
structure Rules.GivesStrings (rules : Rules) : Prop where
  aliases : ∀ e ∈ rules.aliases, e.2.IsString
  schemaModules : ∀ e ∈ rules.schemaModules, e.2.IsString

def Hints.GiveStrings (hints : Hints) : Prop := ∀ e ∈ hints, e.2.IsString

private theorem isString_of_canonical (hrules : rules.GivesStrings) {code : Value}
    (hcode : code.IsString) (h : rules.canonical code = .ok v) : v.IsString := by
  obtain ⟨s, rfl⟩ := hcode
  change Except.ok ((rules.aliases.find? (.str s)).getD (.str s)) = _ at h
  rw [← Except.ok.inj h]
  cases hfind : rules.aliases.find? (.str s) with
  | none => exact ⟨s, rfl⟩
  | some w =>
      obtain ⟨e, he, rfl⟩ := Option.map_eq_some_iff.mp hfind
      exact hrules.aliases e (List.mem_of_find?_eq_some he)

theorem Rules.GivesStrings.give (h : rules.GivesStrings) : rules.Give Value.IsString where
  marker := id
  schemaModules := h.schemaModules
  canonical _ _ hstring _ := isString_of_canonical h hstring

theorem Hints.GiveStrings.give (h : hints.GiveStrings) (hrules : rules.GivesStrings) :
    hints.Give rules Value.IsString := by
  intro e he hint husable v hv
  obtain ⟨s, hs⟩ := h e he
  rw [hs, usableHint?] at husable
  split at husable
  · cases husable
  · exact isString_of_canonical hrules (Option.some.inj husable ▸ ⟨s, rfl⟩) hv

theorem isString_of_detectCode (hrules : rules.GivesStrings)
    (h : detectCode rules name schema = .ok (some v)) : v.IsString :=
  hrules.give.of_detectCode h

theorem isString_of_assign (hrules : rules.GivesStrings) (hhints : hints.GiveStrings)
    {tables : List Text} {assignment : Assignment}
    (h : assign rules hints name schema tables = .ok assignment) : assignment.code.IsString :=
  hrules.give.of_assign (hhints.give hrules) ⟨_, rfl⟩ h

/-! ## The codes of some rules -/

/-- All codes that the rules give without a hint. -/
def Rules.given (rules : Rules) : List Value :=
  rules.deletedMarker :: .text uncategorized ::
    (rules.schemaModules.map (·.2) ++
      rules.codes.filterMap fun code => (rules.canonical code).toOption)

theorem Rules.give_given (rules : Rules) : rules.Give (· ∈ rules.given) where
  marker _ := List.mem_cons_self
  schemaModules e he := by
    refine List.mem_cons_of_mem _ (List.mem_cons_of_mem _ (List.mem_append_left _ ?_))
    exact List.mem_map_of_mem he
  canonical code hcode _ v hv := by
    refine List.mem_cons_of_mem _ (List.mem_cons_of_mem _ (List.mem_append_right _ ?_))
    exact List.mem_filterMap.mpr ⟨code, hcode, by rw [hv]; rfl⟩

theorem mem_given_of_assign {tables : List Text} {assignment : Assignment}
    (h : assign rules [] name schema tables = .ok assignment) : assignment.code ∈ rules.given :=
  rules.give_given.of_assign (List.forall_mem_nil _)
    (List.mem_cons_of_mem _ List.mem_cons_self) h

end ProcCatalog.Assign
