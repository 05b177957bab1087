import ProcCatalog.Body.Intent
import ProcCatalog.Body.Reference
import ProcCatalog.Proofs.Pattern.ReturnedSearch

/-!
# Bodies with carriage returns

What is told of a body does not depend on carriage returns in front of its line feeds: what may
stand between two words may be any blanks, and the parts of a name are written on one line.
-/

namespace ProcCatalog.Body

open Pattern Text

variable {s s' : Text}

/-! ## Patterns -/

/-- The patterns that are asked whether they occur in a body. -/
def detectors : List Pattern :=
  [cursor, selectStar, dynamicSql, setNocountOn, tableVariable, tempTable, whileLoop, tryBlock,
    selectFrom, insertInto, updateObject, deleteFrom, mergeInto, groupBy]

/-- The patterns that are found at all places of a body or of a name in it. -/
def finders : List Pattern := [nolock, tableReference, procedureCall, Sql.namePart]

private theorem ahead_detector {p : Pattern} (hp : p ∈ detectors) :
    p.ahead false (fun _ => false) ⟨true, true, false⟩ = some ⟨true, false, true⟩ := by
  have hall : detectors.all (fun p =>
      p.ahead false (fun _ => false) ⟨true, true, false⟩ = some ⟨true, false, true⟩) = true := by
    decide +kernel
  exact of_decide_eq_true (List.all_eq_true.mp hall p hp)

private theorem ahead_finder {p : Pattern} (hp : p ∈ finders) :
    p.ahead false (fun _ => false) .unknown = some ⟨true, false, true⟩ := by
  have hall : finders.all (fun p =>
      p.ahead false (fun _ => false) .unknown = some ⟨true, false, true⟩) = true := by
    decide +kernel
  exact of_decide_eq_true (List.all_eq_true.mp hall p hp)

/-! ## Anti-patterns -/

private theorem occursIn_of_ahead {p : Pattern} (hp : p ∈ detectors) (h : Returned s s') :
    p.occursIn s' = p.occursIn s :=
  occursIn_eq (carries_of_ahead (ahead_detector hp)) rfl h

theorem length_findAll_nolock (h : Returned s s') :
    (nolock.findAll s').length = (nolock.findAll s).length := by
  have hp := ahead_finder (p := nolock) (by simp [finders])
  exact (forall₂_findAll (carries_of_ahead hp) rfl rfl h).length_eq.symm

theorem detect_eq (h : Returned s s') : Profile.detect s' = Profile.detect s := by
  simp only [Profile.detect, length_findAll_nolock h,
    occursIn_of_ahead (p := cursor) (by simp [detectors]) h,
    occursIn_of_ahead (p := selectStar) (by simp [detectors]) h,
    occursIn_of_ahead (p := dynamicSql) (by simp [detectors]) h,
    occursIn_of_ahead (p := setNocountOn) (by simp [detectors]) h,
    occursIn_of_ahead (p := tableVariable) (by simp [detectors]) h,
    occursIn_of_ahead (p := tempTable) (by simp [detectors]) h,
    occursIn_of_ahead (p := whileLoop) (by simp [detectors]) h,
    occursIn_of_ahead (p := tryBlock) (by simp [detectors]) h]

/-! ## Intent -/

theorem mutations_eq (h : Returned s s') : mutations s' = mutations s := by
  simp only [mutations, List.filterMap_cons, List.filterMap_nil,
    occursIn_of_ahead (p := insertInto) (by simp [detectors]) h,
    occursIn_of_ahead (p := updateObject) (by simp [detectors]) h,
    occursIn_of_ahead (p := deleteFrom) (by simp [detectors]) h]

theorem intentOf_eq (h : Returned s s') (name : Text) : intentOf name s' = intentOf name s := by
  simp only [intentOf, intentOfBody, mutations_eq h,
    occursIn_of_ahead (p := selectFrom) (by simp [detectors]) h,
    occursIn_of_ahead (p := mergeInto) (by simp [detectors]) h,
    occursIn_of_ahead (p := groupBy) (by simp [detectors]) h]

/-! ## Names -/

private theorem no_feed_of_spans_namePart {before : Option Char} {u rest : Text}
    (h : Sql.namePart.Spans before u rest) : '\n' ∉ u := by
  intro hmem
  rcases h with ⟨opening, _, rfl, hopen, inner, _, rfl, hinner, closing, _, rfl, hclose, rfl⟩ | h
  · obtain rfl := spans_char.mp hopen
    obtain rfl := spans_char.mp hclose
    have hfeed := (spans_many1.mp hinner).2 '\n' (by simpa using hmem)
    exact absurd hfeed (by decide)
  · exact absurd ((spans_many1.mp h).2 '\n' hmem) (by decide)

theorem nameParts_eq (h : Returned s s') : Sql.nameParts s' = Sql.nameParts s := by
  have hp := ahead_finder (p := Sql.namePart) (by simp [finders])
  rw [Sql.nameParts, Sql.nameParts,
    textsIn_eq (carries_of_ahead hp) rfl rfl (fun _ _ _ => no_feed_of_spans_namePart) h]

/-! ## References -/

private theorem forall₂_objectNames {p : Pattern} (hp : p ∈ finders) (hmoves : p.moves = true)
    (h : Returned s s') :
    List.Forall₂ Returned (objectNames p s) (objectNames p s') :=
  List.rel_filterMap (fun _ _ hfound => rel_mark? hfound.marks "object" rfl)
    (forall₂_findAll (carries_of_ahead (ahead_finder hp)) rfl hmoves h)

private theorem filterMap_eq {α : Type} {f : Text → Option α} {ts ts' : List Text}
    (h : List.Forall₂ Returned ts ts') (hf : ∀ t t', Returned t t' → f t' = f t) :
    ts'.filterMap f = ts.filterMap f := by
  induction h with
  | nil => rfl
  | cons ht _ ih => rw [List.filterMap_cons, List.filterMap_cons, hf _ _ ht, ih]

theorem tables_eq (h : Returned s s') (known : KnownTables) : tables known s' = tables known s := by
  have hnames := forall₂_objectNames (p := tableReference) (by simp [finders]) rfl h
  rw [tables, tables, filterMap_eq hnames]
  intro name name' hname
  rw [KnownTables.resolve, KnownTables.resolve, nameParts_eq hname]

theorem calls_eq (h : Returned s s') (own : Text) : calls own s' = calls own s := by
  have hnames := forall₂_objectNames (p := procedureCall) (by simp [finders]) rfl h
  rw [calls, calls, filterMap_eq hnames]
  intro name name' hname
  rw [calledProcedure?, calledProcedure?, nameParts_eq hname]

end ProcCatalog.Body
