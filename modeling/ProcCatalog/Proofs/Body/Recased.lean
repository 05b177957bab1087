import ProcCatalog.Proofs.Body.Returned
import ProcCatalog.Proofs.Pattern.Exchanged
import ProcCatalog.Proofs.Text.Order
import ProcCatalog.Proofs.Text.Recased

/-!
# Bodies and letter case

What is told of a body does not depend on the case of its letters. The names it refers to are found
at the same places and are sorted out in the same way, so they differ in no more than case.
-/

namespace ProcCatalog.Body

open Pattern
open Text (Recased recasing)

/-- The patterns that a body is read with. -/
private def readers : List Pattern := systemName :: (detectors ++ finders)

private theorem all_readers_blindTo : readers.all (·.blindTo recasing) = true := by
  decide +kernel

private theorem blindTo_reader {p : Pattern} (hp : p ∈ readers) : p.blindTo recasing = true :=
  List.all_eq_true.mp all_readers_blindTo p hp

/-! ## Anti-patterns and intent -/

private theorem occursIn_recased {p : Pattern} (hp : p ∈ readers) (s : Text) :
    p.occursIn (s.map recasing.apply) = p.occursIn s :=
  occursIn_exchanged (blindTo_reader hp) s

theorem detect_recased (s : Text) : Profile.detect (s.map recasing.apply) = Profile.detect s := by
  have hnolock : (nolock.findAll (s.map recasing.apply)).length = (nolock.findAll s).length := by
    rw [findAll_exchanged (blindTo_reader (by simp [readers, finders])), List.length_map]
  simp only [Profile.detect, hnolock,
    occursIn_recased (p := cursor) (by simp [readers, detectors]),
    occursIn_recased (p := selectStar) (by simp [readers, detectors]),
    occursIn_recased (p := dynamicSql) (by simp [readers, detectors]),
    occursIn_recased (p := setNocountOn) (by simp [readers, detectors]),
    occursIn_recased (p := tableVariable) (by simp [readers, detectors]),
    occursIn_recased (p := tempTable) (by simp [readers, detectors]),
    occursIn_recased (p := whileLoop) (by simp [readers, detectors]),
    occursIn_recased (p := tryBlock) (by simp [readers, detectors])]

theorem intentOfBody_recased (s : Text) :
    intentOfBody (s.map recasing.apply) = intentOfBody s := by
  simp only [intentOfBody, mutations, List.filterMap_cons, List.filterMap_nil,
    occursIn_recased (p := selectFrom) (by simp [readers, detectors]),
    occursIn_recased (p := mergeInto) (by simp [readers, detectors]),
    occursIn_recased (p := groupBy) (by simp [readers, detectors]),
    occursIn_recased (p := insertInto) (by simp [readers, detectors]),
    occursIn_recased (p := updateObject) (by simp [readers, detectors]),
    occursIn_recased (p := deleteFrom) (by simp [readers, detectors])]

/-! ## Names -/

private theorem nameParts_recased (s : Text) :
    Sql.nameParts (s.map recasing.apply) = (Sql.nameParts s).map (List.map recasing.apply) := by
  have hbracket : recasing.likens Sql.isBracket = true := rfl
  rw [Sql.nameParts, Sql.nameParts, textsIn_exchanged (blindTo_reader (by simp [readers, finders])),
    List.map_map, List.map_map]
  exact List.map_congr_left fun part _ => recasing.trimWith_map hbracket part

private theorem isKeyword_recased (s : Text) :
    Sql.isKeyword (s.map recasing.apply) = Sql.isKeyword s := by
  rw [Sql.isKeyword, Sql.isKeyword, Text.lower_recased]

private theorem isTemporary_recased (s : Text) :
    isTemporary (s.map recasing.apply) = isTemporary s := by
  have hstart {mark : Char} (hmark : recasing.likens (· == mark) = true) :
      ((s.map recasing.apply).head? == some mark) = (s.head? == some mark) := by
    cases s with
    | nil => rfl
    | cons c s => exact recasing.accepts_apply hmark c
  rw [isTemporary, isTemporary, hstart rfl, hstart rfl]

private theorem isSystemName_recased (s : Text) :
    isSystemName (s.map recasing.apply) = isSystemName s :=
  isSome_matchAt_exchanged (blindTo_reader (p := systemName) (by simp [readers])) (.start s)

private theorem objectNames_recased {p : Pattern} (hp : p ∈ readers) (s : Text) :
    objectNames p (s.map recasing.apply) = (objectNames p s).map (List.map recasing.apply) := by
  rw [objectNames, objectNames, findAll_exchanged (blindTo_reader hp), List.filterMap_map,
    List.map_filterMap]
  exact List.filterMap_congr fun found _ => mark?_exchanged found "object"

/-! ## References -/

theorem resolve_recased (known : KnownTables) (name : Text) :
    (known.resolve (name.map recasing.apply)).map Text.lower =
      (known.resolve name).map Text.lower := by
  rw [KnownTables.resolve, KnownTables.resolve, nameParts_recased, ← List.map_reverse]
  cases (Sql.nameParts name).reverse with
  | nil => rfl
  | cons table qualifiers =>
      have hspelling : known.spelling? (table.map recasing.apply) = known.spelling? table := by
        rw [KnownTables.spelling?, KnownTables.spelling?, Text.lower_recased]
      simp only [List.map_cons, List.isEmpty_map, isTemporary_recased, isKeyword_recased, hspelling]
      split
      · rfl
      · split
        · exact congrArg some (Text.lower_recased table)
        · rfl

theorem calledProcedure?_recased (own name : Text) :
    (calledProcedure? own (name.map recasing.apply)).map Text.lower =
      (calledProcedure? own name).map Text.lower := by
  rw [calledProcedure?, calledProcedure?, nameParts_recased, List.getLast?_map]
  cases (Sql.nameParts name).getLast? with
  | none => rfl
  | some p =>
      simp only [Option.map_some, List.isEmpty_map, isKeyword_recased, isSystemName_recased,
        Text.lower_recased]
      split
      · rfl
      · exact congrArg some (Text.lower_recased p)

private theorem mem_map_sortedSet {f : Text → Text} {t : Text} {ts : List Text} :
    t ∈ (Text.sortedSet ts).map f ↔ t ∈ ts.map f := by
  simp only [List.mem_map, Text.mem_sortedSet]

section

variable {x y : Text} (h : Recased x y)
include h

/-- A reading that takes a name in either case for the same takes the same names from two texts. -/
private theorem map_lower_eq {p : Pattern} (hp : p ∈ readers) {read : Text → Option Text}
    (hread : ∀ name, (read (name.map recasing.apply)).map Text.lower = (read name).map Text.lower) :
    ((objectNames p x).filterMap read).map Text.lower =
      ((objectNames p y).filterMap read).map Text.lower := by
  refine h.apply_eq (f := fun s => ((objectNames p s).filterMap read).map Text.lower) fun s => ?_
  rw [objectNames_recased hp, List.filterMap_map, List.map_filterMap, List.map_filterMap]
  exact List.filterMap_congr fun name _ => hread name

theorem mem_lower_tables_iff (known : KnownTables) (t : Text) :
    t ∈ (tables known x).map Text.lower ↔ t ∈ (tables known y).map Text.lower := by
  have hnames :=
    map_lower_eq h (p := tableReference) (by simp [readers, finders]) (resolve_recased known)
  rw [tables, tables, mem_map_sortedSet, mem_map_sortedSet, hnames]

theorem mem_lower_calls_iff {own own' : Text} (hown : Recased own own') (t : Text) :
    t ∈ (calls own x).map Text.lower ↔ t ∈ (calls own' y).map Text.lower := by
  have hcalled : calledProcedure? own = calledProcedure? own' := by
    funext name
    rw [calledProcedure?, calledProcedure?, hown.apply_eq Text.lower_recased]
  have hnames :=
    map_lower_eq h (p := procedureCall) (by simp [readers, finders]) (calledProcedure?_recased own)
  rw [calls, calls, mem_map_sortedSet, mem_map_sortedSet, hnames, hcalled]

end

end ProcCatalog.Body
