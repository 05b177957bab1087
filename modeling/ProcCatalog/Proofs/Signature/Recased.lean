import ProcCatalog.Proofs.Pattern.Exchanged
import ProcCatalog.Proofs.Sql.Parentheses
import ProcCatalog.Proofs.Text.Recased
import ProcCatalog.Signature.Boundary

/-!
# The end of the header and letter case

Each strategy finds the word AS at the same place in capitals and in small letters.
-/

namespace ProcCatalog.Signature

open Pattern
open Text (recasing)

variable (s : Text)

private def asPatterns : List Pattern :=
  [asOnOwnLine, asAtLineEnd, asAfterParen, asAtLineStart, asAnywhere]

private theorem all_asPatterns_blindTo : asPatterns.all (·.blindTo recasing) = true := by
  decide +kernel

private theorem blindTo_asPattern {p : Pattern} (hp : p ∈ asPatterns) :
    p.blindTo recasing = true :=
  List.all_eq_true.mp all_asPatterns_blindTo p hp

private theorem map_boundaryOf_recased {p : Pattern} (hp : p ∈ asPatterns)
    (strategy : Strategy) :
    (p.find? (s.map recasing.apply)).map (boundaryOf strategy) =
      (p.find? s).map (boundaryOf strategy) := by
  rw [find?_exchanged (blindTo_asPattern hp), Option.map_map]
  rfl

private theorem ownLine?_recased : ownLine? (s.map recasing.apply) = ownLine? s := by
  have hline : asOnOwnLine.blindTo recasing = true := blindTo_asPattern (by simp [asPatterns])
  have hend : asAtLineEnd.blindTo recasing = true := blindTo_asPattern (by simp [asPatterns])
  rw [ownLine?, ownLine?, find?_exchanged hline]
  cases asOnOwnLine.find? s with
  | none => rfl
  | some found =>
      simp only [Option.map_some, Found.exchanged, Cursor.exchanged, ← List.map_take,
        find?_exchanged hend]
      cases asAtLineEnd.find? (s.take found.stop.offset) <;> rfl

private theorem parenThenAs?_recased : parenThenAs? (s.map recasing.apply) = parenThenAs? s := by
  have hafter : asAfterParen.blindTo recasing = true := blindTo_asPattern (by simp [asPatterns])
  have hblank : recasing.likens Text.isBlank = true := rfl
  have hmarks : Sql.keepsMarks recasing = true := rfl
  have hlist : Text.trimStart (s.map recasing.apply) = (Text.trimStart s).map recasing.apply :=
    recasing.dropWhile_map hblank s
  have hopen : ((Text.trimStart s).map recasing.apply).head? = some '(' ↔
      (Text.trimStart s).head? = some '(' := by
    simp [List.head?_map, Option.map_eq_some_iff, recasing.apply_eq_iff (d := '(') rfl]
  have hmatch (close : Nat) :
      asAfterParen.matchAt ⟨none, (s.drop close).map recasing.apply, close, []⟩ =
        (asAfterParen.matchAt ⟨none, s.drop close, close, []⟩).map (Found.exchanged recasing) :=
    matchAt_exchanged hafter ⟨none, s.drop close, close, []⟩
  simp only [parenThenAs?, hlist, hopen, Sql.closingParen?_exchanged hmarks, List.length_map,
    ← List.map_drop, hmatch]
  split
  · cases Sql.closingParen? s (s.length - (Text.trimStart s).length) with
    | none => rfl
    | some close =>
        simp only
        cases asAfterParen.matchAt ⟨none, s.drop close, close, []⟩ <;> rfl
  · rfl

private theorem find?_recased (strategy : Strategy) :
    strategy.find? (s.map recasing.apply) = strategy.find? s := by
  cases strategy with
  | ownLine => exact ownLine?_recased s
  | parenThenAs => exact parenThenAs?_recased s
  | endOfLine => exact map_boundaryOf_recased s (by simp [asPatterns]) .endOfLine
  | lineStart => exact map_boundaryOf_recased s (by simp [asPatterns]) .lineStart
  | anywhere => exact map_boundaryOf_recased s (by simp [asPatterns]) .anywhere

theorem boundary?_recased : boundary? (s.map recasing.apply) = boundary? s := by
  rw [boundary?, boundary?, funext (find?_recased s)]

end ProcCatalog.Signature
