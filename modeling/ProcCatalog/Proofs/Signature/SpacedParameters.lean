import ProcCatalog.Proofs.Pattern.Spaced
import ProcCatalog.Proofs.Signature.ReturnedParameters
import ProcCatalog.Proofs.Sql.Spaced

/-!
# Parameters and blanks at the ends of lines

With spaces in place of its carriage returns, a parameter list has the same parameters, but for the
carriage returns in their defaults. Since a carriage return at the end of a line changes nothing
either, a space there does not.
-/

namespace ProcCatalog.Signature

open Pattern Text

/-! ## Declarations -/

def Parameter.spaced (p : Parameter) : Parameter := { p with default := p.default.map Text.spaced }

private theorem cleanDefault_spaced (s : Text) :
    cleanDefault (Text.spaced s) = (cleanDefault s).map Text.spaced := by
  have hcomma : (Text.spaced (trim s)).getLast? = some ',' ↔ (trim s).getLast? = some ',' :=
    getLast?_spaced_eq_some_iff (by decide) (by decide)
  have hfront : (Text.spaced (trim s)).dropLast = Text.spaced (trim s).dropLast :=
    List.map_dropLast.symm
  simp only [cleanDefault, trim_spaced, hcomma, hfront]
  split
  · rw [isEmpty_spaced]
    split <;> rfl
  · rw [isEmpty_spaced]
    split <;> rfl

private theorem likens_declaration : declaration.likens = true := by decide +kernel

theorem ofPiece?_spaced (s : Text) :
    Parameter.ofPiece? (Text.spaced s) = (Parameter.ofPiece? s).map Parameter.spaced := by
  have hmatch : declaration.matchAt (.start (Text.spaced (trim s))) =
      (declaration.matchAt (.start (trim s))).map Found.spaced :=
    matchAt_spaced likens_declaration (.start (trim s))
  rw [Parameter.ofPiece?, Parameter.ofPiece?, trim_spaced, hmatch]
  cases hfound : declaration.matchAt (.start (trim s)) with
  | none => rfl
  | some found =>
      have hname : (found.mark? "name").map Text.spaced = found.mark? "name" := by
        cases hmark : found.mark? "name" with
        | none => rfl
        | some t =>
            obtain ⟨front, back, hmarks, -⟩ := List.lookup_eq_some_iff.mp hmark
            have hmarked : declaration.Marks ("name", t) :=
              marks_of_matchAt rfl hfound ("name", t) (by simp [hmarks])
            have hsolid := isBlank_eq_false_of_marks_name hmarked
            exact congrArg some (spaced_eq_self fun h => absurd (hsolid '\r' h) (by decide))
      have htype : collapse (((found.mark? "type").map Text.spaced).getD []) =
          collapse ((found.mark? "type").getD []) := by
        cases found.mark? "type" with
        | none => rfl
        | some t => exact collapse_spaced t
      have hdefault : ((found.mark? "default").map Text.spaced).bind cleanDefault =
          ((found.mark? "default").bind cleanDefault).map Text.spaced := by
        cases found.mark? "default" with
        | none => rfl
        | some t => exact cleanDefault_spaced t
      simp only [Option.map_some, mark?_spaced, hname, htype, hdefault, Option.isSome_map,
        Parameter.spaced]

/-! ## Lists -/

private theorem likens_trailingOptions : trailingOptions.likens = true := by decide +kernel

theorem dropOptions_spaced (s : Text) :
    dropOptions (Text.spaced s) = Text.spaced (dropOptions s) := by
  rw [dropOptions, dropOptions, find?_spaced likens_trailingOptions]
  cases trailingOptions.find? s with
  | none => rfl
  | some found =>
      have hfront : (Text.spaced s).take found.start = Text.spaced (s.take found.start) :=
        List.map_take.symm
      simp only [Option.map_some, Found.spaced, Cursor.spaced, hfront, spaced_append]

theorem parseParameters_spaced (s : Text) :
    parseParameters (Text.spaced s) = (parseParameters s).map Parameter.spaced := by
  simp only [parseParameters, Sql.stripComments_spaced, trim_spaced, isEmpty_spaced,
    dropOptions_spaced, Sql.unwrapParens_spaced, Sql.splitTopLevel_spaced]
  split
  · rfl
  · rw [List.filterMap_map, List.map_filterMap]
    exact List.filterMap_congr fun piece _ => ofPiece?_spaced piece

/-! ## Ends of lines -/

def Parameter.flush (p : Parameter) : Parameter := { p with default := p.default.map Text.flush }

theorem Parameter.flush_spaced (p : Parameter) : p.spaced.flush = p.flush := by
  have hflush : Text.flush ∘ Text.spaced = Text.flush := funext Text.flush_spaced
  simp only [Parameter.flush, Parameter.spaced, Option.map_map, hflush]

theorem Parameter.Alike.flush_eq {p p' : Parameter} (h : Parameter.Alike p p') :
    p'.flush = p.flush := by
  have hflush {o o' : Option Text} (hreturned : Option.Rel Returned o o') :
      o'.map Text.flush = o.map Text.flush := by
    cases hreturned with
    | none => rfl
    | some hreturned => exact congrArg some hreturned.flush_eq
  have hdefault := hflush h.default
  simp only [Parameter.flush, h.name, h.dataType, h.direction, hdefault, h.readonly]

private theorem map_flush_spaced (s : Text) :
    (parseParameters (Text.spaced s)).map Parameter.flush =
      (parseParameters s).map Parameter.flush := by
  rw [parseParameters_spaced, List.map_map]
  exact List.map_congr_left fun p _ => p.flush_spaced

private theorem map_flush_returned {s s' : Text} (h : Returned s s') :
    (parseParameters s').map Parameter.flush = (parseParameters s).map Parameter.flush := by
  have halike := forall₂_parseParameters h
  generalize parseParameters s = ps at halike ⊢
  generalize parseParameters s' = ps' at halike ⊢
  induction halike with
  | nil => rfl
  | cons hp _ ih => rw [List.map_cons, List.map_cons, hp.flush_eq, ih]

/-- A space in front of a line feed is seen in no more than a default that goes over it. -/
theorem flush_parseParameters_space (p q : Text) :
    (parseParameters (p ++ ' ' :: '\n' :: q)).map Parameter.flush =
      (parseParameters (p ++ '\n' :: q)).map Parameter.flush := by
  have hp : Returned (Text.spaced p) (Text.spaced p) := .refl (return_not_mem_spaced p)
  have hq : Returned (Text.spaced q) (Text.spaced q) := .refl (return_not_mem_spaced q)
  have hspace : Text.spaced (p ++ ' ' :: '\n' :: q) =
      Text.spaced (Text.spaced p ++ '\r' :: '\n' :: Text.spaced q) := by
    simp only [spaced_append, spaced_cons, spaced_eq_self (return_not_mem_spaced _)]
    rfl
  have hfeed : Text.spaced (p ++ '\n' :: q) = Text.spaced p ++ '\n' :: Text.spaced q := by
    rw [spaced_append]
    rfl
  calc (parseParameters (p ++ ' ' :: '\n' :: q)).map Parameter.flush
      = (parseParameters (Text.spaced (Text.spaced p ++ '\r' :: '\n' :: Text.spaced q))).map
          Parameter.flush := by rw [← hspace, map_flush_spaced]
    _ = (parseParameters (Text.spaced p ++ '\r' :: '\n' :: Text.spaced q)).map
          Parameter.flush := map_flush_spaced _
    _ = (parseParameters (Text.spaced p ++ '\n' :: Text.spaced q)).map Parameter.flush :=
        map_flush_returned (hp.append (.feed hq))
    _ = (parseParameters (p ++ '\n' :: q)).map Parameter.flush := by
        rw [← hfeed, map_flush_spaced]

end ProcCatalog.Signature
