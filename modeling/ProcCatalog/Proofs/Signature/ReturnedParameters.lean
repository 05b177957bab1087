import ProcCatalog.Proofs.Pattern.ReturnedSearch
import ProcCatalog.Proofs.Sql.Returned
import ProcCatalog.Signature.Parameter

/-!
# Parameters of texts with carriage returns

A parameter list with carriage returns in front of line feeds has the parameters of the list
without them. Names are written on one line and types are collapsed, so carriage returns are left
in defaults only.
-/

namespace ProcCatalog.Signature

open Pattern Text

variable {s s' : Text}

/-- The same parameter, carriage returns in its default aside. -/
structure Parameter.Alike (p p' : Parameter) : Prop where
  name : p'.name = p.name
  dataType : p'.dataType = p.dataType
  direction : p'.direction = p.direction
  default : Option.Rel Returned p.default p'.default
  readonly : p'.readonly = p.readonly

/-! ## Declarations -/

/-- A default is the shortest text behind which the rest is in order, and the rest may begin between
a carriage return and its line feed. -/
def cutsDefault (name : String) : Bool := name == "default"

private theorem carries_declaration :
    Carries true cutsDefault declaration .unknown ⟨true, false, true⟩ :=
  carries_of_ahead (by decide +kernel)

theorem isBlank_eq_false_of_marks_name {t : Text} (h : declaration.Marks ("name", t)) :
    ∀ x ∈ t, isBlank x = false := by
  obtain ⟨-, before, rest, at', word, rfl, hat, hword⟩ : True ∧ ∃ before rest,
      (Pattern.seq (char '@')
        (many1 fun c => isWord c || c == '@' || c == '#' || c == '$')).Spans before t rest := by
    simpa [declaration, all, any, option, typeName, typePart, blanks1, blanks, many1, keyword, char,
      Marks] using h
  obtain rfl := spans_char.mp hat
  intro x hx
  rcases List.mem_append.mp hx with hx | hx
  · obtain rfl : x = '@' := by simpa using hx
    rfl
  · have hclass := (spans_many1.mp hword).2 x hx
    simp only [Bool.or_eq_true, beq_iff_eq] at hclass
    rcases hclass with ((hx | rfl) | rfl) | rfl
    · exact isBlank_eq_false_of_isWord hx
    · rfl
    · rfl
    · rfl

private theorem rel_cleanDefault {t t' : Text} (h : ReturnedCut t t') :
    Option.Rel Returned (cleanDefault t) (cleanDefault t') := by
  have htrim := h.trim
  have hclean : Returned
      (if (Text.trim t).getLast? = some ',' then Text.trim (Text.trim t).dropLast else Text.trim t)
      (if (Text.trim t').getLast? = some ',' then Text.trim (Text.trim t').dropLast
        else Text.trim t') := by
    rw [htrim.getLast?_eq]
    split
    · rename_i hcomma
      exact (htrim.dropLast (by simp [hcomma])).trim
    · exact htrim
  rw [cleanDefault, cleanDefault]
  generalize (if (Text.trim t).getLast? = some ',' then Text.trim (Text.trim t).dropLast
    else Text.trim t) = u at hclean ⊢
  generalize (if (Text.trim t').getLast? = some ',' then Text.trim (Text.trim t').dropLast
    else Text.trim t') = u' at hclean ⊢
  simp only [hclean.isEmpty_eq]
  split
  · exact .none
  · exact .some hclean

theorem getLast?_trim_ne_feed (s : Text) : (Text.trim s).getLast? ≠ some '\n' := by
  intro hlast
  exact absurd (getLast?_trim s '\n' hlast) (by decide)

theorem rel_ofPiece? (h : Returned s s') :
    Option.Rel Parameter.Alike (Parameter.ofPiece? s) (Parameter.ofPiece? s') := by
  have hmatch := matchAt_abreast carries_declaration (fun _ => getLast?_trim_ne_feed s)
    (.of_returned h.trim 0 0)
  rw [Parameter.ofPiece?, Parameter.ofPiece?, Cursor.start, Cursor.start]
  generalize hfound : declaration.matchAt ⟨none, Text.trim s, 0, []⟩ = x at hmatch
  generalize declaration.matchAt ⟨none, Text.trim s', 0, []⟩ = x' at hmatch
  cases hmatch with
  | none => exact .none
  | @some f f' hmet =>
      have hmarks := hmet.abreast.marks
      refine .some ⟨?_, ?_, ?_, ?_, ?_⟩
      · have hname := mark?_eq hmarks "name" rfl fun t ht hfeed => by
          have hsolid := isBlank_eq_false_of_marks_name (marks_of_matchAt rfl hfound _ ht)
          exact absurd (hsolid '\n' hfeed) (by decide)
        simp only [hname]
      · simp only [(getD_of_rel (rel_mark? hmarks "type" rfl) .nil).collapse_eq]
      · simp only [isSome_eq_of_rel (rel_mark? hmarks "direction" rfl)]
      · exact rel_bind (rel_mark?_cut hmarks "default" rfl) fun _ _ => rel_cleanDefault
      · exact isSome_eq_of_rel (rel_mark? hmarks "readonly" rfl)

/-! ## Lists -/

private theorem carries_trailingOptions :
    Carries true (fun _ => false) trailingOptions .unknown ⟨true, false, false⟩ :=
  carries_of_ahead (by decide +kernel)

theorem returned_dropOptions (h : Returned s s') (hsolid : s.getLast? ≠ some '\n') :
    Returned (dropOptions s) (dropOptions s') := by
  have hfind := rel_find? carries_trailingOptions rfl (fun _ => hsolid) h
  rw [dropOptions, dropOptions]
  generalize trailingOptions.find? s = x at hfind
  generalize trailingOptions.find? s' = x' at hfind
  cases hfind with
  | none => exact h
  | some hfound => exact hfound.start_abreast.append hfound.abreast.rest

theorem forall₂_parseParameters (h : Returned s s') :
    List.Forall₂ Parameter.Alike (parseParameters s) (parseParameters s') := by
  have hlist := (Sql.returned_stripComments h).trim
  have hoptions := returned_dropOptions hlist (getLast?_trim_ne_feed _)
  have hpieces := Sql.forall₂_splitTopLevel (Sql.returned_unwrapParens hoptions)
  rw [parseParameters, parseParameters]
  simp only [hlist.isEmpty_eq]
  split
  · exact .nil
  · exact List.rel_filterMap (fun _ _ hpiece => rel_ofPiece? hpiece) hpieces

end ProcCatalog.Signature
