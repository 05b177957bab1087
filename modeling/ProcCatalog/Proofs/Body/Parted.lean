import ProcCatalog.Body.Reference
import ProcCatalog.Proofs.Pattern.Parted
import ProcCatalog.Proofs.Text.Order

/-!
# References of parted statements

A semicolon and a line feed part two texts for good: neither a name nor what stands before it goes
on over them. What the whole refers to is what the one text and the other refer to.
-/

namespace ProcCatalog.Body

open Pattern

/-- What parts two statements. -/
def part : Text := [';', '\n']

/-! ## Names stay on their side -/

variable {more : Text}

def EndsStatement (more : Text) : Prop := more = [] ∨ ∃ s, more = part ++ s

private theorem stays_of_stops {p : Pattern} (h : EndsStatement more)
    (hp : p.stops ';' = true) : Stays more p :=
  .of_stops hp (by rcases h with rfl | ⟨s, rfl⟩ <;> simp [part])

private theorem stays_identifier (h : EndsStatement more) : Stays more Sql.identifier := by
  refine .alt ((stays_of_stops h rfl).seq (.closed rfl ?_ .empty)) (stays_of_stops h rfl)
  -- a bracket may be followed by the semicolon, but is not closed on the line
  rcases h with rfl | ⟨s, rfl⟩
  · simp
  · rw [part, List.cons_append, List.cons_append, List.dropWhile_cons_of_pos (by decide),
      List.dropWhile_cons_of_neg (by decide)]
    simp

private theorem stays_furtherPart (h : EndsStatement more) {next : Pattern}
    (hnext : Stays more next) : Stays more (Sql.furtherPart next) := by
  refine .option (.all ?_)
  simp only [List.forall_mem_cons]
  exact ⟨stays_of_stops h rfl, stays_of_stops h rfl, stays_of_stops h rfl,
    stays_identifier h, hnext, List.forall_mem_nil _⟩

private theorem stays_objectName (h : EndsStatement more) : Stays more Sql.objectName :=
  (stays_identifier h).seq
    (stays_furtherPart h (stays_furtherPart h (stays_furtherPart h .empty)))

private theorem stays_tableReference (h : EndsStatement more) : Stays more tableReference := by
  refine .all ?_
  simp only [List.forall_mem_cons]
  exact ⟨stays_of_stops h rfl, stays_of_stops h (by decide +kernel), stays_of_stops h rfl,
    .named _ (stays_objectName h), stays_of_stops h rfl, List.forall_mem_nil _⟩

private theorem stays_procedureCall (h : EndsStatement more) : Stays more procedureCall := by
  refine .all ?_
  simp only [List.forall_mem_cons]
  exact ⟨stays_of_stops h rfl, stays_of_stops h (by decide +kernel),
    stays_of_stops h (by decide +kernel), stays_of_stops h rfl,
    stays_of_stops h (by decide +kernel), .named _ (stays_objectName h), stays_of_stops h rfl,
    List.forall_mem_nil _⟩

/-! ## References -/

theorem objectNames_eq (p : Pattern) (s : Text) :
    objectNames p s = (marksOf (p.findAll s)).filterMap fun marks => marks.lookup "object" := by
  rw [objectNames, marksOf, List.filterMap_map]
  rfl

private theorem objectNames_parted {p : Pattern}
    (hstays : ∀ more, EndsStatement more → Stays more p) (hmoves : p.moves = true)
    (hsemicolon : p.starts ';' = false) (hfeed : p.starts '\n' = false) (a b : Text) :
    objectNames p (a ++ part ++ b) = objectNames p a ++ objectNames p b := by
  have hlast : (lastOr (lastOr none a) part).any Text.isWord = false := rfl
  have hpart : ∀ x ∈ part, p.starts x = false := by simp [part, hsemicolon, hfeed]
  rw [objectNames_eq, objectNames_eq, objectNames_eq, List.append_assoc,
    marksOf_findAll_append (hstays _ (.inr ⟨b, rfl⟩)) (hstays _ (.inl rfl))
      (avoids_of_starts hmoves _ hpart _) hlast, List.filterMap_append]

theorem tableNames_parted (a b : Text) :
    objectNames tableReference (a ++ part ++ b) =
      objectNames tableReference a ++ objectNames tableReference b :=
  objectNames_parted (fun _ => stays_tableReference) rfl rfl rfl a b

theorem calledNames_parted (a b : Text) :
    objectNames procedureCall (a ++ part ++ b) =
      objectNames procedureCall a ++ objectNames procedureCall b :=
  objectNames_parted (fun _ => stays_procedureCall) rfl rfl rfl a b

/-- Parted texts refer to what each of them refers to. -/
theorem references_parted (known : KnownTables) (own a b : Text) :
    tables known (a ++ part ++ b) = Text.sortedSet (tables known a ++ tables known b) ∧
      calls own (a ++ part ++ b) = Text.sortedSet (calls own a ++ calls own b) := by
  constructor
  · rw [tables, tableNames_parted, List.filterMap_append, Text.sortedSet_append, tables, tables]
  · rw [calls, calledNames_parted, List.filterMap_append, Text.sortedSet_append, calls, calls]

/-- A name that is not closed and a word that asks for a name do not reach over the part. -/
example : tables (.ofList ["T".toList])
    ("DELETE FROM [x".toList ++ part ++ "] JOIN T".toList) = ["T".toList] := by decide +kernel

end ProcCatalog.Body
