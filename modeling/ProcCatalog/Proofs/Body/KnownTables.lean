import ProcCatalog.Body.Reference
import ProcCatalog.Proofs.Sql.QualifiedName
import ProcCatalog.Proofs.Text.Order

/-!
# Known tables

A name of several parts refers to the table it is written with, whatever is known. A name of one
part refers to the first known table of that name. So what is referred to grows with what is known,
and a table may count twice only for names of several parts.
-/

namespace ProcCatalog.Body

/-! ## Spellings -/

theorem KnownTables.spelling?_ofList (tables : List Text) (t : Text) :
    (ofList tables).spelling? t = tables.find? fun k => Text.lower k == Text.lower t := by
  suffices h : ∀ known : KnownTables, (tables.foldl add known).spelling? t =
      (known.spelling? t).or (tables.find? fun k => Text.lower k == Text.lower t) from h none
  intro known
  induction tables generalizing known with
  | nil => simp
  | cons k tables ih =>
      rw [List.foldl_cons, ih, List.find?_cons]
      have hadd : (known.add k).spelling? t =
          (known.spelling? t).or
            (if Text.lower k == Text.lower t then some k else Option.none) := by
        rw [add]
        split
        · rename_i hknown
          split
          · rename_i hsame
            rw [beq_iff_eq.mp hsame, ← spelling?] at hknown
            rw [Option.or_of_isSome hknown]
          · rw [Option.or_none]
        · rw [spelling?, spelling?, List.lookup_append, List.lookup_cons, List.lookup_nil,
            Bool.beq_comm]
          split <;> simp_all
      rw [hadd, Option.or_assoc]
      cases Text.lower k == Text.lower t <;> simp

variable {known more : List Text} {t : Text}

theorem mem_of_spelling? {u : Text} (h : (KnownTables.ofList known).spelling? u = some t) :
    t ∈ known := by
  rw [KnownTables.spelling?_ofList] at h
  exact List.mem_of_find?_eq_some h

/-- A table that is known keeps its spelling when more are known. -/
theorem spelling?_append {u : Text} (h : (KnownTables.ofList known).spelling? u = some t) :
    (KnownTables.ofList (known ++ more)).spelling? u = some t := by
  rw [KnownTables.spelling?_ofList] at h ⊢
  rw [List.find?_append, h, Option.some_or]

/-! ## What a name refers to -/

/-- A name of several parts refers to its last part, one of one part to the known table. -/
theorem KnownTables.resolve_write (known : KnownTables) (n : Sql.QualifiedName) :
    known.resolve n.write =
      if isTemporary n.last.bare then Option.none
      else if n.further = [] then
        if Sql.isKeyword n.last.bare then Option.none else known.spelling? n.last.bare
      else some n.last.bare := by
  have hempty : n.last.bare.isEmpty = false :=
    List.isEmpty_eq_false_iff.mpr n.last.bare_ne_nil
  have hsingle : (n.parts.dropLast.map Sql.NamePart.bare).reverse.isEmpty =
      decide (n.further = []) := by
    cases h : n.further <;> simp [Sql.QualifiedName.parts, h]
  rw [KnownTables.resolve, n.reverse_nameParts_write]
  simp only [hempty, hsingle, Bool.false_or, Bool.not_eq_true', decide_eq_false_iff_not, ite_not]

def askedFor? (name : Text) : Option Text :=
  match (Sql.nameParts name).reverse with
  | [table] =>
    if table.isEmpty || isTemporary table || Sql.isKeyword table then none else some table
  | _ => none

/-- A name refers to the table it is written with or to the known one that it asks for. -/
theorem resolve_some_iff {known : KnownTables} {name : Text} :
    known.resolve name = some t ↔
      KnownTables.none.resolve name = some t ∨
        ∃ u, askedFor? name = some u ∧ known.spelling? u = some t := by
  have hnone (u : Text) : KnownTables.none.spelling? u = none := rfl
  rw [KnownTables.resolve, KnownTables.resolve, askedFor?]
  cases (Sql.nameParts name).reverse with
  | nil => simp
  | cons table qualifiers =>
      cases qualifiers with
      | nil =>
          simp only [List.isEmpty_nil, hnone]
          cases table.isEmpty <;> cases isTemporary table <;> cases Sql.isKeyword table <;> simp
      | cons q qualifiers => simp

def askedFor (s : Text) : List Text := (objectNames tableReference s).filterMap askedFor?

theorem mem_tables_iff {known : KnownTables} {s : Text} :
    t ∈ tables known s ↔ t ∈ tables .none s ∨ ∃ u ∈ askedFor s, known.spelling? u = some t := by
  simp only [tables, askedFor, Text.mem_sortedSet, List.mem_filterMap]
  constructor
  · rintro ⟨name, hname, h⟩
    rcases resolve_some_iff.mp h with h | ⟨u, hu, hknown⟩
    · exact .inl ⟨name, hname, h⟩
    · exact .inr ⟨u, ⟨name, hname, hu⟩, hknown⟩
  · rintro (⟨name, hname, h⟩ | ⟨u, ⟨name, hname, hu⟩, hknown⟩)
    · exact ⟨name, hname, resolve_some_iff.mpr (.inl h)⟩
    · exact ⟨name, hname, resolve_some_iff.mpr (.inr ⟨u, hu, hknown⟩)⟩

theorem tables_subset_append (known more : List Text) (s : Text) :
    tables (.ofList known) s ⊆ tables (.ofList (known ++ more)) s := by
  intro t ht
  rw [mem_tables_iff] at ht ⊢
  exact ht.imp_right fun ⟨u, hu, hknown⟩ => ⟨u, hu, spelling?_append hknown⟩

/-! ## Tables that count once -/

/-- No two of the tables are the same but for case, and a known one has its known spelling. -/
structure CountsOnce (known ts : List Text) : Prop where
  apart : (ts.map Text.lower).Nodup
  spelled : ∀ t ∈ ts, ∀ k ∈ known, Text.lower k = Text.lower t → t = k

instance (known ts : List Text) : Decidable (CountsOnce known ts) :=
  decidable_of_iff
    ((ts.map Text.lower).Nodup ∧ ∀ t ∈ ts, ∀ k ∈ known, Text.lower k = Text.lower t → t = k)
    ⟨fun h => ⟨h.1, h.2⟩, fun h => ⟨h.apart, h.spelled⟩⟩

theorem CountsOnce.eq_of_lower_eq {ts : List Text} (h : CountsOnce known ts) {u : Text}
    (ht : t ∈ ts) (hu : u ∈ ts) (heq : Text.lower t = Text.lower u) : t = u :=
  List.inj_on_of_nodup_map h.apart ht hu heq

theorem countsOnce_tables_iff (h : (known.map Text.lower).Nodup) (s : Text) :
    CountsOnce known (tables (.ofList known) s) ↔ CountsOnce known (tables .none s) := by
  have hknown {t u : Text} (ht : t ∈ known) (hu : u ∈ known) :
      Text.lower t = Text.lower u → t = u := List.inj_on_of_nodup_map h ht hu
  have hsplit {t : Text} (ht : t ∈ tables (.ofList known) s) : t ∈ tables .none s ∨ t ∈ known :=
    (mem_tables_iff.mp ht).imp_right fun ⟨_, _, hu⟩ => mem_of_spelling? hu
  have hnodup (known : KnownTables) : (tables known s).Nodup :=
    (Text.ascending_sortedSet _).imp And.right
  constructor
  · intro hcounts
    have hmem {t : Text} (ht : t ∈ tables .none s) : t ∈ tables (.ofList known) s :=
      mem_tables_iff.mpr (.inl ht)
    exact ⟨(hnodup _).map_on fun t ht u hu => hcounts.eq_of_lower_eq (hmem ht) (hmem hu),
      fun t ht => hcounts.spelled t (hmem ht)⟩
  · -- known tables are apart, so only what stands against a name of several parts is in question
    intro hcounts
    refine ⟨(hnodup _).map_on fun t ht u hu heq => ?_, fun t ht k hk heq => ?_⟩
    · rcases hsplit ht, hsplit hu with ⟨ht | ht, hu | hu⟩
      · exact hcounts.eq_of_lower_eq ht hu heq
      · exact hcounts.spelled t ht u hu heq.symm
      · exact (hcounts.spelled u hu t ht heq).symm
      · exact hknown ht hu heq
    · rcases hsplit ht with ht | ht
      · exact hcounts.spelled t ht k hk heq
      · exact hknown ht hk heq.symm

theorem countsOnce_of_qualified_alike :
    (["Users".toList].map Text.lower).Nodup ∧
    CountsOnce ["Users".toList] (tables (.ofList ["Users".toList])
      "SELECT 1 FROM users; UPDATE dbo.Users SET X = 1".toList) :=
  ⟨by decide +kernel, (countsOnce_tables_iff (by decide +kernel) _).mpr (by decide +kernel)⟩

/-- The known spelling is not given to a name of several parts, so the table counts twice. -/
theorem not_countsOnce_of_qualified :
    (["Users".toList].map Text.lower).Nodup ∧
    tables (.ofList ["Users".toList]) "SELECT 1 FROM Users; UPDATE dbo.users SET X = 1".toList =
      ["Users".toList, "users".toList] ∧
    ¬ CountsOnce ["Users".toList] (tables (.ofList ["Users".toList])
      "SELECT 1 FROM Users; UPDATE dbo.users SET X = 1".toList) := by
  decide +kernel

end ProcCatalog.Body
