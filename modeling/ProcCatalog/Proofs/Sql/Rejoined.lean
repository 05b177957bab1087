import ProcCatalog.Proofs.Sql.Balanced
import ProcCatalog.Proofs.Sql.Parentheses
import ProcCatalog.Proofs.Text.Parts

/-!
# Splitting what was split

Of the text behind it, the way through a piece sees only whether a right bracket stands there.
Trimming the pieces of a text and leaving out the blank ones does not change that, so joining them
again and splitting once more gives the same pieces, closed or not.
-/

namespace ProcCatalog.Sql

/-! ## The way through a text -/

/-- With `behind` behind it, the text leads from one region and depth to another, and no comma in it
separates. -/
inductive Crosses (behind : Text) : Region → Nat → Text → Region → Nat → Prop
  | nil {region : Region} {depth : Nat} : Crosses behind region depth [] region depth
  | cons {region region' : Region} {depth depth' : Nat} {c : Char} {s : Text}
      (hseparates : separates comma region depth c = false)
      (hs : Crosses behind (region.next c (s ++ behind))
        (if region = .code then deepen depth c else depth) s region' depth') :
      Crosses behind region depth (c :: s) region' depth'

namespace Crosses

variable {behind behind' s t : Text} {region region' region'' : Region} {depth depth' depth'' : Nat}

theorem piecesFrom (h : Crosses behind region depth s region' depth') (piece : Text) :
    piecesFrom comma region depth piece (s ++ behind) =
      piecesFrom comma region' depth' (s.reverse ++ piece) behind := by
  induction h generalizing piece with
  | nil => rfl
  | @cons region region' depth depth' c s hseparates _ ih =>
      rw [List.cons_append, Sql.piecesFrom, if_neg (Bool.eq_false_iff.mp hseparates), ih]
      simp

theorem congr (h : Crosses behind region depth s region' depth')
    (hbehind : ']' ∈ behind ↔ ']' ∈ behind') : Crosses behind' region depth s region' depth' := by
  induction h with
  | nil => exact .nil
  | @cons region region' depth depth' c s hseparates _ ih =>
      have hnext : region.next c (s ++ behind) = region.next c (s ++ behind') :=
        Region.next_congr (by simp [hbehind]) c
      exact .cons hseparates (hnext ▸ ih)

theorem of_append (h : Crosses behind region depth (s ++ t) region'' depth'') :
    ∃ region' depth', Crosses (t ++ behind) region depth s region' depth' ∧
      Crosses behind region' depth' t region'' depth'' := by
  induction s generalizing region depth with
  | nil => exact ⟨region, depth, .nil, h⟩
  | cons c s ih =>
      cases h with
      | cons hseparates hs =>
          obtain ⟨region', depth', hfirst, hsecond⟩ := ih hs
          have hbehind : s.append t ++ behind = s ++ (t ++ behind) := List.append_assoc s t behind
          rw [hbehind] at hfirst
          exact ⟨region', depth', .cons hseparates hfirst, hsecond⟩

/-- Blanks lead nowhere. -/
theorem eq_of_blanks (h : Crosses behind region depth s region' depth')
    (hs : ∀ c ∈ s, Text.isBlank c = true) : region = region' ∧ depth = depth' := by
  induction h with
  | nil => exact ⟨rfl, rfl⟩
  | @cons region region' depth depth' c s _ _ ih =>
      obtain ⟨hc, hs⟩ := List.forall_mem_cons.mp hs
      have hplain := isPlain_of_isBlank hc
      have hclose : c ≠ ']' := by
        rintro rfl
        cases hc
      simp only [isPlain, Bool.and_eq_true, bne_iff_ne, ne_eq] at hplain
      obtain ⟨hregion, hdepth⟩ := ih hs
      have hstays : region.next c (s ++ behind) = region := by
        cases region <;> simp [Region.next, hplain, hclose]
      rw [hstays] at hregion
      refine ⟨hregion, ?_⟩
      rw [← hdepth]
      simp [deepen, hplain]

theorem trim (h : Crosses behind region depth s region' depth') :
    Crosses behind region depth (Text.trim s) region' depth' := by
  obtain ⟨u, v, hs, hu, hv⟩ := Text.exists_trim s
  have hbracket : ']' ∉ v := fun hmem => absurd (hv _ hmem) (by decide)
  have hbehind : ']' ∈ v ++ behind ↔ ']' ∈ behind := by simp [hbracket]
  rw [hs] at h
  obtain ⟨_, _, hfront, hrest⟩ := h.of_append
  obtain ⟨rfl, rfl⟩ := hfront.eq_of_blanks hu
  obtain ⟨_, _, htrim, hend⟩ := hrest.of_append
  obtain ⟨rfl, rfl⟩ := hend.eq_of_blanks hv
  exact htrim.congr hbehind

end Crosses

/-! ## Settled pieces -/

/-- Each piece but the last leads back to the top level, and no comma in any piece separates. -/
inductive Settled : List Text → Prop
  | nil : Settled []
  | last {p : Text} {region : Region} {depth : Nat} (hp : Crosses [] .code 0 p region depth) :
      Settled [p]
  | cons {p : Text} {ps : List Text} (hp : Crosses ps.flatten .code 0 p .code 0)
      (hps : Settled ps) : Settled (p :: ps)

theorem bracket_mem_joinWith (ps : List Text) :
    ']' ∈ Text.joinWith comma ps ↔ ']' ∈ ps.flatten := by
  induction ps with
  | nil => rfl
  | cons p ps ih =>
      cases ps with
      | nil => simp [Text.joinWith]
      | cons q ps =>
          rw [Text.joinWith_cons_cons, List.mem_append, List.mem_append, ih]
          simp [comma]

/-- The pieces of any text are settled. What is read of the first one is told by where the way
through it ends, which is the top level if another piece follows. -/
theorem exists_settled (region : Region) (depth : Nat) (piece s : Text) :
    ∃ u ps, piecesFrom comma region depth piece s = (piece.reverse ++ u) :: ps ∧
      Text.joinWith comma (u :: ps) = s ∧ Settled ps ∧
        ∃ region' depth', Crosses ps.flatten region depth u region' depth' ∧
          (ps ≠ [] → region' = .code ∧ depth' = 0) := by
  induction s generalizing region depth piece with
  | nil => exact ⟨[], [], by simp [piecesFrom], rfl, .nil, region, depth, .nil, by simp⟩
  | cons c s ih =>
      rw [piecesFrom]
      split
      · rename_i hseparates
        obtain ⟨u, ps, hpieces, hjoin, hps, region', depth', hu, hend⟩ := ih .code 0 []
        rw [List.reverse_nil, List.nil_append] at hpieces
        simp only [separates, Bool.and_eq_true, beq_iff_eq] at hseparates
        obtain ⟨⟨⟨⟨⟨⟨hc, rfl⟩, rfl⟩, -⟩, -⟩, -⟩, -⟩ := hseparates
        obtain rfl : ',' = c := by simpa [comma] using hc
        have hsettled : Settled (u :: ps) := by
          by_cases hne : ps = []
          · subst hne
            exact .last hu
          · obtain ⟨rfl, rfl⟩ := hend hne
            exact .cons hu hps
        refine ⟨[], u :: ps, by simp [hpieces], ?_, hsettled, .code, 0, .nil, fun _ => ⟨rfl, rfl⟩⟩
        rw [Text.joinWith_cons_cons, hjoin]
        rfl
      · rename_i hseparates
        obtain ⟨u, ps, hpieces, hjoin, hps, region', depth', hu, hend⟩ :=
          ih (region.next c s) (if region = .code then deepen depth c else depth) (c :: piece)
        have hbehind : ']' ∈ s ↔ ']' ∈ u ++ ps.flatten := by
          rw [← hjoin, bracket_mem_joinWith, List.flatten_cons]
        rw [Region.next_congr hbehind] at hu
        refine ⟨c :: u, ps, by simpa using hpieces, ?_, hps, region', depth',
          .cons (Bool.eq_false_iff.mpr hseparates) hu, hend⟩
        cases ps with
        | nil => simpa [Text.joinWith] using hjoin
        | cons q ps =>
            rw [Text.joinWith_cons_cons] at hjoin ⊢
            rw [← hjoin, List.cons_append]

theorem settled_piecesFrom (s : Text) : Settled (piecesFrom comma .code 0 [] s) := by
  obtain ⟨u, ps, hpieces, -, hps, region, depth, hu, hend⟩ := exists_settled .code 0 [] s
  rw [hpieces, List.reverse_nil, List.nil_append]
  by_cases hne : ps = []
  · subst hne
    exact .last hu
  · obtain ⟨rfl, rfl⟩ := hend hne
    exact .cons hu hps

theorem Settled.piecesFrom_joinWith {p : Text} {ps : List Text} (h : Settled (p :: ps))
    (piece : Text) :
    piecesFrom comma .code 0 piece (Text.joinWith comma (p :: ps)) =
      (piece.reverse ++ p) :: ps := by
  induction ps generalizing p piece with
  | nil =>
      obtain ⟨region, depth, hp⟩ : ∃ region depth, Crosses [] .code 0 p region depth := by
        cases h with
        | last hp => exact ⟨_, _, hp⟩
        | cons hp _ => exact ⟨_, _, hp⟩
      have hpieces := hp.piecesFrom piece
      rw [List.append_nil] at hpieces
      simp [Text.joinWith, hpieces, piecesFrom]
  | cons q ps ih =>
      cases h with
      | cons hp hps =>
          have hbehind : ']' ∈ (q :: ps).flatten ↔ ']' ∈ ',' :: Text.joinWith comma (q :: ps) := by
            rw [← bracket_mem_joinWith]
            simp
          have hcut : Text.joinWith comma (p :: q :: ps) =
              p ++ ',' :: Text.joinWith comma (q :: ps) := Text.joinWith_cons_cons comma p q ps
          rw [hcut, (hp.congr hbehind).piecesFrom, piecesFrom_separator, ih hps]
          simp

/-! ## Trimming the pieces -/

def tidied (ps : List Text) : List Text := (ps.map Text.trim).filter (!·.isEmpty)

theorem tidied_cons (p : Text) (ps : List Text) :
    tidied (p :: ps) = if Text.trim p = [] then tidied ps else Text.trim p :: tidied ps := by
  by_cases hp : Text.trim p = [] <;> simp [tidied, hp]

theorem bracket_mem_trim (p : Text) : ']' ∈ Text.trim p ↔ ']' ∈ p := by
  obtain ⟨u, v, hp, hu, hv⟩ := Text.exists_trim p
  have hfront : ']' ∉ u := fun hmem => absurd (hu _ hmem) (by decide)
  have hend : ']' ∉ v := fun hmem => absurd (hv _ hmem) (by decide)
  conv_rhs => rw [hp]
  simp [hfront, hend]

theorem bracket_mem_tidied (ps : List Text) : ']' ∈ (tidied ps).flatten ↔ ']' ∈ ps.flatten := by
  induction ps with
  | nil => rfl
  | cons p ps ih =>
      have hp := bracket_mem_trim p
      rw [tidied_cons, List.flatten_cons, List.mem_append, ← ih, ← hp]
      split
      · rename_i hblank
        simp [hblank]
      · simp

theorem Settled.tidied {ps : List Text} (h : Settled ps) : Settled (tidied ps) := by
  induction h with
  | nil => exact .nil
  | last hp =>
      rw [tidied_cons]
      split
      · exact .nil
      · exact .last hp.trim
  | @cons p ps hp _ ih =>
      rw [tidied_cons]
      split
      · exact ih
      · exact .cons (hp.trim.congr (bracket_mem_tidied ps).symm) ih

theorem tidied_eq_self {ps : List Text} (h : ∀ p ∈ ps, Text.trim p = p ∧ p ≠ []) :
    Sql.tidied ps = ps := by
  induction ps with
  | nil => rfl
  | cons p ps ih =>
      obtain ⟨⟨htrim, hne⟩, hps⟩ := List.forall_mem_cons.mp h
      rw [tidied_cons, htrim, if_neg hne, ih hps]

theorem trimmed_of_mem_tidied {ps : List Text} {q : Text} (hq : q ∈ Sql.tidied ps) :
    Text.trim q = q ∧ q ≠ [] := by
  obtain ⟨hmem, hne⟩ := List.mem_filter.mp hq
  obtain ⟨p, -, rfl⟩ := List.mem_map.mp hmem
  exact ⟨Text.trim_trim p, by simpa using hne⟩

/-! ## Splitting again -/

theorem splitTopLevel_joinWith_splitTopLevel (s : Text) :
    splitTopLevel comma (Text.joinWith comma (splitTopLevel comma s)) = splitTopLevel comma s := by
  have hsettled : Settled (splitTopLevel comma s) := (settled_piecesFrom s).tidied
  have htrimmed : ∀ q ∈ splitTopLevel comma s, Text.trim q = q ∧ q ≠ [] :=
    fun q hq => trimmed_of_mem_tidied hq
  generalize splitTopLevel comma s = pieces at hsettled htrimmed
  cases pieces with
  | nil => rfl
  | cons p ps =>
      rw [splitTopLevel, hsettled.piecesFrom_joinWith]
      exact tidied_eq_self htrimmed

/-- Splitting undoes joining of balanced pieces, and of the pieces of any text. -/
theorem splitting_undoes_joining :
    (∀ (pieces : List Text) (s : Text), Joined pieces s →
      (∀ p ∈ pieces, Balanced false p ∧ Text.trim p = p ∧ p ≠ []) →
        splitTopLevel comma s = pieces) ∧
      ∀ s, splitTopLevel comma (Text.joinWith comma (splitTopLevel comma s)) =
        splitTopLevel comma s :=
  ⟨fun _ _ => splitTopLevel_of_joined, splitTopLevel_joinWith_splitTopLevel⟩

/-- A comma in parentheses, one in a literal, one in brackets, and the two that separate. -/
theorem splitting_undoes_joining_of_five_commas :
    Joined ["a decimal(18, 2)".toList, "'it''s, so'".toList, "[b,(c]".toList]
        "a decimal(18, 2) ,\n'it''s, so',[b,(c]".toList ∧
      (∀ p ∈ ["a decimal(18, 2)".toList, "'it''s, so'".toList, "[b,(c]".toList],
        Balanced false p ∧ Text.trim p = p ∧ p ≠ []) ∧
      splitTopLevel comma "a decimal(18, 2) ,\n'it''s, so',[b,(c]".toList =
        ["a decimal(18, 2)".toList, "'it''s, so'".toList, "[b,(c]".toList] := by
  have hjoined : Joined ["a decimal(18, 2)".toList, "'it''s, so'".toList, "[b,(c]".toList]
      "a decimal(18, 2) ,\n'it''s, so',[b,(c]".toList :=
    ⟨[⟨[' '], ['\n'], "'it''s, so'".toList, by simp, by simp⟩,
      ⟨[], [], "[b,(c]".toList, by simp, by simp⟩], rfl, rfl⟩
  have htype : Balanced false "a decimal(18, 2)".toList :=
    .chars (u := "a decimal".toList) rfl
      (.parens (w := "18, 2".toList) (.chars (u := "18, 2".toList) rfl .nil) .nil)
  have hliteral : Balanced false "'it''s, so'".toList := .literal "it's, so".toList .nil
  have hbracketed : Balanced false "[b,(c]".toList :=
    @Balanced.bracketed false "b,(c".toList [] (by simp) .nil
  have hpieces : ∀ p ∈ ["a decimal(18, 2)".toList, "'it''s, so'".toList, "[b,(c]".toList],
      Balanced false p ∧ Text.trim p = p ∧ p ≠ [] := by
    simp only [List.forall_mem_cons, List.not_mem_nil, false_implies, implies_true, and_true]
    exact ⟨⟨htype, by decide +kernel, by decide +kernel⟩,
      ⟨hliteral, by decide +kernel, by decide +kernel⟩,
      hbracketed, by decide +kernel, by decide +kernel⟩
  exact ⟨hjoined, hpieces, splitting_undoes_joining.1 _ _ hjoined hpieces⟩

end ProcCatalog.Sql
