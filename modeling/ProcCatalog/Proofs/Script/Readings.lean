import ProcCatalog.Proofs.Script.Batches
import ProcCatalog.Proofs.Text.Lines

/-!
# One script in two readings

A script at hand is read by its lines of prose, a script from a source by its lines of a file. A
terminator of the second reading is one of the first. The first may have more of them, behind a
break that ends no line of a file, and it counts more lines. Both readings give the same batches and
blocks exactly if neither shows.
-/

namespace ProcCatalog.Script

/-! ## Groups of lines -/

/-- The lines of prose of one line of a file: none of them but the last, and of several lines not
the whole, is a terminator. -/
structure LineGroup (g : List Text) : Prop where
  nonempty : g ≠ []
  solid : ∀ l ∈ g, l ≠ []
  quiet : ∀ l ∈ g.dropLast, ¬ IsGo l
  whole : g.dropLast ≠ [] → ¬ IsGo g.flatten

/-- A terminator that is not a whole line of a file. -/
def Hides (g : List Text) : Prop := g.dropLast ≠ [] ∧ ∃ l ∈ g.getLast?, IsGo l

theorem not_hides_singleton (l : Text) : ¬ Hides [l] := fun h => h.1 rfl

/-- One line that is a terminator, several of which the last is one, or no terminator, neither in
the parts nor in the whole. -/
theorem LineGroup.cases {g : List Text} (h : LineGroup g) :
    (∃ l, g = [l] ∧ IsGo l) ∨
      (∃ front l, g = front ++ [l] ∧ front ≠ [] ∧ (∀ m ∈ front, ¬ IsGo m) ∧ IsGo l ∧
        ¬ IsGo g.flatten) ∨
      ((∀ l ∈ g, ¬ IsGo l) ∧ ¬ IsGo g.flatten) := by
  obtain ⟨front, l, rfl⟩ := (List.eq_nil_or_concat' g).resolve_left h.nonempty
  have hquiet : ∀ m ∈ front, ¬ IsGo m := by simpa using h.quiet
  have hwhole : front ≠ [] → ¬ IsGo (front ++ [l]).flatten := by simpa using h.whole
  by_cases hgo : IsGo l
  · by_cases hone : front = []
    · exact .inl ⟨l, by rw [hone, List.nil_append], hgo⟩
    · exact .inr (.inl ⟨front, l, rfl, hone, hquiet, hgo, hwhole hone⟩)
  · refine .inr (.inr ⟨?_, ?_⟩)
    · simpa [or_imp, forall_and] using ⟨hquiet, hgo⟩
    · by_cases hone : front = []
      · simpa [hone] using hgo
      · exact hwhole hone

theorem hides_append_singleton {front : List Text} {l : Text} (hne : front ≠ []) (h : IsGo l) :
    Hides (front ++ [l]) :=
  ⟨by simpa using hne, l, by simp, h⟩

theorem not_hides_of_quiet {g : List Text} (h : ∀ l ∈ g, ¬ IsGo l) : ¬ Hides g := by
  rintro ⟨-, l, hl, hgo⟩
  exact h l (List.mem_of_getLast? hl) hgo

private theorem batchesFrom_append_quiet {front rest : List Text} (h : ∀ l ∈ front, ¬ IsGo l)
    (start line : Nat) (kept : List Text) :
    batchesFrom start line kept (front ++ rest) =
      batchesFrom start (line + front.length) (front.reverse ++ kept) rest := by
  induction front generalizing line kept with
  | nil => rfl
  | cons l front ih =>
      rw [List.cons_append, batchesFrom_of_not_isGo (h l (by simp)),
        ih fun m hm => h m (by simp [hm])]
      simp [Nat.add_assoc, Nat.add_comm 1]

/-- The batch of another reading, in which the lines are numbered otherwise. -/
def Batch.renumber (number : Nat → Nat) (b : Batch) : Batch :=
  { b with startLine := number b.startLine }

/-- The lines kept so far are the same text in both readings. -/
private structure SameKept (fine coarse : List Text) : Prop where
  empty : fine.isEmpty = coarse.isEmpty
  text : fine.reverse.flatten = coarse.reverse.flatten

private theorem SameKept.nil : SameKept [] [] := ⟨rfl, rfl⟩

private theorem SameKept.push {fine coarse : List Text} (h : SameKept fine coarse)
    {g : List Text} (hg : g ≠ []) : SameKept (g.reverse ++ fine) (g.flatten :: coarse) := by
  refine ⟨by simp [hg], ?_⟩
  rw [List.reverse_append, List.reverse_reverse, List.flatten_append, h.text]
  simp

/-- While no group hides a terminator, the readings differ in the numbers of lines only. -/
private theorem batchesFrom_flatten {groups : List (List Text)} (number : Nat → Nat)
    (hgroups : ∀ g ∈ groups, LineGroup g) (hhides : ∀ g ∈ groups, ¬ Hides g)
    (start line line' : Nat) {fine coarse : List Text} (hkept : SameKept fine coarse)
    (hnumber : ∀ n, number (line + n) = line' + (groups.take n).flatten.length) :
    batchesFrom (number start) line' fine groups.flatten =
      (batchesFrom start line coarse (groups.map List.flatten)).map (.renumber number) := by
  induction groups generalizing start line line' fine coarse with
  | nil =>
      rw [List.flatten_nil, List.map_nil, batchesFrom, batchesFrom, hkept.empty, hkept.text]
      split <;> rfl
  | cons g groups ih =>
      have hg : LineGroup g := hgroups g (by simp)
      have hmore (n : Nat) : number (line + 1 + n) =
          line' + g.length + (groups.take n).flatten.length := by
        have := hnumber (n + 1)
        rw [List.take_succ_cons, List.flatten_cons, List.length_append] at this
        rw [Nat.add_assoc line, Nat.add_comm 1, this, Nat.add_assoc]
      have hrest := @ih (fun h hh => hgroups h (by simp [hh])) fun h hh => hhides h (by simp [hh])
      rw [List.flatten_cons, List.map_cons]
      obtain ⟨l, rfl, hgo⟩ | ⟨front, l, rfl, hne, -, hgo, -⟩ | ⟨hquiet, hwhole⟩ := hg.cases
      · have hnext : number (line + 1) = line' + 1 := by simpa using hmore 0
        have hrest := hrest (line + 1) _ _ .nil hmore
        rw [hnext] at hrest
        rw [List.flatten_singleton, List.singleton_append, batchesFrom_of_isGo hgo,
          batchesFrom_of_isGo hgo, List.map_cons, ← hrest]
        simp [Batch.renumber, hkept.text]
      · exact absurd (hides_append_singleton hne hgo) (hhides _ (by simp))
      · rw [batchesFrom_append_quiet hquiet, batchesFrom_of_not_isGo hwhole,
          hrest start _ _ (hkept.push hg.nonempty) hmore]

private theorem exists_batchesFrom_eq_cons {kept : List Text} (hkept : kept ≠ [])
    (start line : Nat) (ls : List Text) :
    ∃ b bs, batchesFrom start line kept ls = b :: bs ∧ kept.reverse.flatten <+: b.text := by
  induction ls generalizing line kept with
  | nil => exact ⟨⟨start, kept.reverse.flatten⟩, [], by simp [batchesFrom, hkept], List.prefix_rfl⟩
  | cons l ls ih =>
      rw [batchesFrom]
      split
      · exact ⟨_, _, rfl, List.prefix_rfl⟩
      · obtain ⟨b, bs, hbs, hprefix⟩ := ih (List.cons_ne_nil l kept) (line + 1)
        refine ⟨b, bs, hbs, .trans ?_ hprefix⟩
        simp

/-- Where a group hides a terminator, a batch of the second reading is longer. -/
private theorem not_hides_of_map_text_eq {groups : List (List Text)}
    (hgroups : ∀ g ∈ groups, LineGroup g) {start start' line line' : Nat}
    {fine coarse : List Text} (hkept : SameKept fine coarse)
    (h : (batchesFrom start' line' fine groups.flatten).map (·.text) =
      (batchesFrom start line coarse (groups.map List.flatten)).map (·.text)) :
    ∀ g ∈ groups, ¬ Hides g := by
  induction groups generalizing start start' line line' fine coarse with
  | nil => simp
  | cons g groups ih =>
      have hg : LineGroup g := hgroups g (by simp)
      have ih := @ih fun h hh => hgroups h (by simp [hh])
      rw [List.flatten_cons, List.map_cons] at h
      rw [List.forall_mem_cons]
      obtain ⟨l, rfl, hgo⟩ | ⟨front, l, rfl, -, hquiet, hgo, hwhole⟩ | ⟨hquiet, hwhole⟩ := hg.cases
      · rw [List.flatten_singleton, List.singleton_append, batchesFrom_of_isGo hgo,
          batchesFrom_of_isGo hgo, List.map_cons, List.map_cons, List.cons.injEq] at h
        exact ⟨not_hides_singleton l, ih .nil h.2⟩
      · -- the batch ends in front of the last line in one reading and holds it in the other
        exfalso
        obtain ⟨b, bs, hbs, hprefix⟩ := exists_batchesFrom_eq_cons
          (List.cons_ne_nil (front ++ [l]).flatten coarse) start (line + 1)
          (groups.map List.flatten)
        rw [List.append_assoc, List.singleton_append, batchesFrom_append_quiet hquiet,
          batchesFrom_of_isGo hgo, batchesFrom_of_not_isGo hwhole, hbs, List.map_cons,
          List.map_cons, List.cons.injEq] at h
        have hlength := hprefix.length_le
        rw [← h.1, List.reverse_cons, List.flatten_append, ← hkept.text] at hlength
        have hnil : l = [] := by simpa [Nat.add_assoc] using hlength
        exact hg.solid l (by simp) hnil
      · rw [batchesFrom_append_quiet hquiet, batchesFrom_of_not_isGo hwhole] at h
        exact ⟨not_hides_of_quiet hquiet, ih (hkept.push hg.nonempty) h⟩

/-! ## The lines of a text -/

theorem IsGo.not_stray {l : Text} (h : IsGo l) : ∀ x ∈ l, Text.isStrayBreak x = false := by
  obtain ⟨word, gap, feeds, rfl, hword, hgap, hfeeds⟩ := h
  intro x hx
  rcases List.mem_append.mp hx with hx | hx
  · have hblank := Text.isBlank_eq_false_of_isWord (hword.isWord rfl x hx)
    cases hstray : Text.isStrayBreak x with
    | false => rfl
    | true => rw [Text.isBlank_of_isStrayBreak hstray] at hblank; exact absurd hblank (by decide)
  · rcases List.mem_append.mp hx with hx | hx
    · rcases hgap x hx with rfl | rfl | rfl <;> rfl
    · rw [hfeeds x hx]
      rfl

section

variable {t f : Text}

theorem lineGroup_lines (hf : f ∈ Text.fileLines t) : LineGroup (Text.lines f) := by
  have hflat : (Text.lines f).flatten = f := Text.flatten_lines f
  have hstray {l : Text} (hl : l ∈ (Text.lines f).dropLast) :
      ∃ x ∈ l, Text.isStrayBreak x = true := by
    obtain ⟨x, hx, hstray⟩ := Text.stray_of_mem_dropLast_lines hf hl
    exact ⟨x, List.mem_of_getLast? hx, hstray⟩
  refine ⟨Text.lines_ne_nil hf, fun l => Text.ne_nil_of_mem_lines, fun l hl hgo => ?_,
    fun hne hgo => ?_⟩
  · obtain ⟨x, hx, hstray⟩ := hstray hl
    simp [hgo.not_stray x hx] at hstray
  · obtain ⟨l, hl⟩ := List.exists_mem_of_ne_nil _ hne
    obtain ⟨x, hx, hstray⟩ := hstray hl
    have hmem := List.mem_flatten.mpr ⟨l, List.mem_of_mem_dropLast hl, hx⟩
    simp [hgo.not_stray x hmem] at hstray

theorem hides_lines_iff (hf : f ∈ Text.fileLines t) :
    Hides (Text.lines f) ↔ ∃ l ∈ Text.lines f, IsGo l ∧ l ≠ f := by
  have hflat : (Text.lines f).flatten = f := Text.flatten_lines f
  obtain ⟨l, hl, -⟩ | ⟨front, l, hl, hne, -, hgo, hwhole⟩ | ⟨hquiet, -⟩ :=
    (lineGroup_lines hf).cases
  · rw [hl, List.flatten_singleton] at hflat
    simp [hl, hflat, not_hides_singleton]
  · refine iff_of_true (hl ▸ hides_append_singleton hne hgo) ⟨l, by simp [hl], hgo, ?_⟩
    rintro rfl
    exact hwhole (by rwa [hflat])
  · refine iff_of_false (not_hides_of_quiet hquiet) ?_
    rintro ⟨l, hl, hgo, -⟩
    exact hquiet l hl hgo

/-- The number of the line of prose with which a line of a file begins. -/
def proseLine (t : Text) (n : Nat) : Nat :=
  1 + (((Text.fileLines t).take (n - 1)).flatMap Text.lines).length

theorem batches_lines (h : ∀ f ∈ Text.fileLines t, ¬ Hides (Text.lines f)) :
    batches (Text.lines t) = (batches (Text.fileLines t)).map (.renumber (proseLine t)) := by
  have hflatten : ((Text.fileLines t).map Text.lines).map List.flatten = Text.fileLines t := by
    simp [Function.comp_def, Text.flatten_lines]
  have hgroups : ∀ g ∈ (Text.fileLines t).map Text.lines, LineGroup g := by
    simpa using fun f hf => lineGroup_lines hf
  have hbatches := batchesFrom_flatten (proseLine t) hgroups (by simpa using h) 1 1 1 .nil
    fun n => by simp [proseLine, List.flatMap_def, List.map_take]
  rw [hflatten, ← List.flatMap_def, ← Text.lines_eq_flatMap_fileLines] at hbatches
  exact hbatches

theorem not_hides_lines
    (h : (batches (Text.lines t)).map (·.text) = (batches (Text.fileLines t)).map (·.text)) :
    ∀ f ∈ Text.fileLines t, ¬ Hides (Text.lines f) := by
  have hflatten : ((Text.fileLines t).map Text.lines).map List.flatten = Text.fileLines t := by
    simp [Function.comp_def, Text.flatten_lines]
  have hbatches : (batchesFrom 1 1 [] ((Text.fileLines t).map Text.lines).flatten).map (·.text) =
      (batchesFrom 1 1 [] (((Text.fileLines t).map Text.lines).map List.flatten)).map (·.text) := by
    rw [hflatten, ← List.flatMap_def, ← Text.lines_eq_flatMap_fileLines]
    exact h
  simpa using not_hides_of_map_text_eq (by simpa using fun f hf => lineGroup_lines hf) .nil hbatches

end

/-! ## Where a block begins -/

private theorem startLine_of_mem_batchesFrom {start line : Nat} {kept ls : List Text}
    (hpos : 1 ≤ start) (hle : start ≤ line) (hlt : kept ≠ [] → start < line) {b : Batch}
    (hb : b ∈ batchesFrom start line kept ls) :
    1 ≤ b.startLine ∧ b.startLine < line + ls.length := by
  induction ls generalizing start line kept with
  | nil =>
      rw [batchesFrom] at hb
      split at hb
      · simp at hb
      · rename_i hne
        obtain rfl := List.mem_singleton.mp hb
        exact ⟨hpos, by simpa using hlt (by simpa using hne)⟩
  | cons l ls ih =>
      rw [List.length_cons]
      rw [batchesFrom] at hb
      split at hb
      · rcases List.mem_cons.mp hb with rfl | hb
        · exact ⟨hpos, by simp only; omega⟩
        · have := ih (by omega) (le_refl _) (by simp) hb
          omega
      · have := ih hpos (by omega) (by intro; omega) hb
        omega

theorem startLine_of_mem_batches {ls : List Text} {b : Batch} (hb : b ∈ batches ls) :
    1 ≤ b.startLine ∧ b.startLine ≤ ls.length := by
  have := startLine_of_mem_batchesFrom (le_refl 1) (le_refl 1) (by simp) hb
  omega

private theorem length_flatMap_lines {fs : List Text} (hfs : ∀ f ∈ fs, Text.lines f ≠ []) :
    fs.length ≤ (fs.flatMap Text.lines).length ∧
      ((fs.flatMap Text.lines).length = fs.length ↔ ∀ f ∈ fs, Text.lines f = [f]) := by
  induction fs with
  | nil => simp
  | cons f fs ih =>
      obtain ⟨hle, hiff⟩ := ih fun g hg => hfs g (by simp [hg])
      have hf : 0 < (Text.lines f).length := List.length_pos_iff.mpr (hfs f (by simp))
      have hone : (Text.lines f).length = 1 ↔ Text.lines f = [f] := by
        rw [List.length_eq_one_iff]
        constructor
        · rintro ⟨l, hl⟩
          have hflat : (Text.lines f).flatten = f := Text.flatten_lines f
          rw [hl] at hflat ⊢
          simpa using hflat
        · exact fun h => ⟨f, h⟩
      rw [List.flatMap_cons, List.length_append, List.length_cons, List.forall_mem_cons, ← hone,
        ← hiff]
      omega

theorem proseLine_eq_iff {t : Text} {b : Batch} (hb : b ∈ batches (Text.fileLines t)) :
    proseLine t b.startLine = b.startLine ↔
      ∀ f ∈ (Text.fileLines t).take (b.startLine - 1), Text.lines f = [f] := by
  obtain ⟨hpos, hle⟩ := startLine_of_mem_batches hb
  rw [← (length_flatMap_lines fun f hf => Text.lines_ne_nil (List.mem_of_mem_take hf)).2,
    proseLine, List.length_take]
  omega

theorem procedureBlocks_renumber_iff (number : Nat → Nat) (bs : List Batch) :
    procedureBlocks (bs.map (.renumber number)) = procedureBlocks bs ↔
      ∀ b ∈ bs, CreatesProcedure b → number b.startLine = b.startLine := by
  have hblocks : procedureBlocks (bs.map (.renumber number)) =
      (bs.zipIdx.filter fun b => decide (CreatesProcedure b.1)).map
        fun b => blockAt (b.1.renumber number) b.2 := by
    rw [procedureBlocks, List.zipIdx_map, List.filter_map, List.map_map]
    rfl
  rw [hblocks, procedureBlocks, List.map_inj_left]
  constructor
  · intro h b hb hcreates
    obtain ⟨i, hi, rfl⟩ := List.getElem_of_mem hb
    have := h (bs[i], i) (by simp [List.mem_filter, List.mem_zipIdx_iff_getElem?, hi, hcreates])
    simpa [blockAt, Batch.renumber] using this
  · rintro h ⟨b, i⟩ hb
    obtain ⟨hmem, hcreates⟩ := List.mem_filter.mp hb
    have := h b (List.fst_mem_of_mem_zipIdx hmem) (by simpa using hcreates)
    simp [blockAt, Batch.renumber, this]

/-! ## Agreement -/

/-- What makes the two readings of a script agree. -/
structure ReadsAlike (t : Text) : Prop where
  /-- A line of prose that is a terminator is a whole line of the file. -/
  terminators : ∀ f ∈ Text.fileLines t, ∀ l ∈ Text.lines f, IsGo l → l = f
  /-- In front of a procedure, every line of the file is one line of prose. -/
  heads : ∀ b ∈ batches (Text.fileLines t), CreatesProcedure b →
    ∀ f ∈ (Text.fileLines t).take (b.startLine - 1), Text.lines f = [f]

instance : DecidablePred ReadsAlike := fun t =>
  decidable_of_iff
    ((∀ f ∈ Text.fileLines t, ∀ l ∈ Text.lines f, IsGo l → l = f) ∧
      ∀ b ∈ batches (Text.fileLines t), CreatesProcedure b →
        ∀ f ∈ (Text.fileLines t).take (b.startLine - 1), Text.lines f = [f])
    ⟨fun h => ⟨h.1, h.2⟩, fun h => ⟨h.1, h.2⟩⟩

/-- Both readings give the same batches, up to the numbers of lines, and the same blocks exactly if
no break inside a line of the file makes a terminator or stands in front of a procedure. -/
theorem split_eq_splitLines_fileLines_iff (splitter : Splitter) (t : Text) :
    (batches (Text.lines t)).map (·.text) = (batches (Text.fileLines t)).map (·.text) ∧
        splitter.split t = splitter.splitLines (Text.fileLines t) ↔
      ReadsAlike t := by
  have hterminators : (∀ f ∈ Text.fileLines t, ¬ Hides (Text.lines f)) ↔
      ∀ f ∈ Text.fileLines t, ∀ l ∈ Text.lines f, IsGo l → l = f := by
    refine forall₂_congr fun f hf => ?_
    rw [hides_lines_iff hf]
    simp
  have hheads (hhides : ∀ f ∈ Text.fileLines t, ¬ Hides (Text.lines f)) :
      splitter.split t = splitter.splitLines (Text.fileLines t) ↔
        ∀ b ∈ batches (Text.fileLines t), CreatesProcedure b →
          ∀ f ∈ (Text.fileLines t).take (b.startLine - 1), Text.lines f = [f] := by
    have hblocks : splitter.split t = splitter.splitLines (Text.fileLines t) ↔
        procedureBlocks ((batches (Text.fileLines t)).map (.renumber (proseLine t))) =
          procedureBlocks (batches (Text.fileLines t)) := by
      rw [Splitter.split, Splitter.splitLines, Splitter.splitLines, blocks_eq, blocks_eq,
        batches_lines hhides, Prod.mk.injEq, List.length_map]
      exact and_iff_left_of_imp fun h => by rw [h]
    rw [hblocks, procedureBlocks_renumber_iff]
    exact forall₂_congr fun b hb => imp_congr_right fun _ => proseLine_eq_iff hb
  constructor
  · rintro ⟨htexts, hsplit⟩
    have hhides := not_hides_lines htexts
    exact ⟨hterminators.mp hhides, (hheads hhides).mp hsplit⟩
  · intro h
    have hhides := hterminators.mpr h.terminators
    refine ⟨?_, (hheads hhides).mpr h.heads⟩
    rw [batches_lines hhides, List.map_map]
    rfl

/-- A text whose lines end with line feeds and carriage returns only is read alike. -/
theorem readsAlike_of_no_stray {t : Text} (h : ∀ c ∈ t, Text.isStrayBreak c = false) :
    ReadsAlike t := by
  have hone : ∀ f ∈ Text.fileLines t, Text.lines f = [f] := by
    intro f hf
    refine Text.lines_eq_singleton hf fun c hc => h c ?_
    rw [← Text.flatten_fileLines t]
    exact List.mem_flatten.mpr ⟨f, hf, hc⟩
  refine ⟨fun f hf l hl _ => ?_, fun b _ _ f hf => hone f (List.mem_of_mem_take hf)⟩
  simpa [hone f hf] using hl

end ProcCatalog.Script
