import ProcCatalog.Proofs.Pattern.Spans
import ProcCatalog.Script.Block

/-!
# The batches of a script

The terminators of a script part its lines: a batch holds what stands strictly between two of them,
and what stands behind the last one is a batch if it is not empty. A splitter keeps the batches
that create a procedure and counts all of them.
-/

namespace ProcCatalog.Script

open Pattern

/-! ## Terminators -/

/-- The word GO in either case, then spaces, tabs and carriage returns, then line feeds. -/
def IsGo (line : Text) : Prop :=
  ∃ word gap feeds, line = word ++ (gap ++ feeds) ∧ Spells "GO".toList word ∧
    (∀ c ∈ gap, c = ' ' ∨ c = '\t' ∨ c = '\r') ∧ ∀ c ∈ feeds, c = '\n'

theorem isTerminator_iff {line : Text} : isTerminator line = true ↔ IsGo line := by
  constructor
  · intro h
    obtain ⟨feeds, hline, hfeeds⟩ := Text.exists_trimEndWith (· == '\n') line
    rw [isTerminator] at h
    split at h
    · rename_i g o gap htrim
      simp only [Bool.and_eq_true, List.all_eq_true, Bool.or_eq_true, beq_iff_eq, or_assoc] at h
      refine ⟨[g, o], gap, feeds, ?_, .cons h.1.1 (.cons h.1.2 .nil), h.2, ?_⟩
      · simpa [htrim] using hline
      · simpa using hfeeds
    · simp at h
  · rintro ⟨word, gap, feeds, rfl, _ | ⟨hg, _ | ⟨ho, _ | _⟩⟩, hgap, hfeeds⟩
    rename_i g o
    have hlast : ∀ c ∈ ([g, o] ++ gap).getLast?, c ≠ '\n' := by
      intro c hc
      rw [List.getLast?_append] at hc
      rintro rfl
      cases hgapLast : gap.getLast? with
      | none =>
          obtain rfl : o = '\n' := by simpa [hgapLast] using hc
          exact absurd ho (by decide)
      | some x =>
          obtain rfl : x = '\n' := by simpa [hgapLast] using hc
          exact absurd (hgap '\n' (List.mem_of_getLast? hgapLast)) (by decide)
    rw [← List.append_assoc, isTerminator,
      Text.trimEndWith_append (by simpa using hlast) (by simpa using hfeeds)]
    simp only [List.cons_append, List.nil_append, Bool.and_eq_true, List.all_eq_true,
      Bool.or_eq_true, beq_iff_eq, or_assoc]
    exact ⟨⟨hg, ho⟩, hgap⟩

instance : DecidablePred IsGo := fun _ => decidable_of_iff _ isTerminator_iff

def terminators (lines : List Text) : List Nat := lines.findIdxs fun l => decide (IsGo l)

/-! ## Batches -/

/-- The lines from one place up to another, both counted from zero. -/
def batchBetween (lines : List Text) (start stop : Nat) : Batch :=
  ⟨start + 1, ((lines.take stop).drop start).flatten⟩

/-- One batch up to each of some places, which it leaves out, and one behind the last of them if a
line stands there. -/
def partedFrom (lines : List Text) (start : Nat) : List Nat → List Batch
  | [] => if start < lines.length then [batchBetween lines start lines.length] else []
  | stop :: stops => batchBetween lines start stop :: partedFrom lines (stop + 1) stops

def parted (lines : List Text) : List Batch := partedFrom lines 0 (terminators lines)

theorem batchesFrom_of_isGo {l : Text} (h : IsGo l) (start line : Nat) (kept ls : List Text) :
    batchesFrom start line kept (l :: ls) =
      ⟨start, kept.reverse.flatten⟩ :: batchesFrom (line + 1) (line + 1) [] ls := by
  rw [batchesFrom, if_pos (isTerminator_iff.mpr h)]

theorem batchesFrom_of_not_isGo {l : Text} (h : ¬ IsGo l) (start line : Nat)
    (kept ls : List Text) :
    batchesFrom start line kept (l :: ls) = batchesFrom start (line + 1) (l :: kept) ls := by
  rw [batchesFrom, if_neg (by rwa [isTerminator_iff])]

private theorem batchBetween_eq {lines kept rest : List Text} {start : Nat}
    (h : lines.drop start = kept.reverse ++ rest) :
    batchBetween lines start (start + kept.length) = ⟨start + 1, kept.reverse.flatten⟩ := by
  rw [batchBetween, List.drop_take, h, Nat.add_sub_cancel_left, List.take_left']
  rw [List.length_reverse]

/-- The lines since the last terminator are kept, and all lines behind it are kept or to come. -/
private theorem batchesFrom_eq (lines rest : List Text) (start : Nat) (kept : List Text)
    (h : lines.drop start = kept.reverse ++ rest)
    (hlength : lines.length = start + kept.length + rest.length) :
    batchesFrom (start + 1) (start + kept.length + 1) kept rest =
      partedFrom lines start (rest.findIdxs (fun l => decide (IsGo l)) (start + kept.length)) := by
  induction rest generalizing start kept with
  | nil =>
      rw [List.length_nil, Nat.add_zero] at hlength
      rw [batchesFrom, List.findIdxs_nil, partedFrom, hlength, batchBetween_eq h]
      cases kept <;> simp
  | cons l rest ih =>
      rw [List.length_cons] at hlength
      rw [List.findIdxs_cons]
      by_cases hgo : IsGo l
      · have hnext : lines.drop (start + kept.length + 1) = rest := by
          rw [Nat.add_assoc, ← List.drop_drop, h, ← List.drop_drop, List.drop_left']
          · rfl
          · rw [List.length_reverse]
        have hmore := ih (start + kept.length + 1) [] (by simpa using hnext)
          (by rw [List.length_nil]; omega)
        rw [List.length_nil, Nat.add_zero] at hmore
        rw [batchesFrom_of_isGo hgo, if_pos (decide_eq_true hgo), partedFrom, batchBetween_eq h,
          hmore]
      · have hmore := ih start (l :: kept) (by simpa using h)
          (by rw [List.length_cons]; omega)
        rw [List.length_cons, ← Nat.add_assoc] at hmore
        rw [batchesFrom_of_not_isGo hgo, if_neg (by simpa using hgo), hmore]

/-- A batch is what stands strictly between two terminators. -/
theorem batches_eq_parted (lines : List Text) : batches lines = parted lines := by
  have h := batchesFrom_eq lines lines 0 [] rfl (by simp)
  simpa [parted, terminators, batches] using h

/-! ## Blocks -/

def CreatesProcedure (b : Batch) : Prop :=
  Text.trim b.text ≠ [] ∧ isProcedureBlock (Text.trim b.text) = true

instance : DecidablePred CreatesProcedure := fun _ => inferInstanceAs (Decidable (_ ∧ _))

def blockAt (b : Batch) (place : Nat) : Block := ⟨Text.trim b.text, place, b.startLine⟩

theorem blockOf?_eq (b : Batch) (place : Nat) :
    blockOf? b place = if CreatesProcedure b then some (blockAt b place) else none := by
  by_cases h : CreatesProcedure b
  · have hboth : (!(Text.trim b.text).isEmpty && isProcedureBlock (Text.trim b.text)) = true := by
      simpa [CreatesProcedure] using h
    simp only [blockOf?, hboth, if_pos h, if_true, blockAt]
  · have hnot : ¬ (!(Text.trim b.text).isEmpty && isProcedureBlock (Text.trim b.text)) = true := by
      simpa [CreatesProcedure] using h
    simp only [blockOf?, hnot, if_neg h, Bool.false_eq_true, if_false]

def procedureBlocks (bs : List Batch) : List Block :=
  (bs.zipIdx.filter fun b => decide (CreatesProcedure b.1)).map fun b => blockAt b.1 b.2

theorem blocks_eq (bs : List Batch) : blocks bs = procedureBlocks bs := by
  simp only [blocks, procedureBlocks, blockOf?_eq]
  induction bs.zipIdx with
  | nil => rfl
  | cons b bs ih =>
      rw [List.filterMap_cons, List.filter_cons, ih]
      by_cases h : CreatesProcedure b.1
      · simp only [h, if_true, decide_true, List.map_cons]
      · simp only [h, if_false, decide_false, Bool.false_eq_true]

/-- Splitting parts the lines at their terminators, keeps in order the parts that create a
procedure, and counts the parts and the blocks. -/
theorem splitLines_eq (splitter : Splitter) (lines : List Text) :
    batches lines = parted lines ∧
      splitter.splitLines lines =
        (procedureBlocks (parted lines),
          { batchesSeen := splitter.batchesSeen + (parted lines).length
            blocksFound := splitter.blocksFound + (procedureBlocks (parted lines)).length }) := by
  refine ⟨batches_eq_parted lines, ?_⟩
  rw [← blocks_eq, ← batches_eq_parted]
  rfl

/-- Two terminators in a row and one at either end: every batch between them is there, though only
one creates a procedure. -/
example :
    parted ["go
".toList, "SELECT 1
".toList, "GO 
".toList, "Go".toList] =
      [⟨1, []⟩, ⟨2, "SELECT 1
".toList⟩, ⟨4, []⟩] := by
  decide +kernel

end ProcCatalog.Script
