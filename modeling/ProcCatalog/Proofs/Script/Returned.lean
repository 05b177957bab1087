import ProcCatalog.Proofs.Pattern.ReturnedSearch
import ProcCatalog.Script.Block

/-!
# Blocks of a script with carriage returns

A terminator line may end with a carriage return, and so may each line of a procedure. So a script
with carriage returns in front of line feeds has the batches and the blocks of the script without
them, at the same lines.
-/

namespace ProcCatalog.Script

open Text Pattern

variable {s s' line line' : Text} {ls ls' : List Text}

/-! ## Terminators -/

/-- A line feed stands at the end of the line only. -/
def EndsAtFeed (line : Text) : Prop := '\n' ∉ line.dropLast

private theorem endsAtFeed_of_mem {piece : Text} (hpiece : '\n' ∉ piece)
    (h : line ∈ linesFrom isLineBreak piece s) : EndsAtFeed line := by
  fun_induction linesFrom isLineBreak piece s with
  | case1 => simp at h
  | case2 piece _ =>
      obtain rfl : line = piece.reverse := by simpa using h
      exact fun hmem => hpiece (List.mem_reverse.mp (List.mem_of_mem_dropLast hmem))
  | case3 piece s ih =>
      rcases List.mem_cons.mp h with rfl | h
      · simp [EndsAtFeed, hpiece]
      · exact ih (by simp) h
  | case4 piece c s _ _ ih =>
      rcases List.mem_cons.mp h with rfl | h
      · simp [EndsAtFeed, hpiece]
      · exact ih (by simp) h
  | case5 piece c s _ hbreak ih =>
      refine ih ?_ h
      rw [List.mem_cons, not_or]
      refine ⟨?_, hpiece⟩
      rintro rfl
      exact hbreak rfl

theorem endsAtFeed_of_mem_lines (h : line ∈ lines s) : EndsAtFeed line :=
  endsAtFeed_of_mem (by simp) h

private theorem isTerminator_append_return (h : '\n' ∉ line) :
    isTerminator (line ++ ['\r', '\n']) = isTerminator (line ++ ['\n']) := by
  have hlast : ∀ x ∈ line.getLast?, (x == '\n') = false := by
    intro x hx
    rw [beq_eq_false_iff_ne]
    rintro rfl
    exact h (List.mem_of_getLast? hx)
  have hfeed : Text.trimEndWith (· == '\n') (line ++ ['\n']) = line :=
    trimEndWith_append hlast (by simp)
  have hreturn : Text.trimEndWith (· == '\n') (line ++ ['\r', '\n']) = line ++ ['\r'] := by
    have hsplit : line ++ ['\r', '\n'] = (line ++ ['\r']) ++ ['\n'] := by simp
    rw [hsplit]
    exact trimEndWith_append (by simp) (by simp)
  rw [isTerminator, isTerminator, hfeed, hreturn]
  match line with
  | [] => rfl
  | [g] => simp [show Text.sameLetter 'O' '\r' = false from rfl]
  | g :: o :: line => simp

theorem isTerminator_eq (hline : EndsAtFeed line) (h : Returned line line') :
    isTerminator line' = isTerminator line := by
  obtain rfl | ⟨body, x, rfl⟩ := List.eq_nil_or_concat line
  · rw [h.eq_nil_iff.mp rfl]
  · rw [List.concat_eq_append] at h hline ⊢
    have hbody : '\n' ∉ body := by simpa [EndsAtFeed] using hline
    obtain ⟨body', last, rfl, hbody', hlast⟩ := h.exists_append
    obtain rfl : body' = body := hbody'.eq_of_not_feed hbody
    cases hlast with
    | feed hnil =>
        cases hnil
        exact isTerminator_append_return hbody
    | char hx hnil =>
        cases hnil
        rfl

/-! ## Batches -/

structure Batch.Alike (b b' : Batch) : Prop where
  startLine : b'.startLine = b.startLine
  text : Returned b.text b'.text

private theorem returned_flatten (h : List.Forall₂ Returned ls ls') :
    Returned ls.flatten ls'.flatten := by
  induction h with
  | nil => exact .nil
  | cons hl _ ih => exact hl.append ih

private theorem forall₂_batchesFrom (hends : ∀ l ∈ ls, EndsAtFeed l)
    (h : List.Forall₂ Returned ls ls') {kept kept' : List Text}
    (hkept : List.Forall₂ Returned kept kept') (startLine line : Nat) :
    List.Forall₂ Batch.Alike (batchesFrom startLine line kept ls)
      (batchesFrom startLine line kept' ls') := by
  have hbatch {kept kept' : List Text} (hkept : List.Forall₂ Returned kept kept')
      (startLine : Nat) :
      Batch.Alike ⟨startLine, kept.reverse.flatten⟩ ⟨startLine, kept'.reverse.flatten⟩ :=
    ⟨rfl, returned_flatten (List.rel_reverse hkept)⟩
  induction h generalizing kept kept' startLine line with
  | nil =>
      rw [batchesFrom, batchesFrom]
      cases hkept with
      | nil => exact .nil
      | cons hl hls => exact .cons (hbatch (.cons hl hls) _) .nil
  | @cons l l' ls ls' hl _ ih =>
      have hmore : ∀ l ∈ ls, EndsAtFeed l := fun l hl => hends l (by simp [hl])
      rw [batchesFrom, batchesFrom, isTerminator_eq (hends l (by simp)) hl]
      split
      · exact .cons (hbatch hkept _) (ih hmore .nil _ _)
      · exact ih hmore (.cons hl hkept) _ _

theorem forall₂_batches (h : Returned s s') :
    List.Forall₂ Batch.Alike (batches (Text.lines s)) (batches (Text.lines s')) :=
  forall₂_batchesFrom (fun _ => endsAtFeed_of_mem_lines) h.lines .nil 1 1

/-! ## Blocks -/

structure Block.Alike (b b' : Block) : Prop where
  ordinal : b'.ordinal = b.ordinal
  startLine : b'.startLine = b.startLine
  text : Returned b.text b'.text

private theorem carries_blockStart :
    ∃ B, Carries false (fun _ => false) blockStart ⟨true, true, false⟩ B := by
  have hbreak : Carries false (fun _ => false) settingLine .unknown ⟨true, false, true⟩ :=
    carries_append [keyword "SET", blanks1, word1, blanks1, word1, blanks]
      [option (char '\r'), char '\n'] (carries_lineBreak carries_empty) (by decide +kernel)
  have hsettings : Carries false (fun _ => false) (.repeated settingLine) ⟨true, true, false⟩
      ⟨true, false, false⟩ := carries_repeated hbreak (by simp)
  have hrest : Carries false (fun _ => false)
      (all [blanks, createProcedure, .one Text.isBlank]) ⟨true, true, false⟩
      ⟨true, true, false⟩ := carries_of_ahead (by decide +kernel)
  have hcomment : Carries false (fun _ => false) (option leadingComment) ⟨true, false, false⟩
      ⟨true, false, false⟩ := carries_of_ahead (by decide +kernel)
  exact ⟨_, carries_seq hcomment (carries_seq hsettings hrest)⟩

theorem isProcedureBlock_eq (h : Returned s s') : isProcedureBlock s' = isProcedureBlock s := by
  obtain ⟨B, hB⟩ := carries_blockStart
  exact isSome_matchAt_eq hB (by simp) (.of_returned h 0 0)

theorem rel_blockOf? {b b' : Batch} (h : b.Alike b') (ordinal : Nat) :
    Option.Rel Block.Alike (blockOf? b ordinal) (blockOf? b' ordinal) := by
  have htext := h.text.trim
  rw [blockOf?, blockOf?]
  simp only [htext.isEmpty_eq, isProcedureBlock_eq htext]
  split
  · exact .some ⟨rfl, by rw [h.startLine], htext⟩
  · exact .none

theorem forall₂_blocks {bs bs' : List Batch} (h : List.Forall₂ Batch.Alike bs bs') :
    List.Forall₂ Block.Alike (blocks bs) (blocks bs') := by
  suffices hfrom : ∀ n, List.Forall₂ Block.Alike
      ((bs.zipIdx n).filterMap fun p => blockOf? p.1 p.2)
      ((bs'.zipIdx n).filterMap fun p => blockOf? p.1 p.2) from hfrom 0
  induction h with
  | nil => exact fun _ => .nil
  | @cons b b' bs bs' hb _ ih =>
      intro n
      have hblock := rel_blockOf? hb n
      rw [List.zipIdx_cons, List.zipIdx_cons, List.filterMap_cons, List.filterMap_cons]
      simp only []
      generalize blockOf? b n = x at hblock
      generalize blockOf? b' n = x' at hblock
      cases hblock with
      | none => exact ih _
      | some hblock => exact .cons hblock (ih _)

/-- A script with carriage returns has the blocks of the script without them, and as many
batches. -/
theorem forall₂_split (h : Returned s s') (splitter : Splitter) :
    List.Forall₂ Block.Alike (splitter.split s).1 (splitter.split s').1 ∧
      (splitter.split s').2 = (splitter.split s).2 := by
  have hbatches := forall₂_batches h
  have hblocks := forall₂_blocks hbatches
  refine ⟨hblocks, ?_⟩
  simp only [Splitter.split, Splitter.splitLines, hbatches.length_eq, hblocks.length_eq]

end ProcCatalog.Script
