import ProcCatalog.Value.Writer
import Mathlib

/-!
# Values without halves

A value holds half of a surrogate pair where one of its strings or keys does. Writing it adds no
half and drops none.
-/

namespace ProcCatalog

/-! ## Texts -/

namespace RawText

@[simp] theorem isWhole_raw (s : Text) : isWhole (Text.raw s) = true := by
  rw [isWhole, text?_raw, Option.isSome_some]

@[simp] theorem isWhole_nil : isWhole [] = true := rfl

theorem isWhole_cons (c : CodePoint) (s : RawText) :
    isWhole (c :: s) = (c.char?.isSome && isWhole s) := by
  cases c with
  | char c => cases h : text? s <;> simp [isWhole, text?, CodePoint.char?, h]
  | half place => simp [isWhole, text?, CodePoint.char?]

@[simp] theorem isWhole_append (s t : RawText) : isWhole (s ++ t) = (isWhole s && isWhole t) := by
  induction s with
  | nil => simp
  | cons c s ih => rw [List.cons_append, isWhole_cons, isWhole_cons, ih, Bool.and_assoc]

theorem isWhole_iff {s : RawText} : isWhole s = true ↔ ∃ t, s = Text.raw t := by
  constructor
  · intro h
    obtain ⟨t, ht⟩ := Option.isSome_iff_exists.mp h
    exact ⟨t, eq_raw_of_text? ht⟩
  · rintro ⟨t, rfl⟩
    exact isWhole_raw t

theorem lower_raw (s : Text) : lower (Text.raw s) = Text.raw (Text.lower s) := by
  suffices h : ∀ run s, lower.go run (Text.raw s) = Text.raw (Text.lower (run.reverse ++ s)) from
    h [] s
  intro run s
  induction s generalizing run with
  | nil => rw [List.append_nil]; rfl
  | cons c s ih =>
      rw [List.append_cons, ← List.reverse_cons]
      exact ih (c :: run)

end RawText

/-! ## Values -/

namespace Value

open RawText (isWhole_cons)

mutual

def isWhole : Value → Bool
  | str s => RawText.isWhole s
  | arr vs => itemsWhole vs
  | obj ms => membersWhole ms
  | _ => true

def itemsWhole : List Value → Bool
  | [] => true
  | v :: vs => v.isWhole && itemsWhole vs

def membersWhole : List (RawText × Value) → Bool
  | [] => true
  | (k, v) :: ms => RawText.isWhole k && v.isWhole && membersWhole ms

end

@[simp] theorem isWhole_writeString (s : RawText) :
    RawText.isWhole (writeString s) = RawText.isWhole s := by
  have hpoints : RawText.isWhole (s.flatMap writePoint) = RawText.isWhole s := by
    induction s with
    | nil => rfl
    | cons c s ih =>
        rw [List.flatMap_cons, RawText.isWhole_append, ih, isWhole_cons]
        cases c with
        | char c => exact congrArg (· && _) (RawText.isWhole_raw (writeChar c))
        | half place => rfl
  rw [writeString, isWhole_cons, RawText.isWhole_append, hpoints]
  simp [quote, CodePoint.char?, RawText.isWhole, RawText.text?]

mutual

theorem isWhole_chunksAt (depth : Nat) (v : Value) :
    RawText.isWhole (chunksAt depth v).flatten = v.isWhole := by
  cases v with
  | null => rfl
  | bool b => cases b <;> rfl
  | int n => simp [chunksAt, isWhole]
  | real x => simp [chunksAt, isWhole]
  | str s => simp [chunksAt, isWhole]
  | arr vs =>
      cases vs with
      | nil => rfl
      | cons v vs =>
          have hv := isWhole_chunksAt (depth + 1) v
          have hvs := isWhole_itemChunks (depth + 1) vs
          simp [chunksAt, flatten_withGap, isWhole, itemsWhole, hv, hvs]
  | obj ms =>
      cases ms with
      | nil => rfl
      | cons m ms =>
          obtain ⟨k, v⟩ := m
          have hv := isWhole_chunksAt (depth + 1) v
          have hms := isWhole_memberChunks (depth + 1) ms
          simp [chunksAt, isWhole, membersWhole, hv, hms, Bool.and_assoc]

theorem isWhole_itemChunks (depth : Nat) (vs : List Value) :
    RawText.isWhole (itemChunks depth vs).flatten = itemsWhole vs := by
  cases vs with
  | nil => rfl
  | cons v vs =>
      have hv := isWhole_chunksAt depth v
      have hvs := isWhole_itemChunks depth vs
      simp [itemChunks, flatten_withGap, itemsWhole, hv, hvs]

theorem isWhole_memberChunks (depth : Nat) (ms : List (RawText × Value)) :
    RawText.isWhole (memberChunks depth ms).flatten = membersWhole ms := by
  cases ms with
  | nil => rfl
  | cons m ms =>
      obtain ⟨k, v⟩ := m
      have hv := isWhole_chunksAt depth v
      have hms := isWhole_memberChunks depth ms
      simp [memberChunks, membersWhole, hv, hms, Bool.and_assoc]

end

theorem isWhole_write (v : Value) : RawText.isWhole v.write = v.isWhole := isWhole_chunksAt 0 v

theorem isWhole_arr (vs : List Value) : (arr vs).isWhole = vs.all isWhole := by
  rw [isWhole]
  induction vs with
  | nil => rfl
  | cons v vs ih => rw [itemsWhole, ih, List.all_cons]

theorem isWhole_obj (ms : List (RawText × Value)) :
    (obj ms).isWhole = ms.all fun m => RawText.isWhole m.1 && m.2.isWhole := by
  rw [isWhole]
  induction ms with
  | nil => rfl
  | cons m ms ih => rw [membersWhole, ih, List.all_cons]

@[simp] theorem isWhole_arr_map {α : Type} (f : α → Value) (xs : List α) :
    (arr (xs.map f)).isWhole = xs.all fun x => (f x).isWhole := by
  rw [isWhole_arr, List.all_map]
  rfl

@[simp] theorem isWhole_obj_map {α : Type} (f : α → RawText × Value) (xs : List α) :
    (obj (xs.map f)).isWhole = xs.all fun x => RawText.isWhole (f x).1 && (f x).2.isWhole := by
  rw [isWhole_obj, List.all_map]
  rfl

@[simp] theorem isWhole_text (s : Text) : (text s).isWhole = true := by
  rw [text, isWhole, RawText.isWhole_raw]

@[simp] theorem isWhole_null : null.isWhole = true := rfl

@[simp] theorem isWhole_bool (b : Bool) : (bool b).isWhole = true := rfl

@[simp] theorem isWhole_int (n : Int) : (int n).isWhole = true := rfl

@[simp] theorem isWhole_obj_nil : (obj []).isWhole = true := rfl

end Value

end ProcCatalog
