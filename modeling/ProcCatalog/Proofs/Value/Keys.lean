import ProcCatalog.Proofs.Text.Order
import ProcCatalog.Value.Mapping

/-!
# Values as keys

Keys are compared as numbers, or else for being the same. Being one key is an equivalence among
values that can be keys.
-/

namespace ProcCatalog.Value

/-! ## Strings -/

def IsString (v : Value) : Prop := ∃ s, v = .str s

instance : DecidablePred IsString := fun v =>
  decidable_of_iff (v.text?.isSome = true) (by cases v <;> simp [IsString, text?])

/-! ## Sameness -/

/-- Two keys are the same if they stand for one number, or if they are equal. -/
theorem sameKey_iff {v w : Value} : v.sameKey w = true ↔
    (∃ n, v.asInt? = some n ∧ w.asInt? = some n) ∨
      v.asInt? = none ∧ v.isKey = true ∧ v = w := by
  unfold sameKey
  cases hv : v.asInt? with
  | some m =>
      cases hw : w.asInt? with
      | some n => simpa using eq_comm
      | none => simp
  | none =>
      cases hw : w.asInt? with
      | some n =>
          have hne : v ≠ w := fun h => by simp [← h, hv] at hw
          simp [hne]
      | none => cases v <;> cases w <;> simp_all [asInt?, isKey]

theorem sameKey_self {v : Value} (h : v.isKey = true) : v.sameKey v = true := by
  rw [sameKey_iff]
  cases hv : v.asInt? with
  | some n => exact .inl ⟨n, rfl, rfl⟩
  | none => exact .inr ⟨rfl, h, rfl⟩

theorem sameKey_symm {v w : Value} (h : v.sameKey w = true) : w.sameKey v = true := by
  obtain ⟨n, hv, hw⟩ | ⟨-, hkey, rfl⟩ := sameKey_iff.mp h
  · exact sameKey_iff.mpr (.inl ⟨n, hw, hv⟩)
  · exact sameKey_self hkey

theorem sameKey_comm (v w : Value) : v.sameKey w = w.sameKey v :=
  Bool.eq_iff_iff.mpr ⟨sameKey_symm, sameKey_symm⟩

theorem sameKey_trans {u v w : Value} (huv : u.sameKey v = true) (hvw : v.sameKey w = true) :
    u.sameKey w = true := by
  obtain ⟨m, hu, hv⟩ | ⟨-, -, rfl⟩ := sameKey_iff.mp huv
  · obtain ⟨n, hv', hw⟩ | ⟨hv', -, -⟩ := sameKey_iff.mp hvw
    · rw [hv, Option.some_inj] at hv'
      exact sameKey_iff.mpr (.inl ⟨n, hv' ▸ hu, hw⟩)
    · simp [hv] at hv'
  · exact hvw

theorem sameKey_str {s t : RawText} : (str s).sameKey (str t) = true ↔ s = t := by
  simp [sameKey, asInt?]

/-! ## What a value is as a key -/

/-- The number that a value stands for, or else what it is. -/
inductive Key where
  | number (n : Int)
  | null
  | real (x : RealNumber)
  | str (s : RawText)
  deriving DecidableEq, Repr

def key? (v : Value) : Option Key :=
  match v.asInt?, v with
  | some n, _ => some (.number n)
  | none, .null => some .null
  | none, .real x => some (.real x)
  | none, .str s => some (.str s)
  | none, _ => none

@[simp] theorem key?_str (s : RawText) : (str s).key? = some (.str s) := rfl

theorem isSome_key? (v : Value) : v.key?.isSome = v.isKey := by
  cases v with
  | real x => cases h : x.toInt? <;> simp [key?, asInt?, h, isKey]
  | _ => rfl

private theorem key?_eq_number {v : Value} {n : Int} :
    v.key? = some (.number n) ↔ v.asInt? = some n := by
  cases h : v.asInt? with
  | some m => simp [key?, h]
  | none => cases v <;> simp_all [key?, asInt?]

private theorem eq_of_key?_eq {v w : Value} (hnumber : v.asInt? = none) (hkey : v.isKey = true)
    (h : v.key? = w.key?) : v = w := by
  have hnumber' : w.asInt? = none := by
    cases hw : w.asInt? with
    | none => rfl
    | some n =>
        rw [key?_eq_number.mp (h.trans (key?_eq_number.mpr hw))] at hnumber
        cases hnumber
  cases v <;> cases w <;> simp_all [key?, asInt?, isKey]

/-- A value is the same key as another exactly if both stand for the same. -/
theorem sameKey_iff_key?_eq {v w : Value} {k : Key} (hv : v.key? = some k) :
    v.sameKey w = true ↔ w.key? = some k := by
  rw [sameKey_iff]
  constructor
  · rintro (⟨n, hn, hn'⟩ | ⟨-, -, rfl⟩)
    · obtain rfl := Option.some.inj (hv.symm.trans (key?_eq_number.mpr hn))
      exact key?_eq_number.mpr hn'
    · exact hv
  · intro hw
    cases hn : v.asInt? with
    | some n =>
        obtain rfl := Option.some.inj (hv.symm.trans (key?_eq_number.mpr hn))
        exact .inl ⟨n, rfl, key?_eq_number.mp hw⟩
    | none =>
        have hkey : v.isKey = true := by
          rw [← isSome_key?, hv]
          rfl
        exact .inr ⟨rfl, hkey, eq_of_key?_eq hn hkey (hv.trans hw.symm)⟩

/-! ## Sorting -/

theorem sorted_strings (strings : List RawText) :
    sorted (strings.map str) = .ok ((sortBy RawText.le strings).map str) := by
  have hall : (strings.map str).all (fun v => v.text?.isSome) = true := by
    simp [text?]
  rw [sorted, if_pos (.inr (.inl hall))]
  exact congrArg Except.ok (sortBy_map (fun _ _ => rfl) strings)

end ProcCatalog.Value
