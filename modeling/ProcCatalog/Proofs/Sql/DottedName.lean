import ProcCatalog.Proofs.Sql.QualifiedName

/-!
# Dotted names

A name is written as one to four identifiers with dots between them and blanks around the dots, so
it is a qualified name of a kind. Where it ends it is taken whole as the name of an object, and its
parts are the bare identifiers.
-/

namespace ProcCatalog.Sql

open Pattern

/-! ## Names as they are written -/

/-- A further part of a name, with the blanks on both sides of the dot in front of it. -/
structure FurtherPart where
  left : Text
  right : Text
  part : Identifier
  blank_left : ∀ x ∈ left, Text.isBlank x = true
  blank_right : ∀ x ∈ right, Text.isBlank x = true

def FurtherPart.dot (f : FurtherPart) : Text := f.left ++ '.' :: f.right

def FurtherPart.write (f : FurtherPart) : Text := f.dot ++ f.part.write

/-- A name of one to four parts. -/
structure DottedName where
  first : Identifier
  further : List FurtherPart
  short : further.length ≤ 3

namespace DottedName

def parts (n : DottedName) : List Identifier := n.first :: n.further.map FurtherPart.part

def write (n : DottedName) : Text := n.first.write ++ n.further.flatMap FurtherPart.write

def last (n : DottedName) : Identifier := n.parts.getLast (List.cons_ne_nil _ _)

end DottedName

/-! ### As qualified names -/

theorem isPlainTail_of_isNameTail {c : Char} (h : isNameTail c = true) : isPlainTail c = true :=
  NamePart.isPlainTail_iff.mpr
    ⟨ne_of_isNameTail h rfl, isBlank_eq_false_of_isNameTail h, isBracket_eq_false_of_isNameTail h⟩

def Identifier.toPart : Identifier → NamePart
  | .bracketed content => .bracketed content
  | .plain word _ =>
    .plain ⟨word.text, word.nonempty, word.forall_of fun _ => isPlainTail_of_isNameTail⟩

@[simp] theorem Identifier.bare_toPart (i : Identifier) : i.toPart.bare = i.bare := by
  cases i <;> rfl

@[simp] theorem Identifier.write_toPart (i : Identifier) : i.toPart.write = i.write := by
  cases i <;> rfl

def FurtherPart.toNext (f : FurtherPart) : NextPart :=
  ⟨f.left, f.right, f.part.toPart, f.blank_left, f.blank_right⟩

@[simp] theorem FurtherPart.write_toNext (f : FurtherPart) : f.toNext.write = f.write := by
  simp [toNext, NextPart.write, NextPart.dot, write, dot]

def DottedName.toQualified (n : DottedName) : QualifiedName :=
  ⟨n.first.toPart, n.further.map FurtherPart.toNext⟩

@[simp] theorem DottedName.write_toQualified (n : DottedName) : n.toQualified.write = n.write := by
  simp [toQualified, QualifiedName.write, write, List.flatMap_map]

theorem DottedName.parts_toQualified (n : DottedName) :
    n.toQualified.parts = n.parts.map Identifier.toPart := by
  simp [toQualified, QualifiedName.parts, parts, FurtherPart.toNext]

theorem DottedName.last_toQualified (n : DottedName) : n.toQualified.last = n.last.toPart := by
  have hlast : n.parts.getLast? = some n.last := List.getLast?_eq_some_getLast _
  have hqualified : n.toQualified.parts.getLast? = some n.toQualified.last :=
    List.getLast?_eq_some_getLast _
  rw [parts_toQualified, List.getLast?_map, hlast] at hqualified
  exact (Option.some.inj hqualified).symm

/-- Neither does a word go on in the text, nor a name with a further part. -/
structure EndsName (v : Text) : Prop where
  noTail : ∀ x ∈ v.head?, isNameTail x = false ∧ x ≠ ']'
  noDot : ∀ x ∈ (Text.trimStart v).head?, x ≠ '.'

theorem EndsName.nil : EndsName [] := ⟨by simp, by simp [Text.trimStart]⟩

/-! ## Taking a name -/

def furtherParts : Nat → Pattern
  | 0 => .empty
  | n + 1 => furtherPart (furtherParts n)

theorem objectName_eq : objectName = .seq identifier (furtherParts 3) := rfl

theorem FurtherPart.head?_flatMap_write (fs : List FurtherPart) {v : Text}
    (hv : ∀ x ∈ v.head?, isNameTail x = false) :
    ∀ x ∈ (fs.flatMap FurtherPart.write ++ v).head?, isNameTail x = false := by
  cases fs with
  | nil => exact hv
  | cons f fs =>
      intro x hx
      rw [List.flatMap_cons, List.append_assoc] at hx
      rcases f.toNext.head?_write _ x (by rwa [write_toNext]) with rfl | hblank
      · rfl
      · refine Bool.eq_false_iff.mpr fun htail => ?_
        rw [isBlank_eq_false_of_isNameTail htail] at hblank
        cases hblank

theorem not_begins_furtherPart (next : Pattern) (before : Option Char) {v : Text}
    (hv : ∀ x ∈ (Text.trimStart v).head?, x ≠ '.') :
    ¬ (all [blanks, char '.', blanks, identifier, next]).Begins before v := by
  rintro ⟨_, rest, rfl, blank, _, rfl, hblank, _, _, rfl, hdot, -⟩
  rw [spans_char.mp hdot, List.append_assoc, Text.trimStart_append hblank] at hv
  · exact hv '.' rfl rfl
  · rintro x ⟨⟩
    rfl

theorem takes_furtherParts {n : Nat} {fs : List FurtherPart} (hn : fs.length ≤ n) {v : Text}
    (hv : EndsName v) : Takes (furtherParts n) (fs.flatMap FurtherPart.write) v := by
  induction n generalizing fs with
  | zero =>
      obtain rfl : fs = [] := by simpa using hn
      exact takes_empty v
  | succ n ih =>
      cases fs with
      | nil =>
          intro c k r hs hk
          have hs : c.rest = v := hs
          rw [furtherParts, furtherPart, run_option_skip (run_eq_none_of_not_begins ?_)]
          · rwa [List.flatMap_nil, Cursor.past_nil hs] at hk
          · rw [hs]
            exact not_begins_furtherPart _ _ hv.noDot
      | cons f fs =>
          have hnext : Takes (furtherParts n) (fs.flatMap FurtherPart.write) v :=
            ih (by simpa using hn)
          have hpart : Takes identifier f.part.write (fs.flatMap FurtherPart.write ++ v) :=
            f.part.takes_identifier
              (FurtherPart.head?_flatMap_write fs fun x hx => (hv.noTail x hx).1)
          have hright : Takes blanks f.right (f.part.write ++ fs.flatMap FurtherPart.write ++ v) :=
            takes_many f.blank_right fun x hx => by
              rw [List.append_assoc] at hx
              exact (f.part.head?_write _ x hx).1
          have hleft : Takes blanks f.left (['.'] ++ (f.right ++ (f.part.write ++
              fs.flatMap FurtherPart.write)) ++ v) :=
            takes_many f.blank_left (by rintro x ⟨⟩; rfl)
          have hall := hleft.seq ((takes_char '.' _).seq (hright.seq (hpart.seq hnext.last)))
          have hwrite : (f :: fs).flatMap FurtherPart.write = f.left ++ (['.'] ++ (f.right ++
              (f.part.write ++ fs.flatMap FurtherPart.write))) := by
            simp [FurtherPart.write, FurtherPart.dot]
          rw [hwrite]
          exact hall.option

theorem DottedName.takes_objectName (name : DottedName) {v : Text} (hv : EndsName v) :
    Takes objectName name.write v := by
  rw [objectName_eq]
  refine (name.first.takes_identifier ?_).seq (takes_furtherParts name.short hv)
  exact FurtherPart.head?_flatMap_write _ fun x hx => (hv.noTail x hx).1

/-! ## The parts of a name -/

theorem DottedName.nameParts_write (name : DottedName) :
    nameParts name.write = name.parts.map Identifier.bare := by
  rw [← write_toQualified, QualifiedName.nameParts_write, parts_toQualified]
  simp

/-! ## Names in a schema -/

namespace Identifier

def qualify (schema name : Identifier) : Text := schema.write ++ '.' :: name.write

def qualified (schema name : Identifier) : DottedName :=
  ⟨schema, [⟨[], [], name, List.forall_mem_nil _, List.forall_mem_nil _⟩], by simp⟩

theorem write_qualified (schema name : Identifier) :
    (qualified schema name).write = qualify schema name := by
  simp [qualified, DottedName.write, FurtherPart.write, FurtherPart.dot, qualify]

theorem nameParts_qualify (schema name : Identifier) :
    nameParts (qualify schema name) = [schema.bare, name.bare] := by
  rw [← write_qualified, DottedName.nameParts_write]
  rfl

theorem takes_objectName_qualify (schema name : Identifier) :
    Takes objectName (qualify schema name) [] := by
  rw [← write_qualified]
  exact DottedName.takes_objectName _ .nil

end Identifier

end ProcCatalog.Sql
