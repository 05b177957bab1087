import ProcCatalog.Text.Basic

/-!
# Comments

A block comment is replaced by one space, which keeps the words around it apart; a line comment
is dropped up to its line feed. Block comments go first, and an opening mark without a closing
mark stands for itself.
-/

namespace ProcCatalog.Sql

/-- What follows the first closing mark. -/
def afterClosing? : Text → Option Text
  | [] => none
  | '*' :: '/' :: s => some s
  | _ :: s => afterClosing? s

theorem length_of_afterClosing? {s t : Text} (h : afterClosing? s = some t) :
    t.length < s.length := by
  fun_induction afterClosing? s with
  | case1 => simp at h
  | case2 s =>
    cases h
    simp only [List.length_cons]
    omega
  | case3 c s _ ih =>
    have := ih h
    simp only [List.length_cons]
    omega

def dropBlockComments (s : Text) : Text :=
  match s with
  | [] => []
  | '/' :: '*' :: r =>
    match h : afterClosing? r with
    | some t =>
      have : t.length < r.length := length_of_afterClosing? h
      ' ' :: dropBlockComments t
    | none => '/' :: dropBlockComments ('*' :: r)
  | c :: r => c :: dropBlockComments r
termination_by s.length

def dropLineComments (s : Text) : Text :=
  match s with
  | [] => []
  | '-' :: '-' :: r =>
    have : (r.dropWhile (· != '\n')).length < r.length + 1 + 1 := by
      have := (List.dropWhile_suffix (· != '\n') (l := r)).length_le
      omega
    dropLineComments (r.dropWhile (· != '\n'))
  | c :: r => c :: dropLineComments r
termination_by s.length

def stripComments (s : Text) : Text := dropLineComments (dropBlockComments s)

end ProcCatalog.Sql
