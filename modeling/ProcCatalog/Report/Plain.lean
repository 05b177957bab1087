import ProcCatalog.Report.Item

/-!
# Items as plain text

For a console without colours: markup is dropped, a panel is its title and its content, and a table
has one line per row with tabs between the cells. Half of a surrogate pair is shown as the
replacement character.
-/

namespace ProcCatalog.Report

def isStyleChar (c : Char) : Bool := ('a' ≤ c && c ≤ 'z') || c == ' ' || c == '/'

/-- What follows a style in square brackets, if one stands at the front. -/
def afterStyle? (s : Text) : Option Text :=
  match s with
  | '[' :: r =>
    match r.dropWhile isStyleChar with
    | ']' :: rest => if r.head? = some ']' then none else some rest
    | _ => none
  | _ => none

/-- Drops styles in square brackets behind the next `skip` characters. -/
def dropMarkup (skip : Nat) : Text → Text
  | [] => []
  | c :: s =>
    match skip with
    | skip + 1 => dropMarkup skip s
    | 0 =>
      match afterStyle? (c :: s) with
      | some rest => dropMarkup (s.length - rest.length) s
      | none => c :: dropMarkup 0 s

/-- A text without markup, as it can be shown. -/
def plain (s : RawText) : Text := dropMarkup 0 (s.map fun c => c.char?.getD (Char.ofNat 0xfffd))

def Item.plainLines : Item → List Text
  | .text content => [plain content]
  | .panel content title _ =>
    (title.elim [] fun t => ["== ".toList ++ t.toList ++ " ==".toList]) ++ [plain content]
  | .table title columns rows =>
    ("== ".toList ++ title ++ " ==".toList) ::
      Text.joinWith ['\t'] (columns.map fun c => c.header.toList) ::
      rows.map fun row => Text.joinWith ['\t'] (row.map plain)

end ProcCatalog.Report
