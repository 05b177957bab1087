import ProcCatalog.Fault

/-!
# Printed items

A report is a row of items for the console: texts, panels and tables. Texts may hold markup in
square brackets. A fault ends a report behind the items that were printed before it.
-/

namespace ProcCatalog.Report

inductive Justify where
  | left
  | right
  deriving DecidableEq, Repr

def Justify.label : Justify → String
  | left => "left"
  | right => "right"

structure Column where
  header : String
  justify : Justify := .left
  deriving DecidableEq, Repr

inductive Item where
  | text (content : RawText)
  | panel (content : RawText) (title : Option String) (style : String)
  | table (title : Text) (columns : List Column) (rows : List (List RawText))
  deriving DecidableEq, Repr

structure Printout where
  items : List Item := []
  fault : Option Fault := none
  deriving DecidableEq, Repr

namespace Printout

def ofItem (item : Item) : Printout := ⟨[item], none⟩

def ofOutcome : Outcome (List Item) → Printout
  | .ok items => ⟨items, none⟩
  | .error fault => ⟨[], some fault⟩

/-- Prints the second part unless the first ends in a fault. -/
def andThen (p q : Printout) : Printout :=
  match p.fault with
  | some _ => p
  | none => ⟨p.items ++ q.items, q.fault⟩

def concat (ps : List Printout) : Printout := ps.foldr andThen {}

def toOutcome (p : Printout) : Outcome (List Item) :=
  match p.fault with
  | some fault => .error fault
  | none => .ok p.items

end Printout

end ProcCatalog.Report
