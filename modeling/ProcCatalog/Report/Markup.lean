import ProcCatalog.Value.Basic

/-!
# Colours and shortened texts
-/

namespace ProcCatalog.Report

def tierColors : List (String × String) := [
    ("very-complex", "bold red"), ("complex", "red"), ("moderate", "yellow"),
    ("simple", "cyan"), ("trivial", "dim")
  ]

def intentColors : List (String × String) := [
    ("get", "green"), ("insert", "blue"), ("update", "yellow"), ("delete", "red"),
    ("report", "magenta"), ("mixed", "white")
  ]

/-- The colour of a label; white if it has none. -/
def colorOf (colors : List (String × String)) (label : Text) : Text :=
  ((colors.lookup (String.ofList label)).getD "white").toList

def tierColor (label : Text) : Text := colorOf tierColors label

def intentColor (label : Text) : Text := colorOf intentColors label

def styled (style s : Text) : Text := '[' :: style ++ ']' :: s ++ "[/]".toList

/-- Cuts a text that is too long and puts three dots behind it. -/
def shortened (limit : Int) (s : RawText) : RawText :=
  if (s.length : Int) ≤ limit then s else upTo (limit - 3) s ++ Text.raw "...".toList

/-- The names of the flags that are set, counts left aside. -/
def flagList (entries : List (RawText × Value)) : RawText :=
  Text.joinWith (Text.raw ", ".toList) (entries.filterMap fun
    | (name, .bool true) => some name
    | _ => none)

end ProcCatalog.Report
