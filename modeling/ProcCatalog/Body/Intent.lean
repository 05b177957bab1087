import ProcCatalog.Text.Lower
import ProcCatalog.Body.Profile

/-!
# Intent

What a procedure does to data. The words of its name decide first, by an ordered list of rules;
if none of them fits, the statements of the body decide.
-/

namespace ProcCatalog.Body

open Pattern

inductive Intent where
  | get
  | insert
  | update
  | delete
  | report
  | mixed
  deriving DecidableEq, Repr

namespace Intent

def all : List Intent := [get, insert, update, delete, report, mixed]

def label : Intent → String
  | get => "get"
  | insert => "insert"
  | update => "update"
  | delete => "delete"
  | report => "report"
  | mixed => "mixed"

end Intent

/-! ## By name -/

/-- A run of capitals, a word of small letters with or without its capital, or a number. -/
def nameWord : Pattern :=
  any [.seq (many1 Text.isAsciiUpper) (.notAhead (.one Text.isAsciiLower)),
    .seq (option (.one Text.isAsciiUpper)) (many1 Text.isAsciiLower), many1 Text.isDigit]

/-- The words of a name, in small letters: underscores and changes of case part them. -/
def nameWords (name : Text) : List Text :=
  ((Text.partsAt '_' name).flatMap nameWord.textsIn).map Text.lower

def nameRules : List (Intent × List String) := [
    (.report, ["report", "reports", "rpt", "summary", "dashboard", "stats", "statistics",
      "export", "analytics", "chart"]),
    (.get, ["get", "select", "fetch", "load", "find", "search", "list", "lookup", "read",
      "retrieve", "view"]),
    (.insert, ["insert", "ins", "add", "create", "new"]),
    (.update, ["update", "upd", "modify", "edit", "change"]),
    (.delete, ["delete", "remove", "purge"]),
    (.mixed, ["upsert", "merge", "sync", "import"])
  ]

def oneOfWords (words : List String) : Pattern :=
  Pattern.all [.wordEdge, Pattern.any (words.map fun w => Pattern.all (w.toList.map char)),
    .wordEdge]

def wordLine (name : Text) : Text := Text.joinWith [' '] (nameWords name)

def intentOfName? (name : Text) : Option Intent :=
  (nameRules.find? fun rule => (oneOfWords rule.2).occursIn (wordLine name)).map (·.1)

/-! ## By statements -/

def objectStart : Pattern := .one fun c => Text.isPlainLetter c || c == '_' || c == '['

def selectFrom : Pattern :=
  Pattern.all [wholePhrase ["SELECT"], .few fun _ => true, wholePhrase ["FROM"]]

def insertInto : Pattern :=
  Pattern.all [.wordEdge, keyword "INSERT", blanks1, option (.seq (keyword "INTO") blanks1),
    .notAhead (.seq (keyword "INTO") .wordEdge), objectStart]

def updateObject : Pattern :=
  Pattern.all [.wordEdge, keyword "UPDATE", blanks1,
    .notAhead (Pattern.any [.seq (keyword "STATISTICS") .wordEdge, .seq (keyword "OF") .wordEdge]),
    objectStart]

def deleteFrom : Pattern :=
  Pattern.all [.wordEdge, keyword "DELETE", blanks1, option (.seq (keyword "FROM") blanks1),
    .notAhead (.seq (keyword "FROM") .wordEdge), objectStart]

def mergeInto : Pattern :=
  Pattern.all [.wordEdge, keyword "MERGE", blanks1, option (.seq (keyword "INTO") blanks1),
    objectStart]

def groupBy : Pattern := wholePhrase ["GROUP", "BY"]

/-- The changes that a body makes to tables other than temporary ones, merges left aside. -/
def mutations (s : Text) : List Intent :=
  [(Intent.insert, insertInto), (.update, updateObject), (.delete, deleteFrom)].filterMap
    fun (intent, p) => if p.occursIn s then some intent else none

def intentOfBody (s : Text) : Intent :=
  let selects := selectFrom.occursIn s
  let merges := mergeInto.occursIn s
  match merges, mutations s with
  | true, _ => .mixed
  | false, [] =>
    if selects then (if groupBy.occursIn s then .report else .get) else .mixed
  | false, [intent] => intent
  | false, _ :: _ :: _ => .mixed

def intentOf (name s : Text) : Intent := (intentOfName? name).getD (intentOfBody s)

end ProcCatalog.Body
