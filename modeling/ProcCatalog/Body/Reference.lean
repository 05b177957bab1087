import ProcCatalog.Sql.Keyword
import ProcCatalog.Sql.ObjectName
import ProcCatalog.Body.Profile

/-!
# References

The tables a body reads or writes and the procedures it calls. A name of several parts counts as
it stands. A table name of one part counts only when a table of that name is known, and then in
the known spelling.
-/

namespace ProcCatalog.Body

open Pattern

/-! ## Known tables -/

/-- Known tables under their names in small letters; of several spellings the first is kept. -/
structure KnownTables where
  spellings : List (Text × Text)
  deriving DecidableEq, Repr

namespace KnownTables

def none : KnownTables := ⟨[]⟩

def add (known : KnownTables) (table : Text) : KnownTables :=
  if (known.spellings.lookup (Text.lower table)).isSome then known
  else ⟨known.spellings ++ [(Text.lower table, table)]⟩

def ofList (tables : List Text) : KnownTables := tables.foldl add none

def spelling? (known : KnownTables) (table : Text) : Option Text :=
  known.spellings.lookup (Text.lower table)

def isEmpty (known : KnownTables) : Bool := known.spellings.isEmpty

end KnownTables

/-! ## Tables -/

def tableVerb : Pattern :=
  any [keyword "FROM", keyword "JOIN",
    .seq (keyword "INSERT") (option (.seq blanks1 (keyword "INTO"))), keyword "UPDATE",
    .seq (keyword "DELETE") (option (.seq blanks1 (keyword "FROM"))),
    .seq (keyword "MERGE") (option (.seq blanks1 (keyword "INTO"))), phrase ["TRUNCATE", "TABLE"]]

def tableReference : Pattern :=
  all [.wordEdge, tableVerb, blanks1, .named "object" Sql.objectName, Sql.nameEnd]

def objectNames (p : Pattern) (s : Text) : List Text :=
  (p.findAll s).filterMap fun found => found.mark? "object"

def isTemporary (table : Text) : Bool := table.head? == some '\x23' || table.head? == some '@'

def KnownTables.resolve (known : KnownTables) (name : Text) : Option Text :=
  match (Sql.nameParts name).reverse with
  | [] => Option.none
  | table :: qualifiers =>
    if table.isEmpty || isTemporary table then Option.none
    else if !qualifiers.isEmpty then some table
    else if Sql.isKeyword table then Option.none
    else known.spelling? table

def tables (known : KnownTables) (s : Text) : List Text :=
  Text.sortedSet ((objectNames tableReference s).filterMap known.resolve)

/-! ## Calls -/

def procedureCall : Pattern :=
  all [.wordEdge, keyword "EXEC", option (keyword "UTE"), blanks1,
    option (all [char '@', word1, blanks, char '=', blanks]), .named "object" Sql.objectName,
    Sql.nameEnd]

def systemName : Pattern := .seq (any [keyword "sp", keyword "xp"]) (char '_')

def isSystemName (name : Text) : Bool := (systemName.matchAt (.start name)).isSome

/-- The procedure that a name refers to: no keyword, no system procedure, not the caller. -/
def calledProcedure? (own : Text) (name : Text) : Option Text :=
  match (Sql.nameParts name).getLast? with
  | none => none
  | some p =>
    if p.isEmpty || Sql.isKeyword p || isSystemName p || Text.lower p == Text.lower own then none
    else some p

def calls (own : Text) (s : Text) : List Text :=
  Text.sortedSet ((objectNames procedureCall s).filterMap (calledProcedure? own))

end ProcCatalog.Body
