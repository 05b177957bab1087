import ProcCatalog.Text.Digit
import ProcCatalog.Text.Pattern

/-!
# Anti-patterns

Ten facts about a body whose comments are stripped. Each is found for itself; none excludes
another.
-/

namespace ProcCatalog.Body

open Pattern

structure Profile where
  hasCursor : Bool := false
  hasSelectStar : Bool := false
  hasDynamicSql : Bool := false
  hasNolock : Bool := false
  nolockCount : Nat := 0
  missingSetNocountOn : Bool := false
  hasTableVariable : Bool := false
  hasTempTable : Bool := false
  hasWhileLoop : Bool := false
  hasNoTryCatch : Bool := false
  deriving DecidableEq, Repr

/-! ## Patterns -/

def phrase (words : List String) : Pattern :=
  match words with
  | [] => .empty
  | [w] => keyword w
  | w :: ws => all [keyword w, blanks1, phrase ws]

def wholePhrase (words : List String) : Pattern := all [.wordEdge, phrase words, .wordEdge]

def cursor : Pattern :=
  .alt
    (all [.wordEdge, keyword "DECLARE", blanks1, option (char '@'), word1, blanks1,
      .repeated (any [.seq (keyword "INSENSITIVE") blanks1, .seq (keyword "SCROLL") blanks1]),
      keyword "CURSOR", .wordEdge])
    (wholePhrase ["FETCH", "NEXT"])

def selectStar : Pattern :=
  all [.wordEdge, keyword "SELECT", blanks1, option (.seq (keyword "DISTINCT") blanks1),
    option (all [keyword "TOP", blanks, option (char '('), blanks, many1 Text.isDigit, blanks,
      option (char ')'), blanks1, option (.seq (keyword "PERCENT") blanks1)]),
    char '*']

def dynamicSql : Pattern :=
  .alt (all [.wordEdge, keyword "EXEC", option (keyword "UTE"), blanks, char '('])
    (wholePhrase ["sp_executesql"])

def nolock : Pattern :=
  all [.wordEdge, keyword "WITH", blanks, char '(', blanks, keyword "NOLOCK", blanks, char ')']

def setNocountOn : Pattern := wholePhrase ["SET", "NOCOUNT", "ON"]

def tableVariable : Pattern :=
  all [.wordEdge, keyword "DECLARE", blanks1, char '@', word1, blanks1,
    option (.seq (keyword "AS") blanks1), keyword "TABLE", .wordEdge]

def tempTable : Pattern :=
  .alt (all [.wordEdge, phrase ["CREATE", "TABLE"], blanks1, char '\x23'])
    (all [.wordEdge, keyword "INTO", blanks1, char '\x23'])

def whileLoop : Pattern := wholePhrase ["WHILE"]

def tryBlock : Pattern := wholePhrase ["BEGIN", "TRY"]

/-! ## Detection -/

def Profile.detect (s : Text) : Profile where
  hasCursor := cursor.occursIn s
  hasSelectStar := selectStar.occursIn s
  hasDynamicSql := dynamicSql.occursIn s
  hasNolock := decide (0 < (nolock.findAll s).length)
  nolockCount := (nolock.findAll s).length
  missingSetNocountOn := !setNocountOn.occursIn s
  hasTableVariable := tableVariable.occursIn s
  hasTempTable := tempTable.occursIn s
  hasWhileLoop := whileLoop.occursIn s
  hasNoTryCatch := !tryBlock.occursIn s

/-! ## Flags -/

inductive Flag where
  | cursor
  | selectStar
  | dynamicSql
  | nolock
  | missingSetNocountOn
  | tableVariable
  | tempTable
  | whileLoop
  | noTryCatch
  deriving DecidableEq, Repr

namespace Flag

def all : List Flag :=
  [cursor, selectStar, dynamicSql, nolock, missingSetNocountOn, tableVariable, tempTable,
    whileLoop, noTryCatch]

def label : Flag → String
  | cursor => "hasCursor"
  | selectStar => "hasSelectStar"
  | dynamicSql => "hasDynamicSql"
  | nolock => "hasNolock"
  | missingSetNocountOn => "missingSetNocountOn"
  | tableVariable => "hasTableVariable"
  | tempTable => "hasTempTable"
  | whileLoop => "hasWhileLoop"
  | noTryCatch => "hasNoTryCatch"

def severe : List Flag := [cursor, selectStar, dynamicSql, nolock, tempTable, whileLoop]

end Flag

def Profile.flag (p : Profile) : Flag → Bool
  | .cursor => p.hasCursor
  | .selectStar => p.hasSelectStar
  | .dynamicSql => p.hasDynamicSql
  | .nolock => p.hasNolock
  | .missingSetNocountOn => p.missingSetNocountOn
  | .tableVariable => p.hasTableVariable
  | .tempTable => p.hasTempTable
  | .whileLoop => p.hasWhileLoop
  | .noTryCatch => p.hasNoTryCatch

def Profile.severity (p : Profile) : Nat := Flag.severe.countP p.flag

end ProcCatalog.Body
