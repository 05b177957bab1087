import ProcCatalog.Text.Lower

/-!
# Keywords

Words that may follow a verb of a statement and never name a table or a procedure.
-/

namespace ProcCatalog.Sql

def keywords : List String := [
    "select", "from", "where", "insert", "into", "update", "delete", "merge", "using", "join",
    "inner", "outer", "left", "right", "full", "cross", "apply", "on", "and", "or", "not", "in",
    "exists", "between", "like", "is", "null", "set", "values", "as", "begin", "end", "if",
    "else", "while", "return", "declare", "exec", "execute", "create", "alter", "drop", "table",
    "procedure", "function", "view", "index", "trigger", "grant", "revoke", "commit",
    "rollback", "transaction", "tran", "group", "order", "by", "having", "union", "all",
    "distinct", "top", "offset", "fetch", "next", "rows", "only", "case", "when", "then",
    "cast", "convert", "coalesce", "with", "output", "default", "openquery", "openrowset",
    "statistics"
  ]

def isKeyword (word : Text) : Bool := keywords.any fun k => k.toList == Text.lower word

end ProcCatalog.Sql
