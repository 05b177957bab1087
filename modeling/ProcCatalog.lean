import ProcCatalog.Main
import ProcCatalog.Proofs.CallGraph.Cycles
import ProcCatalog.Proofs.Catalog.Export
import ProcCatalog.Proofs.Signature.ParenthesizedHeader
import ProcCatalog.Proofs.Signature.ParameterList
import ProcCatalog.Proofs.Catalog.Streaming
import ProcCatalog.Proofs.Catalog.Returned
import ProcCatalog.Proofs.Catalog.Building
import ProcCatalog.Proofs.Assign.Codes
import ProcCatalog.Proofs.Catalog.Accounting
import ProcCatalog.Proofs.CallGraph.Summaries
import ProcCatalog.Proofs.Catalog.Calls
import ProcCatalog.Proofs.CallGraph.Reordered
import ProcCatalog.Proofs.Catalog.Stats
import ProcCatalog.Proofs.Catalog.Reordered
import ProcCatalog.Proofs.Storage.Decoding
import ProcCatalog.Proofs.Value.Nesting
import ProcCatalog.Proofs.Catalog.ReadBack
import ProcCatalog.Proofs.Catalog.History
import ProcCatalog.Proofs.Sql.Comments
import ProcCatalog.Proofs.Sql.Lexer
import ProcCatalog.Proofs.Signature.LeadingComment
import ProcCatalog.Proofs.Catalog.SelfCalls
import ProcCatalog.Proofs.Catalog.Names
import ProcCatalog.Proofs.Script.FirstStatement
import ProcCatalog.Proofs.Signature.HeaderComment
import ProcCatalog.Proofs.Body.Statements
import ProcCatalog.Proofs.Catalog.Collaborators
import ProcCatalog.Proofs.Catalog.Interruption
import ProcCatalog.Proofs.Body.Joined
import ProcCatalog.Proofs.Catalog.Recased
import ProcCatalog.Proofs.Catalog.MoreTables
import ProcCatalog.Proofs.Body.NameWords
import ProcCatalog.Proofs.Body.TemporaryWrites
import ProcCatalog.Proofs.Signature.Division
import ProcCatalog.Proofs.Signature.EnclosedList
import ProcCatalog.Proofs.Assign.Longest
import ProcCatalog.Proofs.Assign.Majority
import ProcCatalog.Proofs.Catalog.CodeCallers
import ProcCatalog.Proofs.Catalog.ExactStats
import ProcCatalog.Proofs.Script.Cursor
import ProcCatalog.Proofs.Catalog.Lookup
import ProcCatalog.Proofs.Catalog.ExportDate
import ProcCatalog.Proofs.Sql.Rejoined
import ProcCatalog.Proofs.Sql.ClosingParen
import ProcCatalog.Proofs.Text.Preview
import ProcCatalog.Proofs.Collaborator.BareNames
