import DocumentBase.Database
import DocumentBase.Query.Json
import DocumentBase.Number.Lemmas
import DocumentBase.Proofs.Visibility
import DocumentBase.Proofs.Execution
import DocumentBase.Proofs.Codec
import DocumentBase.Proofs.Query.Lexing
import DocumentBase.Proofs.Query.Spelling
import DocumentBase.Proofs.Query.Lexed
import DocumentBase.Proofs.Query.Points
import DocumentBase.Proofs.Query.Assembled
import DocumentBase.Proofs.Query.Resuming
import DocumentBase.Proofs.Query.Expressible
import DocumentBase.Proofs.Query.Comparison
import DocumentBase.Proofs.Query.Conjunction
import DocumentBase.Proofs.Database.History
import DocumentBase.Proofs.Database.Refinement
import DocumentBase.Proofs.Database.Outlasting
import DocumentBase.Proofs.Database.Recorded
import DocumentBase.Proofs.Document.Agreement
import DocumentBase.Proofs.Document.Returning
import DocumentBase.Proofs.Index.Separators
import DocumentBase.Proofs.Index.Nesting
import DocumentBase.Proofs.Database.Refusal
