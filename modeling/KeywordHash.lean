import KeywordHash.Main
import KeywordHash.Proofs.Assignment
import KeywordHash.Proofs.Keyword.Validity
import KeywordHash.Proofs.Search
import KeywordHash.Proofs.Table.Hash
import KeywordHash.Proofs.Table.Perfect
import KeywordHash.Proofs.Table.Lookup
import KeywordHash.Proofs.Signature.Shortlex
import KeywordHash.Proofs.Signature.WordSuccessor
import KeywordHash.Proofs.Signature.Enumeration
import KeywordHash.Proofs.Program.Agreement
import KeywordHash.Proofs.Json.Number
import KeywordHash.Proofs.Json.Text
import KeywordHash.Proofs.Json.Brackets
import KeywordHash.Proofs.Table.Document
import KeywordHash.Proofs.Table.Verification
import KeywordHash.Proofs.Table.Representation
import KeywordHash.Proofs.Json.Ensures
import KeywordHash.Proofs.Table.Loaded
import KeywordHash.Proofs.Table.HashAgreement
import KeywordHash.Proofs.Keyword.Definitions
import KeywordHash.Proofs.Generation
import KeywordHash.Proofs.Table.FirstSuccess
import KeywordHash.Proofs.Table.MoreTries
import KeywordHash.Proofs.Files.Replacement
import KeywordHash.Proofs.Generation.Course
import KeywordHash.Proofs.Table.Machine
import KeywordHash.Proofs.Generation.Failure
import KeywordHash.Proofs.Generation.Success
import KeywordHash.Proofs.Assignment.Unresolvable
import KeywordHash.Proofs.Table.Convergence
import KeywordHash.Proofs.Keyword.Reading
import KeywordHash.Proofs.Table.Source
import KeywordHash.Proofs.Keyword.Layout
import KeywordHash.Proofs.Search.Start
import KeywordHash.Proofs.Values.Total
import KeywordHash.Proofs.Assignment.Course
import KeywordHash.Proofs.Table.Probe
import KeywordHash.Proofs.Table.Queries
import KeywordHash.Proofs.Table.Rendering
import KeywordHash.Proofs.Random.Source
import KeywordHash.Proofs.Random.NearMiss
import KeywordHash.Proofs.Random.SentinelWord
import KeywordHash.Proofs.Table.Summary
import KeywordHash.Proofs.Values.Preference
import KeywordHash.Proofs.Table.Size
import KeywordHash.Proofs.Program.Lengths
import KeywordHash.Proofs.Files.Journal
import KeywordHash.Proofs.Assignment.Separation
import KeywordHash.Proofs.Program.Language
import KeywordHash.Proofs.Program.Reading
import KeywordHash.Proofs.Program.CodeLine
import KeywordHash.Proofs.Program.ReadBack
import KeywordHash.Proofs.Program.Evaluation
import KeywordHash.Proofs.Table.Program
