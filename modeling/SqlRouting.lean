import SqlRouting.Export.Statement
import SqlRouting.Proofs.Accumulation
import SqlRouting.Proofs.AtEnd.Statement
import SqlRouting.Proofs.Comments
import SqlRouting.Proofs.CopiedPlaceholders
import SqlRouting.Proofs.Copies
import SqlRouting.Proofs.Disjunction
import SqlRouting.Proofs.DistinctTables
import SqlRouting.Proofs.Groups
import SqlRouting.Proofs.Hooks
import SqlRouting.Proofs.Integers
import SqlRouting.Proofs.KeptText
import SqlRouting.Proofs.KeywordCase
import SqlRouting.Proofs.LimitClause
import SqlRouting.Proofs.Lookup
import SqlRouting.Proofs.Marks
import SqlRouting.Proofs.OperandGrammar
import SqlRouting.Proofs.OwnConditions
import SqlRouting.Proofs.Placeholders
import SqlRouting.Proofs.Quotations
import SqlRouting.Proofs.Refusals
import SqlRouting.Proofs.Rows
import SqlRouting.Proofs.Sessions
import SqlRouting.Proofs.SingleTable
import SqlRouting.Proofs.SortEntries
import SqlRouting.Proofs.SortKeys
import SqlRouting.Proofs.Subqueries
import SqlRouting.Proofs.TableMarks
import SqlRouting.Proofs.WholeValues
import SqlRouting.Proofs.Widening
import SqlRouting.Proofs.Written.Insert
import SqlRouting.Proofs.Written.Select
import SqlRouting.Proofs.Written.Update
import SqlRouting.Proofs.Accumulation
