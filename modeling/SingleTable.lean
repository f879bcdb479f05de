import SingleTable.Attribute.Text
import SingleTable.Config
import SingleTable.Database
import SingleTable.Memory
import SingleTable.Remote
import SingleTable.Ulid
import SingleTable.Proofs.KeyOrder
import SingleTable.Proofs.Partition
import SingleTable.Proofs.Selection
import SingleTable.Proofs.ItemKeys
import SingleTable.Proofs.Storage
import SingleTable.Proofs.Scan
import SingleTable.Proofs.TableWrites
import SingleTable.Proofs.Batch
import SingleTable.Proofs.Runs
import SingleTable.Proofs.StoreMap
import SingleTable.Proofs.IndexOrder
import SingleTable.Proofs.BaseQuery
import SingleTable.Proofs.IndexQuery
import SingleTable.Proofs.Spelling
import SingleTable.Proofs.Conjunction
import SingleTable.Proofs.Clauses
import SingleTable.Proofs.Resolution
import SingleTable.Proofs.FilterMeaning
import SingleTable.Proofs.Sessions
import SingleTable.Proofs.ModelQuery
import SingleTable.Proofs.Declarations
import SingleTable.Proofs.SchemaTable
import SingleTable.Proofs.Making
import SingleTable.Proofs.ModelCalls
import SingleTable.Proofs.Acceptance
import SingleTable.Proofs.Isolation
import SingleTable.Proofs.ReadBack
import SingleTable.Proofs.Grammar
import SingleTable.Proofs.TermMeaning
import SingleTable.Proofs.CompiledQuery
import SingleTable.Proofs.TermNames
import SingleTable.Proofs.IndexNames
import SingleTable.Proofs.Remaking
import SingleTable.Proofs.HiddenParameters
import SingleTable.Proofs.Conformance
import SingleTable.Proofs.Replay
import SingleTable.Proofs.BatchCreation
import SingleTable.Proofs.CanonicalBase64
import SingleTable.Proofs.WireForm
import SingleTable.Proofs.FieldByField
import SingleTable.Proofs.InterleavedUpdates
import SingleTable.Proofs.GeneratedKeys
import SingleTable.Proofs.Bookkeeping
import SingleTable.Proofs.RangeSearch
import SingleTable.Proofs.OrderLaws
import SingleTable.Proofs.DecimalText
import SingleTable.Proofs.Rounding
import SingleTable.Proofs.IntegerKeys
import SingleTable.Proofs.RawValues
import SingleTable.Proofs.Bindings
import SingleTable.Proofs.JsonForm
import SingleTable.Proofs.ModelOrder
import SingleTable.Proofs.AlikeKeys
import SingleTable.Proofs.DecimalValue
import SingleTable.Proofs.NumberTexts
import SingleTable.Proofs.WireTypes
import SingleTable.Proofs.ServiceValues
import SingleTable.Proofs.Hashing
