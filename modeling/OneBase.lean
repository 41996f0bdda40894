import OneBase.Model.BPlusTree
import OneBase.Model.BPlusTreeInvariant
import OneBase.Model.BPlusTreeIterator
import OneBase.Model.BPlusTreePage
import OneBase.Model.BPlusTreeShortage
import OneBase.Model.Binder
import OneBase.Model.BufferPoolManager
import OneBase.Model.Catalog
import OneBase.Model.DiskManager
import OneBase.Model.ExecutorTree
import OneBase.Model.Expression
import OneBase.Model.LockManager
import OneBase.Model.LruKReplacer
import OneBase.Model.Optimizer
import OneBase.Model.PageGuard
import OneBase.Model.Protocol
import OneBase.Model.QueryExecutors
import OneBase.Model.TableExecutors
import OneBase.Model.TableHeap
import OneBase.Model.TablePage
import OneBase.Model.TransactionManager
import OneBase.Model.Tuple
import OneBase.Model.Types
import OneBase.Model.Value
import OneBase.Proofs.BPlusTree.Insert
import OneBase.Proofs.BPlusTree.InsertCorrect
import OneBase.Proofs.BPlusTree.InsertShort
import OneBase.Proofs.BPlusTree.InsertTolerance
import OneBase.Proofs.BPlusTree.Iteration
import OneBase.Proofs.BPlusTree.IterationCorrect
import OneBase.Proofs.BPlusTree.IteratorPins
import OneBase.Proofs.BPlusTree.Node
import OneBase.Proofs.BPlusTree.Page
import OneBase.Proofs.BPlusTree.PageBounds
import OneBase.Proofs.BPlusTree.Rebalance
import OneBase.Proofs.BPlusTree.Regroup
import OneBase.Proofs.BPlusTree.Remove
import OneBase.Proofs.BPlusTree.RemoveCorrect
import OneBase.Proofs.BPlusTree.RemoveShape
import OneBase.Proofs.BPlusTree.RemoveShort
import OneBase.Proofs.BPlusTree.Runs
import OneBase.Proofs.BPlusTree.ScanEnds
import OneBase.Proofs.BPlusTree.Search
import OneBase.Proofs.BPlusTree.ShortRuns
import OneBase.Proofs.BPlusTree.Shortage
import OneBase.Proofs.BPlusTree.Split
import OneBase.Proofs.BPlusTree.Steps
import OneBase.Proofs.BPlusTree.Subtree
import OneBase.Proofs.BPlusTree.TreePins
import OneBase.Proofs.BPlusTree.WellFormed
import OneBase.Proofs.BPlusTree.Window
import OneBase.Proofs.BufferPool.Bookkeeping
import OneBase.Proofs.BufferPool.KDistance
import OneBase.Proofs.BufferPool.PageGuards
import OneBase.Proofs.BufferPool.Pins
import OneBase.Proofs.BufferPool.Replacer
import OneBase.Proofs.BufferPool.Transparent
import OneBase.Proofs.Catalog.Integrity
import OneBase.Proofs.Catalog.PointLookups
import OneBase.Proofs.Concurrency.FinalStates
import OneBase.Proofs.Concurrency.LockCompatibility
import OneBase.Proofs.Concurrency.LockSets
import OneBase.Proofs.Concurrency.Release
import OneBase.Proofs.Concurrency.Requests
import OneBase.Proofs.Concurrency.TransactionStates
import OneBase.Proofs.Concurrency.TwoPhase
import OneBase.Proofs.Concurrency.Upgrades
import OneBase.Proofs.Concurrency.WaitNodes
import OneBase.Proofs.Concurrency.Wakeups
import OneBase.Proofs.Query.Aggregation
import OneBase.Proofs.Query.BoundExpressions
import OneBase.Proofs.Query.Delete
import OneBase.Proofs.Query.ExactArithmetic
import OneBase.Proofs.Query.Executors
import OneBase.Proofs.Query.ExpressionTypes
import OneBase.Proofs.Query.FromClause
import OneBase.Proofs.Query.FromNames
import OneBase.Proofs.Query.FromReference
import OneBase.Proofs.Query.FromShapes
import OneBase.Proofs.Query.GroupKeys
import OneBase.Proofs.Query.HashJoin
import OneBase.Proofs.Query.IndexLookup
import OneBase.Proofs.Query.InsertRows
import OneBase.Proofs.Query.InsertSelect
import OneBase.Proofs.Query.JoinColumns
import OneBase.Proofs.Query.Modify
import OneBase.Proofs.Query.MoreRounds
import OneBase.Proofs.Query.NullOperands
import OneBase.Proofs.Query.Optimize
import OneBase.Proofs.Query.OrderBy
import OneBase.Proofs.Query.Reference
import OneBase.Proofs.Query.Restart
import OneBase.Proofs.Query.RowChanges
import OneBase.Proofs.Query.Runtime
import OneBase.Proofs.Query.ScanRows
import OneBase.Proofs.Query.SelectPlan
import OneBase.Proofs.Query.SelfCopies
import OneBase.Proofs.Query.SelfInsert
import OneBase.Proofs.Query.SharedScan
import OneBase.Proofs.Query.Sort
import OneBase.Proofs.Query.StoredRows
import OneBase.Proofs.Query.TableScan
import OneBase.Proofs.Query.TypedRows
import OneBase.Proofs.Query.Update
import OneBase.Proofs.Query.UpdateCalls
import OneBase.Proofs.Server.Framing
import OneBase.Proofs.Server.ResultText
import OneBase.Proofs.Storage.DiskManager
import OneBase.Proofs.Storage.HeapChanges
import OneBase.Proofs.Storage.HeapCursor
import OneBase.Proofs.Storage.HeapInsert
import OneBase.Proofs.Storage.HeapPins
import OneBase.Proofs.Storage.HeapRuns
import OneBase.Proofs.Storage.HeapScan
import OneBase.Proofs.Storage.HeapStore
import OneBase.Proofs.Storage.PageRows
import OneBase.Proofs.Storage.TablePage
import OneBase.Proofs.Storage.Tuple
import OneBase.ToMathlib.ArrayLoops
import OneBase.ToMathlib.Bytes
import OneBase.ToMathlib.Delimited
import OneBase.ToMathlib.ExceptLoops
import OneBase.ToMathlib.ExceptRuns
import OneBase.ToMathlib.ListEdits
import OneBase.ToMathlib.Memory
import OneBase.ToMathlib.ObservedRuns
import OneBase.ToMathlib.PinLedger
import OneBase.ToMathlib.Separators
import OneBase.ToMathlib.Traces
