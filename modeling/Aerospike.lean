import Aerospike.Lib.Bytes
import Aerospike.Lib.Scan
import Aerospike.Fabric.Hlc
import Aerospike.Fabric.Msg
import Aerospike.Fabric.MsgWire
import Aerospike.Cdt.Base
import Aerospike.Cdt.List
import Aerospike.Cdt.ListSelect
import Aerospike.Cdt.ListRank
import Aerospike.Cdt.Map
import Aerospike.Cdt.MapWire
import Aerospike.Base.Transaction
import Aerospike.Lib.Loop
import Aerospike.Base.Batch
import Aerospike.Lib.Kleene
import Aerospike.Base.Predexp
import Aerospike.Base.PredexpSound
import Aerospike.Base.PredexpIter
import Aerospike.Cdt.ListIndexRange
import Aerospike.Lib.Word
import Aerospike.Cdt.IndexCount
import Aerospike.Cdt.Mask
import Aerospike.Lib.BinTree
import Aerospike.Base.Index
import Aerospike.Fabric.PartitionBalance
import Aerospike.Cdt.OrderIndex
import Aerospike.Cdt.MapItems
import Aerospike.Cdt.ListSort
import Aerospike.Cdt.ListOffset
import Aerospike.Cdt.MapFind
import Aerospike.Base.Record
import Aerospike.Base.Cfg
import Aerospike.Transaction.RwUtils
import Aerospike.Lib.Fields
import Aerospike.Cdt.OrderIndexOp
import Aerospike.Cdt.MapRank
import Aerospike.Lib.Hist
import Aerospike.Base.Nsup
import Aerospike.Lib.KeyList
import Aerospike.Cf.Shash
import Aerospike.Cf.ShashMap
import Aerospike.Cf.ShashReduce
import Aerospike.Cf.ShashRefine
import Aerospike.Cdt.MaskFind
import Aerospike.Cdt.IndexSearch
import Aerospike.Cdt.OffsetRemove
import Aerospike.Lib.BinHeap
import Aerospike.Cdt.OrderHeap
import Aerospike.Lib.RedBlack
import Aerospike.Base.IndexSprig
import Aerospike.Fabric.ExchangePayload
import Aerospike.Lib.Pointwise
import Aerospike.Fabric.Exchange
import Aerospike.Fabric.ExchangeNode
import Aerospike.Fabric.ExchangeCluster
import Aerospike.Fabric.ExchangeCommit
