import DistributedKv.BigEndian
import DistributedKv.SortedScan
import DistributedKv.Overwrite
import DistributedKv.Utf8
import DistributedKv.Csv
import DistributedKv.Types
import DistributedKv.PebbleDB
import DistributedKv.Machine
import DistributedKv.RaftPebble
import DistributedKv.RaftPebbleStep
import DistributedKv.RaftPebbleIndex
import DistributedKv.RaftPebbleLogStore
import DistributedKv.Persisted
import DistributedKv.Fsm
import DistributedKv.FsmApply
import DistributedKv.Membership
import DistributedKv.CsvStream
import DistributedKv.FsmSnapshot
import DistributedKv.LeaderDiscovery
import DistributedKv.Replication
import DistributedKv.Greedy
import DistributedKv.GoStrings
import DistributedKv.Bootstrap
import DistributedKv.InitialCluster
import DistributedKv.TickerShutdown
