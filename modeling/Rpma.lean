import Rpma.Lib.Bitmap
import Rpma.Hopscotch.Table
import Rpma.Hopscotch.Invariant
import Rpma.Hopscotch.Buckets
import Rpma.Hopscotch.Insert
import Rpma.Hopscotch.Resize
import Rpma.Hopscotch.Map
import Rpma.Lib.CText
import Rpma.Hopscotch.Image
import Rpma.Hopscotch.Cluster
import Rpma.Hopscotch.Reached
import Rpma.Hopscotch.Codec
import Rpma.Hopscotch.Client
import Rpma.Hopscotch.Segment
import Rpma.Hopscotch.Threads
import Rpma.Hopscotch.Holes
import Rpma.Lib.Traced
import Rpma.Hopscotch.Refusal
import Rpma.Hopscotch.Refill
import Rpma.Hopscotch.Access
import Rpma.Hopscotch.KeyRange
import Rpma.Lib.Prog
import Rpma.Lib.Ledger
import Rpma.Lib.Interleave
import Rpma.Librpma.Provider
import Rpma.Librpma.Objects
import Rpma.Librpma.Request
import Rpma.Librpma.Ownership
import Rpma.Librpma.Active
import Rpma.Librpma.Passive
import Rpma.Librpma.Completion
import Rpma.Librpma.Events
import Rpma.Librpma.Wakeup
import Rpma.Lib.Endian
import Rpma.Lib.Lease
import Rpma.Librpma.CmEvents
import Rpma.Librpma.Flush
import Rpma.Librpma.PrivateData
import Rpma.Librpma.NextConnReq
import Rpma.Librpma.AtomicWrite
import Rpma.Lib.PyVal
import Rpma.Lib.Firsts
import Rpma.Lib.Attempt
import Rpma.Perf.Plan
import Rpma.Perf.Runner
import Rpma.Perf.Bench
import Rpma.Perf.Resume
import Rpma.Lib.Cartesian
import Rpma.Perf.Flat
import Rpma.Perf.CommonParams
import Rpma.MultiConn.Server
import Rpma.Lib.Reliable
import Rpma.PingPong.Rounds
import Rpma.PingPong.Turns
import Rpma.PingPong.Finish
import Rpma.Lib.Durable
import Rpma.AtomicLog.Log
import Rpma.AtomicLog.Memory
import Rpma.AtomicLog.Crash
import Rpma.Lib.Cas
import Rpma.Librpma.Log
import Rpma.Gpspm.MapFile
import Rpma.Gpspm.Hello
import Rpma.Gpspm.Flush
import Rpma.Gpspm.Told
import Rpma.Lib.Yields
import Rpma.Librpma.PeerCfg
import Rpma.NativeFlush.Handshake
import Rpma.Lib.SharedQueue
import Rpma.PingPong.Shared
import Rpma.PingPong.Attending
import Rpma.PingPong.Partings
import Rpma.PingPong.Endings
