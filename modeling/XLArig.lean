import XLArig.Machine
import XLArig.Window
import XLArig.Walk
import XLArig.Lines
import XLArig.LineReader
import XLArig.Memory
import XLArig.Nonce
import XLArig.Nonce.Next
import XLArig.Nonce.Requests
import XLArig.Nonce.Interleaving
import XLArig.WorkerJob
import XLArig.WorkerJob.Lanes
import XLArig.CString
import XLArig.Algorithm
import XLArig.Job
import XLArig.WorkerJob.Field
import XLArig.WorkerJob.Rounds
import XLArig.CpuBackend
import XLArig.Miner
import XLArig.Mining
import XLArig.CpuWorker
import XLArig.Threads
import XLArig.Threads.Calls
import XLArig.Threads.Sequence
import XLArig.Threads.Current
import XLArig.Threads.Stop
import XLArig.FailoverStrategy
import XLArig.DonateStrategy
import XLArig.Pool
import XLArig.Json
import XLArig.Json.Read
import XLArig.Cvt
import XLArig.Cvt.Hex
import XLArig.Job.Read
import XLArig.Client.Requests
import XLArig.Client.Buffer
import XLArig.Client.Answers
import XLArig.Client.Connection
import XLArig.Client.Messages
import XLArig.Client.Messages.Crash
import XLArig.Client.Messages.Pool
import XLArig.Client.Reading
import XLArig.Client.Connection.Effect
import XLArig.Client.Connection.Intent
import XLArig.Client.Connection.Sockets
import XLArig.DaemonClient
import XLArig.DaemonClient.Inside
import XLArig.DaemonClient.Final
import XLArig.SelfSelectClient
import XLArig.SelfSelectClient.Acknowledged
import XLArig.SelfSelectClient.Replies
import XLArig.Job.Checked
import XLArig.Client.Messages.Checked
import XLArig.DaemonClient.Checked
import XLArig.SelfSelectClient.Checked
import XLArig.Checked
import XLArig.Pools
import XLArig.Network
import XLArig.Network.Calls
import XLArig.Network.Paused
import XLArig.Network.Followed
import XLArig.Pool.Url
import XLArig.Pool.Config
import XLArig.Pool.Names
import XLArig.Pool.Reload
import XLArig.RandomX
import XLArig.RxStorage
import XLArig.RxQueue
import XLArig.Threads.Dataset
import XLArig.RandomX.Items
import XLArig.RandomX.Aes
import XLArig.RandomX.Fused
import XLArig.RandomX.VmPool
import XLArig.RandomX.Hash
import XLArig.Sweep
import XLArig.MsrItem
import XLArig.RxConfig
import XLArig.CryptoNight
import XLArig.Traced
import XLArig.CryptoNight.Within
import XLArig.CnHash
import XLArig.Http
import XLArig.Http.Message
import XLArig.Http.Reads
import XLArig.Http.Client
import XLArig.Api
import XLArig.Api.Answered
import XLArig.Api.Httpd
import XLArig.Job.Difficulty
import XLArig.LineReader.Whole
import XLArig.DaemonClient.Intact
import XLArig.Client.Position
import XLArig.Miner.Resume
import XLArig.CpuWorker.Found
import XLArig.JobResults
import XLArig.Client.Lookups
import XLArig.OrdMap
import XLArig.CpuThreads
import XLArig.CpuConfig.Threads
import XLArig.CpuConfig
import XLArig.CpuConfig.Generate
import XLArig.CpuConfig.ReadBack
import XLArig.CpuConfig.Reload
import XLArig.CryptoNight.Lanes
import XLArig.CryptoNight.Alone
import XLArig.CryptoNight.Together
import XLArig.CryptoNight.MultiHash
import XLArig.MemPool
import XLArig.BaseConfig
import XLArig.Base
import XLArig.RxNUMAStorage
import XLArig.RxNUMAStorage.Survived
import XLArig.Pools.Strategy
import XLArig.Client.Socks5
import XLArig.Pool.Written
import XLArig.RxMsr
import XLArig.CryptoNight.RandomMath
import XLArig.CryptoNight.Sqrt
import XLArig.CpuConfig.Covered
import XLArig.CryptoNight.Interleaved
import XLArig.ConfigTransform
import XLArig.CpuThreads.Affinity
import XLArig.Columns
import XLArig.HwlocCpuInfo
import XLArig.Arena
import XLArig.CpuWorker.Kept
import XLArig.VirtualMemory
import XLArig.Escapes
import XLArig.Log
import XLArig.CryptoNight.Umul128
import XLArig.Dmi
import XLArig.Dmi.Decode
import XLArig.Dmi.Routes
import XLArig.Dmi.WellFormed
import XLArig.Hashrate
import XLArig.Threads.Stall
import XLArig.AstroBwt
import XLArig.RandomX.Arithmetic
import XLArig.RandomX.Branches
import XLArig.RandomX.Interpreter
import XLArig.RandomX.Modes
import XLArig.Keccak.Permutation
import XLArig.Sponge
import XLArig.Keccak.Sha3
import XLArig.Keccak.KangarooTwelve
import XLArig.Chain
import XLArig.Panthera.Yespower
