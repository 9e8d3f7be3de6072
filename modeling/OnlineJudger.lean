import OnlineJudger.Lib.Trim
import OnlineJudger.LZData.LZData
import OnlineJudger.Proofs.LZData.ReadWrite
import OnlineJudger.Judger.CommandLoop
import OnlineJudger.Judger.Config
import OnlineJudger.Judger.JudgeTask
import OnlineJudger.Acm.Watcher
import OnlineJudger.Judger.Excuter
import OnlineJudger.Judger.JudgeCore
import OnlineJudger.Proofs.Acm.Watcher
import OnlineJudger.Proofs.Judger.JudgeCore
import OnlineJudger.Lib.Fuel
import OnlineJudger.Lib.Bracket
import OnlineJudger.LZData.Xml
import OnlineJudger.Proofs.LZData.XmlRest
import OnlineJudger.Proofs.LZData.XmlRoundTrip
import OnlineJudger.Proofs.LZData.XmlAccept
import OnlineJudger.LZData.Lzd
import OnlineJudger.Proofs.LZData.LzdEscape
import OnlineJudger.Proofs.LZData.LzdLoop
import OnlineJudger.Proofs.LZData.LzdRoundTrip
import OnlineJudger.Lib.Run
import OnlineJudger.Commen.TaskMgr
import OnlineJudger.Judger.Server
import OnlineJudger.Judger.Database
import OnlineJudger.Judger.System
import OnlineJudger.Judger.Pipeline
import OnlineJudger.Proofs.Judger.Steps
import OnlineJudger.Proofs.Judger.Frames
import OnlineJudger.Proofs.Judger.Phases
import OnlineJudger.Proofs.Judger.System
import OnlineJudger.Proofs.Judger.Shutdown
import OnlineJudger.Proofs.Judger.Orphans
import OnlineJudger.Proofs.Judger.Verdicts
import OnlineJudger.Proofs.Judger.Origins
import OnlineJudger.Proofs.Judger.Requests
import OnlineJudger.Proofs.Judger.LostRequests
import OnlineJudger.Proofs.Judger.Statistics
import OnlineJudger.Proofs.Judger.CellStop
import OnlineJudger.Lib.Slots
import OnlineJudger.Lib.Deque
import OnlineJudger.Commen.TaskMgrThreads
import OnlineJudger.Proofs.Commen.TaskMgrThreads
import OnlineJudger.Acm.ZMySql
import OnlineJudger.Lib.Decimal
import OnlineJudger.Lib.FloatGrid
import OnlineJudger.Acm.Utilities
import OnlineJudger.Acm.ZNet
import OnlineJudger.Proofs.Acm.ZNet
import OnlineJudger.Judger.DBManagerCalls
import OnlineJudger.Proofs.Judger.DBManagerCalls
import OnlineJudger.Proofs.LZData.WriteFrame
import OnlineJudger.Proofs.Judger.Matcher
import OnlineJudger.Proofs.Judger.Measurements
import OnlineJudger.Lib.SqlText
import OnlineJudger.Lib.SqlWhere
import OnlineJudger.Judger.DBManagerSql
import OnlineJudger.Proofs.Judger.DBManagerLiterals
import OnlineJudger.Proofs.Judger.DBManagerBuffers
import OnlineJudger.Proofs.LZData.XmlFaults
import OnlineJudger.Judger.ConfigFile
import OnlineJudger.Proofs.Judger.ConfigFile
import OnlineJudger.Proofs.LZData.LzdScan
import OnlineJudger.Proofs.LZData.LzdMoves
import OnlineJudger.Proofs.LZData.LzdRecovery
import OnlineJudger.Proofs.LZData.LzdFile
import OnlineJudger.Proofs.LZData.LzdLineEnds
import OnlineJudger.Proofs.LZData.LzdLines
import OnlineJudger.Acm.FileTool
import OnlineJudger.Proofs.Acm.FileTool
import OnlineJudger.Acm.ZProcess
import OnlineJudger.Proofs.Judger.RunnerLimits
import OnlineJudger.LZData.Load
import OnlineJudger.Proofs.LZData.LzdFront
import OnlineJudger.Proofs.LZData.Load
import OnlineJudger.Proofs.LZData.InnerValues
import OnlineJudger.Commen.RefPtr
import OnlineJudger.Proofs.Commen.RefHeap
import OnlineJudger.Proofs.Commen.RefCascade
import OnlineJudger.Proofs.Commen.RefPtr
import OnlineJudger.Lib.Progress
import OnlineJudger.Proofs.Judger.Work
import OnlineJudger.Proofs.Judger.Progress
import OnlineJudger.Proofs.Judger.Drained
import OnlineJudger.Proofs.Judger.CommandLoop
import OnlineJudger.Proofs.Judger.CompileInfo
import OnlineJudger.Proofs.LZData.Cells
import OnlineJudger.LZData.Store
import OnlineJudger.Proofs.LZData.TypedValues
import OnlineJudger.Proofs.LZData.XmlFile
import OnlineJudger.Lib.Handles
import OnlineJudger.Acm.ZProcessObjects
import OnlineJudger.Proofs.Acm.MakeDir
import OnlineJudger.Proofs.Acm.ProcessHandles
import OnlineJudger.Judger.ExeRunner
import OnlineJudger.Proofs.Judger.ExeRunner
import OnlineJudger.Proofs.Judger.DebugRun
import OnlineJudger.Lib.Mutex
import OnlineJudger.Acm.Log
import OnlineJudger.Proofs.Acm.Log
import OnlineJudger.Proofs.Acm.LogProgress
import OnlineJudger.Lib.SharedStore
import OnlineJudger.Judger.WorkDir
import OnlineJudger.Proofs.Judger.WorkDir
import OnlineJudger.Acm.ZServer
import OnlineJudger.Proofs.Acm.ZServer
