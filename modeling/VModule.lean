import VModule.Machine
import VModule.Tally
import VModule.Ring
import VModule.Queue
import VModule.QueueShape
import VModule.Fifo
import VModule.VmQueue
import VModule.BlockingQueue
import VModule.BlockingQueueRuns
import VModule.Errors
import VModule.LoggerThread
import VModule.LoggerThreadRuns
import VModule.LoggerMessages
import VModule.Thread
import VModule.ThreadRuns
import VModule.ThreadRequests
import VModule.ThreadReferences
import VModule.Atomic
import VModule.ThreadWaits
import VModule.VmQueueRuns
import VModule.WinCondition
import VModule.WinConditionRuns
import VModule.RefCounts
import VModule.RefCountsStrong
import VModule.RefCountsCalls
import VModule.RefCountsLife
import VModule.RefBase
import VModule.StrongPointer
import VModule.StrongPointerRuns
import VModule.Descriptors
import VModule.NewSocket
import VModule.FlagWord
import VModule.SerialPort
import VModule.SerialPortRuns
import VModule.AutoBuffer
import VModule.AutoBufferRuns
import VModule.Logger
import VModule.SocketStream
import VModule.SocketStreamRuns
import VModule.FileSystem
import VModule.MakeDir
import VModule.FileTree
import VModule.DeleteDir
import VModule.DeleteDirFrame
import VModule.DeleteDirRuns
import VModule.Words
import VModule.StdString
import VModule.StringUtils
import VModule.SplitRuns
import VModule.ReplaceRuns
import VModule.Transfer
import VModule.FileTransfer
import VModule.FileTransferRuns
import VModule.DeleteDirStreams
import VModule.CurrentDirectory
import VModule.NewUnixSocket
import VModule.SocketErrors
import VModule.StringParts
import VModule.StringScans
import VModule.StringTrims
import VModule.Runs
import VModule.SpacesAndTabs
import VModule.CharClasses
import VModule.NumberWords
import VModule.HalvingSearch
import VModule.UnicodeTables
import VModule.UnicodeCase
import VModule.FormatV
import VModule.QueueIterator
import VModule.QueueIteratorRuns
import VModule.WeakPointerComparisons
import VModule.Sleep
import VModule.Gregorian
import VModule.MakeTime
import VModule.LoggerLevels
import VModule.TimeoutDelay
import VModule.HangingIndent
import VModule.LogLines
import VModule.LoggerRecords
import VModule.LogFile
import VModule.LoggerItems
import VModule.TypeHelpers
import VModule.MoveReferences
import VModule.StringRoundTrips
import VModule.SerialPortThreads
import VModule.Singleton
import VModule.WinConditionTimeouts
import VModule.FileCalls
import VModule.MadeDirectories
import VModule.AndroidDirectory
import VModule.ReplaceChar
import VModule.SocketCalls
import VModule.SocketCallsRuns
