import LogTransfer.Program
import LogTransfer.Interleave
import LogTransfer.Codec
import LogTransfer.Framer
import LogTransfer.LineReassembler
import LogTransfer.LineSplit
import LogTransfer.LogLineParser
import LogTransfer.Stats
import LogTransfer.Analysis
import LogTransfer.DamagedLines
import LogTransfer.ParserThread
import LogTransfer.Session
import LogTransfer.SessionManager
import LogTransfer.SessionScope
import LogTransfer.SessionHistory
import LogTransfer.SessionConduct
import LogTransfer.ManagerConduct
import LogTransfer.ServerInvariant
import LogTransfer.CleanStart
import LogTransfer.Backlog
import LogTransfer.OwnResult
import LogTransfer.UploadFlag
import LogTransfer.Reception
import LogTransfer.SessionTape
import LogTransfer.TapeConduct
import LogTransfer.ServerTape
import LogTransfer.Backpressure
import LogTransfer.OutputGrammar
import LogTransfer.SessionStream
import LogTransfer.Segmentation
import LogTransfer.Retention
import LogTransfer.FileReader
import LogTransfer.ResultSummary
import LogTransfer.TransferService
import LogTransfer.Claimable
import LogTransfer.ClientWorld
import LogTransfer.UploadHistory
import LogTransfer.UploadConduct
import LogTransfer.UploadExact
import LogTransfer.InFlight
import LogTransfer.ResultShelf
import LogTransfer.SaveableResult
import LogTransfer.ResultMatch
import LogTransfer.Download
import LogTransfer.DownloadConduct
import LogTransfer.Reassembly
import LogTransfer.ScreenHistory
import LogTransfer.ScreenConduct
import LogTransfer.ScreenCallbacks
import LogTransfer.LockOut
import LogTransfer.ReplyState
import LogTransfer.ReplySegmentation
import LogTransfer.Composition
import LogTransfer.ResultSize
import LogTransfer.Errand
import LogTransfer.VisitHistory
import LogTransfer.VisitConduct
import LogTransfer.VisitCallbacks
import LogTransfer.ServerVisit
import LogTransfer.CallHistory
import LogTransfer.CallConduct
import LogTransfer.CallCallbacks
import LogTransfer.ClientCall
import LogTransfer.Peers
import LogTransfer.Concord
import LogTransfer.Message
import LogTransfer.CodecLaws
import LogTransfer.CodecStability
import LogTransfer.FramerReference
import LogTransfer.FramerBuffer
import LogTransfer.Framing
import LogTransfer.BoundedFifo
import LogTransfer.SpscRing
import LogTransfer.RingInvariant
import LogTransfer.RingRefinement
import LogTransfer.Calendar
import LogTransfer.HourText
import LogTransfer.Tally
import LogTransfer.Acceptance
import LogTransfer.CountMap
import LogTransfer.Ledger
import LogTransfer.ResultLines
import LogTransfer.Conservation
import LogTransfer.HourWindow
import LogTransfer.ByteOrder
import LogTransfer.Histogram
import LogTransfer.ResultReading
import LogTransfer.SummaryAgreement
import LogTransfer.CsvLimit
import LogTransfer.CrcBitwise
import LogTransfer.SessionMoves
import LogTransfer.SessionLife
import LogTransfer.ServerLives
import LogTransfer.WriteAccount
import LogTransfer.ResponseWait
import LogTransfer.CrcBursts
import LogTransfer.AcceptedLines
import LogTransfer.RepeatedFields
import LogTransfer.LineOrder
import LogTransfer.ReporterBooks
import LogTransfer.SummaryOrder
import LogTransfer.LineEndings
import LogTransfer.ConfigText
import LogTransfer.Launch
import LogTransfer.CondVar
import LogTransfer.ReaderWait
import LogTransfer.WakeUps
import LogTransfer.StampOrder
import LogTransfer.LogJournal
import LogTransfer.SocketEvents
import LogTransfer.ParserWait
import LogTransfer.Timer
import LogTransfer.ServerHandles
import LogTransfer.PruneTick
import LogTransfer.ServiceThreads
import LogTransfer.PingConsole
import LogTransfer.ClientHandles
import LogTransfer.ReaderThread
