import HttpDecoder.TableInvariant
import HttpDecoder.Segment
import HttpDecoder.Flow
import HttpDecoder.Isolation
import HttpDecoder.Exchange
import HttpDecoder.Duplicates
import HttpDecoder.Suppression
import HttpDecoder.Roles
import HttpDecoder.Delimiter
import HttpDecoder.Grammar
import HttpDecoder.Stages
import HttpDecoder.RequestHead
import HttpDecoder.Messages
import HttpDecoder.RoundTrip
import HttpDecoder.Overread
import HttpDecoder.Expiry
import HttpDecoder.Teardown
import HttpDecoder.Ledger
import HttpDecoder.Conservation
import HttpDecoder.Pairing
import HttpDecoder.AppMain
import HttpDecoder.Capture
import HttpDecoder.Unreported
import HttpDecoder.Discard
import HttpDecoder.Indeterminate
import HttpDecoder.HalfClose
import HttpDecoder.ByteString
import HttpDecoder.FailedAppend
import HttpDecoder.DataLength
import HttpDecoder.OtherProtocols
import HttpDecoder.BufferBound
import HttpDecoder.SendGuard
import HttpDecoder.HeaderEnd
import HttpDecoder.FirstLine
import HttpDecoder.HeaderLoop
import HttpDecoder.HeaderRendering
import HttpDecoder.AllocFailure
import HttpDecoder.Terminator
import HttpDecoder.SweepInterval
import HttpDecoder.RecentActivity
import HttpDecoder.TimeStamps
import HttpDecoder.CleanResult
import HttpDecoder.Overrun
import HttpDecoder.MethodCode
import HttpDecoder.VersionText
import HttpDecoder.ResponseTally
import HttpDecoder.Dump
import HttpDecoder.ReadBack
import HttpDecoder.Interleaving
import HttpDecoder.TcpFrame
import HttpDecoder.Repetition
import HttpDecoder.EndOfFile
import HttpDecoder.Conversations
import HttpDecoder.TimedFlow
import HttpDecoder.Language
import HttpDecoder.Lifetime
import HttpDecoder.Timely
import HttpDecoder.Bytewise
import HttpDecoder.BufferHistory
import HttpDecoder.Provenance
import HttpDecoder.CutCapture
