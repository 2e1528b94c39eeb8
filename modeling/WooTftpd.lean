import WooTftpd.Lib.Memory
import WooTftpd.Lib.CString
import WooTftpd.Lib.Strings
import WooTftpd.Lib.Path
import WooTftpd.Lib.Machine
import WooTftpd.Lib.Chunks
import WooTftpd.Lib.StopAndWait
import WooTftpd.Lib.Rounds
import WooTftpd.Lib.Escape
import WooTftpd.Lib.Link
import WooTftpd.Lib.Recovery
import WooTftpd.Packet
import WooTftpd.Tftpsubs
import WooTftpd.ReadSide
import WooTftpd.WriteSide
import WooTftpd.RoundTrip
import WooTftpd.Buffering
import WooTftpd.Transfer
import WooTftpd.Sendfile
import WooTftpd.SenderTrace
import WooTftpd.Recvfile
import WooTftpd.ReceiverTrace
import WooTftpd.LostWrite
import WooTftpd.OptionPhase
import WooTftpd.SendfileRun
import WooTftpd.Reads
import WooTftpd.ReadErrors
import WooTftpd.Address
import WooTftpd.Remap
import WooTftpd.Expand
import WooTftpd.RemapSizing
import WooTftpd.SharedData
import WooTftpd.SlotFrame
import WooTftpd.Monitor
import WooTftpd.Slots
import WooTftpd.SlotCounter
import WooTftpd.GuiTimeout
import WooTftpd.WakeUp
import WooTftpd.Access
import WooTftpd.Confinement
import WooTftpd.ReversePath
import WooTftpd.Options
import WooTftpd.OptionList
import WooTftpd.ListenAddress
import WooTftpd.FileLocks
import WooTftpd.AccessSteps
import WooTftpd.AnnouncedSize
import WooTftpd.Rollover
import WooTftpd.Duplicates
import WooTftpd.Malformed
import WooTftpd.Acknowledged
import WooTftpd.Success
import WooTftpd.ProgressCounter
import WooTftpd.OptionValues
import WooTftpd.RetryBudget
import WooTftpd.BlockSize
import WooTftpd.PowerOfTwo
import WooTftpd.Rewrite
import WooTftpd.Tokens
import WooTftpd.MapFile
import WooTftpd.Deadman
import WooTftpd.Restart
import WooTftpd.MatchArray
import WooTftpd.Reference
import WooTftpd.AbortMessage
import WooTftpd.Request
import WooTftpd.RejectedWrite
import WooTftpd.RequestStrings
import WooTftpd.RequestParse
import WooTftpd.RequestBytes
import WooTftpd.ErrorPackets
import WooTftpd.PortSearch
import WooTftpd.Synchnet
import WooTftpd.Network
import WooTftpd.Delivery
import WooTftpd.Completion
import WooTftpd.Getopt
import WooTftpd.GetoptRun
import WooTftpd.CommandLine
import WooTftpd.StartUp
import WooTftpd.Refusals
import WooTftpd.Serving
import WooTftpd.ChildPackets
import WooTftpd.Lib.Simulation
import WooTftpd.Service
import WooTftpd.Daemon
import WooTftpd.Tftpd
import WooTftpd.Handshake
import WooTftpd.Listening
import WooTftpd.Widget
import WooTftpd.RecvTime
