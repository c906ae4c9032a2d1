import TiraRdp.Redirector.Redirector
import TiraRdp.Lib.Lts
import TiraRdp.Lib.Ring
import TiraRdp.Utility.AsyncBase
import TiraRdp.Utility.WaitingBuffer
import TiraRdp.Utility.AsyncWriter
import TiraRdp.Lib.Delimited
import TiraRdp.Rtsp.IMsg
import TiraRdp.Rtsp.RtspSession
import TiraRdp.Lib.Trace
import TiraRdp.Projector.RedirectChannelFactory
import TiraRdp.Projector.Session
import TiraRdp.Redirector.AgentSession
import TiraRdp.System.Pairing
import TiraRdp.Utility.AsyncBaseThreads
import TiraRdp.Utility.AsyncBaseLife
import TiraRdp.Utility.AsyncBaseLockOrder
import TiraRdp.Media.Pipe
import TiraRdp.Projector.SinkTeardown
import TiraRdp.Redirector.AgentTeardown
import TiraRdp.Projector.SessionTeardown
import TiraRdp.Redirector.AudioSocketReader
import TiraRdp.Rdp.Stream
import TiraRdp.Rdp.Gfx
import TiraRdp.Rdp.RdpGfx
import TiraRdp.Rdp.TiraGfx
import TiraRdp.Rdp.GfxLoop
import TiraRdp.Rdp.Sound
import TiraRdp.Lib.Register
import TiraRdp.Lib.Raster
import TiraRdp.Lib.Simd
import TiraRdp.Lib.Mmx
import TiraRdp.Utility.ImageProcess.Scaling
import TiraRdp.Utility.ImageProcess.Bilinear
import TiraRdp.Utility.ImageProcess.YuvToRgb
import TiraRdp.Utility.ImageProcess.Kernels
import TiraRdp.Utility.ImageProcess.YuvSse
import TiraRdp.Utility.ImageProcess.RgbToYuv
import TiraRdp.Lib.Counted
import TiraRdp.Lib.Reassembly
import TiraRdp.Rdp.RdpeiCommon
import TiraRdp.Rdp.RdpeiNumbers
import TiraRdp.Rdp.Rdpei
import TiraRdp.Rdp.FrameOffset
import TiraRdp.Rdp.StaticChannel
import TiraRdp.Projector.SessionManager
import TiraRdp.Redirector.RecordReader
import TiraRdp.Redirector.ReaderStop
import TiraRdp.Utility.ImageProcess.Borders
import TiraRdp.Lib.Blit
import TiraRdp.Utility.ImageBuffer
import TiraRdp.Utility.ImageBuffer.Planar
import TiraRdp.Utility.ImageBuffer.Packed
import TiraRdp.Utility.ImageBuffer.Convert
import TiraRdp.Utility.WaitingBufferThreads
import TiraRdp.Utility.WaitingBufferCancel
import TiraRdp.Utility.AsyncWriterRing
import TiraRdp.Utility.AsyncWriterDrained
import TiraRdp.Utility.AsyncWriterFailure
import TiraRdp.Lib.Pieces
import TiraRdp.Lib.IntType
import TiraRdp.Lib.Labels
import TiraRdp.Utility.StringHelper
import TiraRdp.Utility.MemWriter
import TiraRdp.Utility.Trimmean
import TiraRdp.Rtsp.Decimal
import TiraRdp.Rtsp.RoundTrip
import TiraRdp.Redirector.FreeRdp
import TiraRdp.Utility.OwnedBuffers
import TiraRdp.Projector.TcpChannel
import TiraRdp.Utility.WritableSource
import TiraRdp.Utility.SignalConnection
import TiraRdp.Utility.TimeBasedWorker
import TiraRdp.Utility.WaitingQueue
import TiraRdp.Projector.TouchAndPen
import TiraRdp.System.TouchContacts
import TiraRdp.Rdp.Codec.ZgfxEnds
import TiraRdp.Rdp.GfxSession
import TiraRdp.Rdp.Codec.MppcSession
import TiraRdp.System.ScreenLine
import TiraRdp.Rdp.Codec.RegionSets
