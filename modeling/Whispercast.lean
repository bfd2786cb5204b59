import Whispercast.Rtmp.Channels
import Whispercast.Rtmp.Clock
import Whispercast.F4v.Tiled
import Whispercast.Rpc.CallsDelivered
import Whispercast.Net.Closing
import Whispercast.Rpc.ClientOpens
import Whispercast.Rtsp.RoundTrip
import Whispercast.Logio.Sessions
import Whispercast.Logio.UsedReader
import Whispercast.Net.Alarms
import Whispercast.Net.SslDelivered
import Whispercast.Rtmp.Publishing
import Whispercast.Rtmp.Rejection
import Whispercast.Logio.Salvaging
import Whispercast.Http.FieldNames
import Whispercast.Http.Limited
import Whispercast.Http.GzipReplies
import Whispercast.F4v.Expansion
import Whispercast.Flv.MediaKept
import Whispercast.Checkpoint.Recovery
import Whispercast.Checkpoint.TornFiles
import Whispercast.Checkpoint.FailedCheckpoints
import Whispercast.Logio.TemporaryFiles
import Whispercast.Checkpoint.TimersKept
import Whispercast.Stream.Composition
import Whispercast.F4v.TagReorder
import Whispercast.Rpc.ExecutorRuns
import Whispercast.Util.CacheRuns
import Whispercast.Rtmp.MediaDataEvent
import Whispercast.Util.PathNormal
import Whispercast.Io.BufferRuns
import Whispercast.Stream.AioFileRuns
import Whispercast.Rpc.HttpProcessorRuns
import Whispercast.Stream.SwitchingElement
import Whispercast.Rtsp.GetParameter
import Whispercast.Rtsp.Sessions
import Whispercast.Rpc.CancelQueries
import Whispercast.Stream.TagDistributor
import Whispercast.Rtp.Sdp
import Whispercast.Rtp.SharedFrame
import Whispercast.Http.FailSafeRuns
import Whispercast.Stream.TimedSchedule
import Whispercast.Stream.DroppingElement
import Whispercast.Util.Alarm
import Whispercast.Net.DnsResolver
import Whispercast.Net.PollTable
