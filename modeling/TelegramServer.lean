import TelegramServer.Store.QuizSecrecy
import TelegramServer.Store.Replies
import TelegramServer.Channels.Seats
import TelegramServer.Channels.Rights
import TelegramServer.Channels.SlowMode
import TelegramServer.Channels.Sends
import TelegramServer.Channels.SummaryCounts
import TelegramServer.Api.Affected
import TelegramServer.Api.ReadUpdates
import TelegramServer.Api.Sends
import TelegramServer.Api.Pins
import TelegramServer.Api.Snippet
import TelegramServer.Api.FolderTitles
import TelegramServer.Push.FanOut
import TelegramServer.Notify.SchedulerOrder
import TelegramServer.Sessions.Scan
import TelegramServer.Sessions.FolderClaims
import TelegramServer.Secret.Events
import TelegramServer.Secret.Catchup
import TelegramServer.Secret.Probing
import TelegramServer.Srp.Challenges
import TelegramServer.Blob.Erasure
import TelegramServer.Blob.Listing
import TelegramServer.Admin.DeliveryLag
import TelegramServer.Admin.Metrics
import TelegramServer.Edge.Discovery
import TelegramServer.Edge.LogSampler
import TelegramServer.Edge.ProxyProto
