import RadioJockey.Lib.Transition
import RadioJockey.Lib.Channel
import RadioJockey.SessionQueue
import RadioJockey.SessionManager
import RadioJockey.EventLoop
import RadioJockey.Teardown
import RadioJockey.AllOrNothing
import RadioJockey.Archives
import RadioJockey.Playback
import RadioJockey.Skip
import RadioJockey.Inactivity
import RadioJockey.Cache
import RadioJockey.AddTrack
import RadioJockey.Snapshots
import RadioJockey.QueuedFiles
import RadioJockey.AdminTokens
import RadioJockey.DiskAccounting
import RadioJockey.Lib.Base64
import RadioJockey.Lib.HttpGrammar
import RadioJockey.Handshake
import RadioJockey.EventLog
import RadioJockey.Consumers
import RadioJockey.Cancels
import RadioJockey.QueueOrder
import RadioJockey.Wakeups
import RadioJockey.Lib.TokenBucket
import RadioJockey.RateLimit
import RadioJockey.Nonces
import RadioJockey.CacheRuns
import RadioJockey.Restart
import RadioJockey.Downloads
import RadioJockey.Lib.GoSlice
import RadioJockey.QueueSlices
import RadioJockey.Registry
import RadioJockey.Lib.CleanPath
import RadioJockey.StreamURL
import RadioJockey.HtmlEntities
import RadioJockey.Lib.JsMap
import RadioJockey.SearchCache
import RadioJockey.Pagination
import RadioJockey.DiscordPlayback
import RadioJockey.ArchiveReplay
import RadioJockey.SessionRpcs
import RadioJockey.Lib.SqlTable
import RadioJockey.Migrations
import RadioJockey.Eviction
import RadioJockey.ArchiveDeletion
import RadioJockey.Lib.Retry
import RadioJockey.Retries
import RadioJockey.IcecastConnection
import RadioJockey.Ytdlp
import RadioJockey.YouTube
import RadioJockey.SearchEviction
import RadioJockey.Slugs
import RadioJockey.EntityDecoding
import RadioJockey.Quiescence
import RadioJockey.Convergence
import RadioJockey.Ready
import RadioJockey.RequestWait
import RadioJockey.BotAuth
import RadioJockey.Lib.Pointwise
import RadioJockey.StationPage
import RadioJockey.Lib.NetURL
import RadioJockey.Lib.Runes
import RadioJockey.YouTubeURL
import RadioJockey.RateBudget
import RadioJockey.StationNames
import RadioJockey.PlaysOut
import RadioJockey.Lib.Base64Url
import RadioJockey.Keys
import RadioJockey.Lib.Linearizability
import RadioJockey.Service
