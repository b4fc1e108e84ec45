import SystemDesign.AdClick.Pipeline
import SystemDesign.Autocomplete.TrieSearch
import SystemDesign.Chat.Acknowledgements
import SystemDesign.Chat.Views
import SystemDesign.ConsistentHash.Migration
import SystemDesign.ConsistentHash.Preference
import SystemDesign.DataNode.Recovery
import SystemDesign.Email.Delivery
import SystemDesign.FileSync.ConflictNames
import SystemDesign.Hotel.SagaSpec
import SystemDesign.KvStorage.SSTableLookup
import SystemDesign.KvStorage.Visibility
import SystemDesign.KvStorage.WalReplay
import SystemDesign.KvStore.CoordinatorSpec
import SystemDesign.KvStore.Repair
import SystemDesign.Leaderboard.RankingSpec
import SystemDesign.Leaderboard.RedisProtocolSpec
import SystemDesign.Maps.Polyline
import SystemDesign.Maps.Refreshes
import SystemDesign.Maps.RoutingSpec
import SystemDesign.MessageQueue.GroupsSpec
import SystemDesign.MessageQueue.LogSync
import SystemDesign.Metrics.AlertsSafe
import SystemDesign.Metrics.CollectorSpec
import SystemDesign.NearbyFriends.Disclosure
import SystemDesign.Notification.Delivery
import SystemDesign.Notification.Quotas
import SystemDesign.ObjectStore.IntentsSpec
import SystemDesign.Payment.ReceiptOrder
import SystemDesign.Proximity.Publication
import SystemDesign.RateLimiter.BucketLimits
import SystemDesign.RateLimiter.WindowCounterRetry
import SystemDesign.RateLimiter.WindowLogLimits
import SystemDesign.ScaleFromZero.FailOver
import SystemDesign.ScaleFromZero.Freshness
import SystemDesign.StockExchange.AuditSpec
import SystemDesign.StockExchange.Priority
import SystemDesign.StockExchange.SequencerSpec
import SystemDesign.StockExchange.Uncrossed
import SystemDesign.UniqueId.Snowflake
import SystemDesign.UrlShortener.Links
import SystemDesign.VideoStreaming.Collection
import SystemDesign.Wallet.Audit
import SystemDesign.Wallet.Journal
import SystemDesign.WebCrawler.FrontierSpec
import SystemDesign.WebCrawler.Robots
