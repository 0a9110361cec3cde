import Seiran.Framework.Binary64
import Seiran.Framework.CommonPrefix
import Seiran.Framework.Counting
import Seiran.Framework.Digits
import Seiran.Framework.Except
import Seiran.Framework.Excerpt
import Seiran.Framework.Int64
import Seiran.Framework.Interleave
import Seiran.Framework.IpAddr
import Seiran.Framework.Json
import Seiran.Framework.Ledger
import Seiran.Framework.Links
import Seiran.Framework.Marks
import Seiran.Framework.Markup
import Seiran.Framework.Paging
import Seiran.Framework.Program
import Seiran.Framework.References
import Seiran.Framework.Run
import Seiran.Framework.SessionLocks
import Seiran.Framework.Sha256
import Seiran.Framework.Sorting
import Seiran.Framework.Splice
import Seiran.Framework.Sql.Expr
import Seiran.Framework.Sql.Lexer
import Seiran.Framework.Sql.Like
import Seiran.Framework.Sql.Recount
import Seiran.Framework.Sql.RecountRuns
import Seiran.Framework.Sql.Reference
import Seiran.Framework.Sql.Table
import Seiran.Framework.Tickets
import Seiran.Framework.TopN
import Seiran.Framework.Window
import Seiran.Framework.ZSet
import Seiran.Model.Actors.Merge
import Seiran.Model.Api.ClientIp
import Seiran.Model.Api.Quotas
import Seiran.Model.Atp.ApplyWrite
import Seiran.Model.Atp.Car
import Seiran.Model.Atp.Commits
import Seiran.Model.Atp.Deferred
import Seiran.Model.Atp.Facets
import Seiran.Model.Atp.Ipld
import Seiran.Model.Atp.Mst
import Seiran.Model.Atp.MstTree
import Seiran.Model.Atp.Record
import Seiran.Model.Atp.Revision
import Seiran.Model.Atp.Service
import Seiran.Model.Auth.Attempts
import Seiran.Model.Auth.Bearer
import Seiran.Model.Auth.OneTime
import Seiran.Model.Daemon.FollowerPoll
import Seiran.Model.Daemon.Leader
import Seiran.Model.Deliver.Audience
import Seiran.Model.Deliver.Pulled
import Seiran.Model.Dm.ConvoLinks
import Seiran.Model.Dm.Import
import Seiran.Model.Dm.Send
import Seiran.Model.Firehose.Ingest
import Seiran.Model.Firehose.Jetstream
import Seiran.Model.Firehose.Subscribe
import Seiran.Model.Follows.Acceptance
import Seiran.Model.Follows.BulkAccept
import Seiran.Model.Follows.Exec
import Seiran.Model.Follows.Import
import Seiran.Model.Follows.Move
import Seiran.Model.Follows.Write
import Seiran.Model.Identity.DidProvision
import Seiran.Model.Identity.KeyBackfill
import Seiran.Model.Inbox.Anchors
import Seiran.Model.Inbox.Content
import Seiran.Model.Inbox.CreateNote
import Seiran.Model.Inbox.Handler
import Seiran.Model.Inbox.Markdown
import Seiran.Model.Inbox.NoteExtras
import Seiran.Model.Inbox.QuoteFallback
import Seiran.Model.Inbox.Signature
import Seiran.Model.Inbox.Signing
import Seiran.Model.Lists.ProxyFollow
import Seiran.Model.Lists.Publish
import Seiran.Model.Media.Gc
import Seiran.Model.Mention.Hashtag
import Seiran.Model.Mention.Mention
import Seiran.Model.Mention.Pieces
import Seiran.Model.Migration.Import
import Seiran.Model.Migration.Jobs
import Seiran.Model.Migration.Request
import Seiran.Model.Net.Collections
import Seiran.Model.Net.Fetch
import Seiran.Model.Notes.Interact
import Seiran.Model.Notes.Reactions
import Seiran.Model.Notes.Reply
import Seiran.Model.Polls.Vote
import Seiran.Model.Posts.Arrivals
import Seiran.Model.Posts.Database
import Seiran.Model.Posts.Merge
import Seiran.Model.Posts.Write
import Seiran.Model.Queue.Memory
import Seiran.Model.Queue.Redis
import Seiran.Model.Queue.Worker
import Seiran.Model.Search.PostSearch
import Seiran.Model.Search.Query
import Seiran.Model.Search.Session
import Seiran.Model.Search.Tokenizer
import Seiran.Model.Search.Truth
import Seiran.Model.Timeline.Database
import Seiran.Model.Timeline.Dm
import Seiran.Model.Timeline.Feed
import Seiran.Model.Timeline.HomePage
import Seiran.Model.Timeline.Stream
import Seiran.Model.Timeline.Timelines
import Seiran.Proof.Actors.Convergence
import Seiran.Proof.Actors.Discovery
import Seiran.Proof.Api.ClientIp
import Seiran.Proof.Api.Quotas
import Seiran.Proof.Atp.ApplyWrite
import Seiran.Proof.Atp.Car
import Seiran.Proof.Atp.Commits
import Seiran.Proof.Atp.Deferred
import Seiran.Proof.Atp.Facets
import Seiran.Proof.Atp.Formats
import Seiran.Proof.Atp.LinkFacets
import Seiran.Proof.Atp.Mst
import Seiran.Proof.Atp.MstTree
import Seiran.Proof.Atp.Record
import Seiran.Proof.Atp.Revision
import Seiran.Proof.Atp.Service
import Seiran.Proof.Atp.Varint
import Seiran.Proof.Auth.Attempts
import Seiran.Proof.Auth.Bearer
import Seiran.Proof.Auth.OneTime
import Seiran.Proof.Daemon.FollowerPoll
import Seiran.Proof.Daemon.Leader
import Seiran.Proof.Deliver.Addressing
import Seiran.Proof.Deliver.Audience
import Seiran.Proof.Deliver.Pulled
import Seiran.Proof.Dm.Import
import Seiran.Proof.Dm.Send
import Seiran.Proof.Firehose.Ingest
import Seiran.Proof.Firehose.Jetstream
import Seiran.Proof.Firehose.Subscribe
import Seiran.Proof.Follows.Acceptance
import Seiran.Proof.Follows.BulkAccept
import Seiran.Proof.Follows.Counts
import Seiran.Proof.Follows.Exec
import Seiran.Proof.Follows.Import
import Seiran.Proof.Follows.Move
import Seiran.Proof.Identity.DidProvision
import Seiran.Proof.Identity.KeyBackfill
import Seiran.Proof.Inbox.Anchors
import Seiran.Proof.Inbox.CreateNote
import Seiran.Proof.Inbox.Markdown
import Seiran.Proof.Inbox.QuoteFallback
import Seiran.Proof.Inbox.Rewriting
import Seiran.Proof.Inbox.Search
import Seiran.Proof.Inbox.Signature
import Seiran.Proof.Inbox.Signing
import Seiran.Proof.Inbox.Whitespace
import Seiran.Proof.Lists.Mirror
import Seiran.Proof.Lists.ProxyFollow
import Seiran.Proof.Lists.Rows
import Seiran.Proof.Media.Gc
import Seiran.Proof.Mention.BskyFacets
import Seiran.Proof.Mention.Hashtag
import Seiran.Proof.Mention.Mention
import Seiran.Proof.Mention.Pieces
import Seiran.Proof.Migration.Abandon
import Seiran.Proof.Migration.Import
import Seiran.Proof.Migration.Jobs
import Seiran.Proof.Migration.PlcBoundary
import Seiran.Proof.Migration.Request
import Seiran.Proof.Net.Collections
import Seiran.Proof.Net.Fetch
import Seiran.Proof.Notes.Interact
import Seiran.Proof.Notes.Reactions
import Seiran.Proof.Notes.Reply
import Seiran.Proof.Polls.Tally
import Seiran.Proof.Posts.Arrivals
import Seiran.Proof.Posts.Counters
import Seiran.Proof.Posts.Counts
import Seiran.Proof.Posts.Forms
import Seiran.Proof.Posts.Merge
import Seiran.Proof.Posts.Rows
import Seiran.Proof.Queue.Conservation
import Seiran.Proof.Queue.Order
import Seiran.Proof.Queue.Redis
import Seiran.Proof.Search.Balance
import Seiran.Proof.Search.Optimize
import Seiran.Proof.Search.PostSearch
import Seiran.Proof.Search.Query
import Seiran.Proof.Search.Session
import Seiran.Proof.Timeline.Dm
import Seiran.Proof.Timeline.Feed
import Seiran.Proof.Timeline.HomePage
import Seiran.Proof.Timeline.Snowflake
import Seiran.Proof.Timeline.Stream
import Seiran.Proof.Timeline.Timelines
