import RespStore.Main
import RespStore.Text.Quoted
import RespStore.Text.Fingerprint
import RespStore.Number.Binary32
import RespStore.Number.Binary64.Read
import RespStore.Number.Binary64.Print
import RespStore.Frame.Display
import RespStore.Frame.Parse
import RespStore.Frame.Wire
import RespStore.Protocol.Decoder
import RespStore.Collection.Dict
import RespStore.Collection.LinkedList
import RespStore.Collection.SkipList
import RespStore.Collection.SortedSet
import RespStore.Collection.IndexRange
import RespStore.Keyspace.Store
import RespStore.Command.Run
import RespStore.Log.Replay
import RespStore.Server
import RespStore.Proofs.Collection.Dict
import RespStore.Proofs.Collection.LinkedList
import RespStore.Proofs.Collection.SkipList.Link
import RespStore.Proofs.Collection.SkipList.Order
import RespStore.Proofs.Collection.SkipList.Represents
import RespStore.Proofs.Collection.SkipList.Descent
import RespStore.Proofs.Collection.SkipList.Splice
import RespStore.Proofs.Collection.SkipList.Insert
import RespStore.Proofs.Collection.SkipList.Delete
import RespStore.Proofs.Collection.SkipList.Contents
import RespStore.Proofs.Collection.SkipList.Lookup
import RespStore.Proofs.Collection.SkipList.Range
import RespStore.Proofs.Collection.SkipList.Shape
import RespStore.Proofs.Collection.SkipList.History
import RespStore.Proofs.Collection.SortedSet
import RespStore.Proofs.Collection.DictMap
import RespStore.Proofs.History
import RespStore.Proofs.Collection.DictHistory
import RespStore.Proofs.Collection.ListHistory
import RespStore.Proofs.Collection.SortedSetHistory
import RespStore.Proofs.Collection.Positions
import RespStore.Proofs.Keyspace.View
import RespStore.Proofs.Keyspace.Db
import RespStore.Proofs.Keyspace.Change
import RespStore.Proofs.Command.String
import RespStore.Proofs.Keyspace.Write
import RespStore.Proofs.Command.List
import RespStore.Proofs.Command.Hash
import RespStore.Proofs.Command.Set
import RespStore.Proofs.Command.Key
import RespStore.Proofs.Command.SortedSet
import RespStore.Proofs.Number.Decimal
import RespStore.Proofs.Bytes
import RespStore.Proofs.Protocol.WireForm
import RespStore.Proofs.Protocol.Front
import RespStore.Proofs.Protocol.Stream
import RespStore.Proofs.Protocol.Limits
import RespStore.Proofs.Frame.RoundTrip
import RespStore.Proofs.Command.Refusal
import RespStore.Proofs.Command.Reply
import RespStore.Proofs.Answering
import RespStore.Proofs.Protocol.Decoder
import RespStore.Proofs.Command.Arguments
import RespStore.Proofs.Text.LetterCase
import RespStore.Proofs.Command.Table
import RespStore.Proofs.Log.Request
import RespStore.Proofs.Log.Readback
import RespStore.Proofs.Command.Run
import RespStore.Proofs.Command.Timeless
import RespStore.Proofs.Log.Record
import RespStore.Proofs.Log.Replay
import RespStore.Proofs.Server
import RespStore.Proofs.Serving
import RespStore.Proofs.Failure
import RespStore.Proofs.Restore
import RespStore.Proofs.Command.Stale.Change
import RespStore.Proofs.Command.Stale.Command
import RespStore.Proofs.Landing
import RespStore.Proofs.Readable
import RespStore.Proofs.Restart
import RespStore.Proofs.Protocol.Pipeline
import RespStore.Proofs.Clients
import RespStore.Proofs.Elements
import RespStore.Proofs.Confined
import RespStore.Proofs.Expired
import RespStore.Proofs.Frame.Stability
import RespStore.Proofs.Frame.Parse
import RespStore.Proofs.Protocol.Agreement
import RespStore.Proofs.Log.Executed
import RespStore.Proofs.Log.Item
import RespStore.Proofs.Log.Lifetimes
import RespStore.Proofs.Protocol.Calls
import RespStore.Proofs.Connection
import RespStore.Proofs.Command.OneKey
import RespStore.Proofs.IndexRanges
import RespStore.Proofs.ScoreRanges
import RespStore.Proofs.Moving
import RespStore.Proofs.Occurrences
import RespStore.Proofs.Counters
import RespStore.Proofs.RemainingLife
import RespStore.Proofs.Insertions
import RespStore.Proofs.Counts
import RespStore.Proofs.Collection.RandomKey
import RespStore.Proofs.RandomRemoval
import RespStore.Proofs.Collection.RandomDraw
import RespStore.Proofs.Keyspace.RandomKey
import RespStore.Proofs.RandomKeys
import RespStore.Proofs.Text.Utf8
import RespStore.Proofs.Text.Glob
import RespStore.Proofs.PrefixKeys
import RespStore.Proofs.Protocol.Inline
import RespStore.Proofs.InlineRequests
import RespStore.Proofs.Checked
import RespStore.Proofs.Frame.Positions
import RespStore.Proofs.Protocol.Received
import RespStore.Proofs.Protocol.Places
import RespStore.Proofs.Protocol.Positions
import RespStore.Proofs.Number.Binary64.Round
import RespStore.Proofs.Number.Binary64.Shortest
import RespStore.Proofs.Number.Binary64.Text
import RespStore.Proofs.WrittenFloats
