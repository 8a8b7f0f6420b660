import MyKvRaft.Append.Accepted
import MyKvRaft.Append.CommitPrefix
import MyKvRaft.Append.Contract
import MyKvRaft.Append.Probing
import MyKvRaft.Clerk.Clerk
import MyKvRaft.Clerk.Copies
import MyKvRaft.Clerk.ExactlyOnce
import MyKvRaft.Clerk.Numbers
import MyKvRaft.Common.BestFirst
import MyKvRaft.Common.BinaryFile
import MyKvRaft.Common.Ensures
import MyKvRaft.Common.Greedy
import MyKvRaft.Common.InStream
import MyKvRaft.Common.Outcome
import MyKvRaft.Common.PrefixCode
import MyKvRaft.Common.PriorityQueue
import MyKvRaft.Common.Run
import MyKvRaft.Common.Splice
import MyKvRaft.Consensus.Ballot
import MyKvRaft.Consensus.Ledger
import MyKvRaft.Consensus.TermLog
import MyKvRaft.Hnsw.Engine
import MyKvRaft.Hnsw.Graph
import MyKvRaft.Hnsw.IndexCheck
import MyKvRaft.Hnsw.Insertion
import MyKvRaft.Hnsw.Integrity
import MyKvRaft.Hnsw.Memory
import MyKvRaft.Hnsw.Operations
import MyKvRaft.Hnsw.SavedIndex
import MyKvRaft.Hnsw.Search
import MyKvRaft.Hnsw.Space
import MyKvRaft.Hnsw.Update
import MyKvRaft.Hnsw.VisitedList
import MyKvRaft.KvServer.Contents
import MyKvRaft.KvServer.Decoding
import MyKvRaft.KvServer.Dimensions
import MyKvRaft.KvServer.Exceptions
import MyKvRaft.KvServer.Features
import MyKvRaft.KvServer.IndexFile
import MyKvRaft.KvServer.KvServer
import MyKvRaft.KvServer.Libs
import MyKvRaft.KvServer.LiveItems
import MyKvRaft.KvServer.Once
import MyKvRaft.KvServer.OpCoder
import MyKvRaft.KvServer.RecallEngine
import MyKvRaft.KvServer.Records
import MyKvRaft.KvServer.Replica
import MyKvRaft.KvServer.Replies
import MyKvRaft.KvServer.RoundTrip
import MyKvRaft.KvServer.Searching
import MyKvRaft.KvServer.Threads
import MyKvRaft.Leader.Batches
import MyKvRaft.Leader.Bounds
import MyKvRaft.Leader.Buffers
import MyKvRaft.Leader.Counting
import MyKvRaft.Leader.Moves
import MyKvRaft.Leader.Schedule
import MyKvRaft.Leader.Sender
import MyKvRaft.Leader.Speaking
import MyKvRaft.Leader.Streams
import MyKvRaft.Raft.Cluster
import MyKvRaft.Raft.Durable
import MyKvRaft.Raft.Handlers
import MyKvRaft.Raft.Lifetimes
import MyKvRaft.Raft.Messages
import MyKvRaft.Raft.Node
import MyKvRaft.Raft.Persister
import MyKvRaft.Raft.Sends
import MyKvRaft.Raft.WorkLoop
import MyKvRaft.Safety.ApplyStream
import MyKvRaft.Safety.Asserts
import MyKvRaft.Safety.Calls
import MyKvRaft.Safety.Candidacy
import MyKvRaft.Safety.Commands
import MyKvRaft.Safety.Commit
import MyKvRaft.Safety.Effects
import MyKvRaft.Safety.Election
import MyKvRaft.Safety.Following
import MyKvRaft.Safety.Leadership
import MyKvRaft.Safety.LogMatching
import MyKvRaft.Safety.LogOps
import MyKvRaft.Safety.LogSteps
import MyKvRaft.Safety.OwnSteps
import MyKvRaft.Safety.Persistence
import MyKvRaft.Safety.Positions
import MyKvRaft.Safety.Replication
import MyKvRaft.Safety.StateMachine
import MyKvRaft.Safety.Voting
import MyKvRaft.Snapshot.Acks
import MyKvRaft.Snapshot.Applied
import MyKvRaft.Snapshot.Install
import MyKvRaft.Snapshot.Routing
import MyKvRaft.Snapshot.Suffix
import MyKvRaft.System.Reads
import MyKvRaft.System.System
