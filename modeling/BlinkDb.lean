import BlinkDb.Model.Bytes
import BlinkDb.Model.HashTable
import BlinkDb.Model.StorageEngine
import BlinkDb.Model.Reaper
import BlinkDb.Model.Resp
import BlinkDb.Model.Connection
import BlinkDb.Model.Client
import BlinkDb.Model.Interactive
import BlinkDb.Model.Server
import BlinkDb.Model.Repl
import BlinkDb.Analysis.Lexing
import BlinkDb.Analysis.HashTableMap
import BlinkDb.Spec.AssocMap
import BlinkDb.Spec.KvMap
import BlinkDb.Spec.ListStore
import BlinkDb.Spec.KvServer
import BlinkDb.Analysis.HashTableRuns
import BlinkDb.Analysis.StoreRefinement
import BlinkDb.Analysis.EngineRefinement
import BlinkDb.Analysis.ReaperRace
import BlinkDb.Analysis.RespRoundTrip
import BlinkDb.Analysis.WireFrames
import BlinkDb.Analysis.ParseTermination
import BlinkDb.Analysis.Framing
import BlinkDb.Analysis.FramerAgreement
import BlinkDb.Analysis.ServerLoop
import BlinkDb.Analysis.Replies
import BlinkDb.Analysis.LoopInvariant
import BlinkDb.Analysis.ClientReplies
import BlinkDb.Analysis.CommandLine
import BlinkDb.Analysis.EndToEnd
import BlinkDb.Analysis.LoopSession
import BlinkDb.Analysis.ReplTokens
import BlinkDb.Analysis.EngineBudget
import BlinkDb.Analysis.ClientDecode
import BlinkDb.Analysis.ReplSession
import BlinkDb.Analysis.ParsePrefix
import BlinkDb.Analysis.LoopClients
import BlinkDb.Analysis.LoopProgress
import BlinkDb.Analysis.WaitingClients
