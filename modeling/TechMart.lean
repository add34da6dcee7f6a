import TechMart.Python.Text
import TechMart.Python.Lock
import TechMart.ModelLoader
import TechMart.Python.Value
import TechMart.Sql.Table
import TechMart.Main.Caller
import TechMart.Main.AnswerXml
import TechMart.Main.Session
import TechMart.Main.ActiveCalls
import TechMart.Posix.Path
import TechMart.Main.Recording
import TechMart.Python.Json
import TechMart.Python.Prog
import TechMart.Python.Runs
import TechMart.Admin.Router
import TechMart.Admin.Store
import TechMart.Admin.Phase
import TechMart.Admin.Shadow
import TechMart.Admin.Recovery
import TechMart.Admin.Clients
import TechMart.Admin.Ids
import TechMart.Bot.Adapter
import TechMart.Bot.BargeIn
import TechMart.Bot.Conversation
import TechMart.Bot.Stage
import TechMart.Bot.Reply
import TechMart.Bot.Language
import TechMart.Bot.Sentiment
import TechMart.Graph.Containment
import TechMart.Graph.Replies
import TechMart.Graph.Isolation
import TechMart.Graph.Support
import TechMart.Admin.Live
import TechMart.Admin.References
import TechMart.Db.MigrateSpecs
import TechMart.Db.Migration
import TechMart.Graph.Truncation
import TechMart.Graph.Degradation
import TechMart.Db.Ingest
import TechMart.Db.Fields
import TechMart.Db.Embeddings
import TechMart.Sql.Search
import TechMart.Graph.Steering
import TechMart.Web.Base64
import TechMart.Web.Playout
import TechMart.Bot.WebSerializer
import TechMart.WebCallClient.App
import TechMart.WebCallClient.Microphone
import TechMart.WebCallClient.Lifecycle
import TechMart.Web.Attribute
import TechMart.Web.Stringify
import TechMart.Web.Message
import TechMart.Admin.Page
import TechMart.Admin.Columns
import TechMart.Admin.Cells
import TechMart.Admin.Coercions
import TechMart.Admin.Loaded
import TechMart.Admin.LoadSave
import TechMart.Db.Schema
import TechMart.Db.Deployments
import TechMart.Db.ClickhouseClient
import TechMart.Db.History
import TechMart.Signal.Debounce
import TechMart.Signal.Windows
import TechMart.Signal.Stretches
import TechMart.Pipecat.FrameProcessor
import TechMart.Bot.StageProcessor
import TechMart.Pipecat.Vad
import TechMart.Pipecat.UserTurn
import TechMart.Pipecat.AssistantTurn
import TechMart.Pipecat.MediaSender
import TechMart.Pipecat.Pacing
import TechMart.WebCallClient.Speaker
import TechMart.Pipecat.Speech
import TechMart.Bot.Greeting
import TechMart.Bot.Spoken
import TechMart.Bot.Remembered
import TechMart.Bot.Utterance
import TechMart.Main.Transfer
