import WhatsappEsp32.Lib.CrashLogic
import WhatsappEsp32.Lib.Dict
import WhatsappEsp32.Lib.Newest
import WhatsappEsp32.Lib.Recency
import WhatsappEsp32.Lib.RustIo
import WhatsappEsp32.Lib.RustStr
import WhatsappEsp32.Lib.Sink
import WhatsappEsp32.Lib.Stream
import WhatsappEsp32.Lib.Threads
import WhatsappEsp32.Lib.Trace
import WhatsappEsp32.Storage.AppState
import WhatsappEsp32.Storage.Batch
import WhatsappEsp32.Storage.Boot
import WhatsappEsp32.Storage.BootLog
import WhatsappEsp32.Storage.Caps
import WhatsappEsp32.Storage.CompositeKey
import WhatsappEsp32.Storage.Concurrent
import WhatsappEsp32.Storage.Flash
import WhatsappEsp32.Storage.FlashSpec
import WhatsappEsp32.Storage.Image
import WhatsappEsp32.Storage.LidMappings
import WhatsappEsp32.Storage.Lru
import WhatsappEsp32.Storage.LruRuns
import WhatsappEsp32.Storage.Mirror
import WhatsappEsp32.Storage.Nvs
import WhatsappEsp32.Storage.Races
import WhatsappEsp32.Storage.Record
import WhatsappEsp32.Storage.RecordFormat
import WhatsappEsp32.Storage.RecordName
import WhatsappEsp32.Storage.Refinement
import WhatsappEsp32.Storage.Reopen
import WhatsappEsp32.Storage.Reset
import WhatsappEsp32.Storage.Sealing
import WhatsappEsp32.Storage.SlotCache
import WhatsappEsp32.Storage.Store
import WhatsappEsp32.Storage.StoreSpec
import WhatsappEsp32.Storage.SyncMarker
import WhatsappEsp32.Storage.TcTokens
import WhatsappEsp32.Storage.Wear
import WhatsappEsp32.Crash.PanicRecord
import WhatsappEsp32.Http.Agreement
import WhatsappEsp32.Http.Authority
import WhatsappEsp32.Http.BodyFraming
import WhatsappEsp32.Http.Chunked
import WhatsappEsp32.Http.Grammar
import WhatsappEsp32.Http.Request
import WhatsappEsp32.Http.Response
import WhatsappEsp32.Http.Truncation
import WhatsappEsp32.Ws.Client
import WhatsappEsp32.Ws.Decode
import WhatsappEsp32.Ws.Frame
import WhatsappEsp32.Ws.Framing
import WhatsappEsp32.Ws.Handshake
import WhatsappEsp32.Ws.Outbound
import WhatsappEsp32.Ws.ReaderSpec
import WhatsappEsp32.Ws.Safety
import WhatsappEsp32.Ws.Session
import WhatsappEsp32.Ws.Upgrade
import WhatsappEsp32.Transport.Delivery
import WhatsappEsp32.Transport.Jobs
import WhatsappEsp32.Transport.Steps
import WhatsappEsp32.Transport.Thread
import WhatsappEsp32.Transport.Waiting
import WhatsappEsp32.Transport.Wire
import WhatsappEsp32.Admin.CancelStart
import WhatsappEsp32.Admin.DeviceStatus
import WhatsappEsp32.Admin.Maintenance
import WhatsappEsp32.Admin.MessageLog
import WhatsappEsp32.Admin.PairCode
import WhatsappEsp32.Admin.QuietPeriod
import WhatsappEsp32.Admin.Routes
import WhatsappEsp32.Admin.Tokenless
import WhatsappEsp32.Admin.SendTask
import WhatsappEsp32.Lib.Worker
import WhatsappEsp32.Runtime.BlockingWorker
import WhatsappEsp32.Storage.FlashWorker
import WhatsappEsp32.Admin.PairTask
import WhatsappEsp32.Admin.StoreStats
import WhatsappEsp32.Lib.Heap
import WhatsappEsp32.Runtime.PsramAlloc
import WhatsappEsp32.Storage.MsgSecrets
import WhatsappEsp32.Storage.SenderKeyDevices
import WhatsappEsp32.Supervisor.BotEvents
import WhatsappEsp32.Supervisor.TaskWatchdog
import WhatsappEsp32.Http.Exchange
import WhatsappEsp32.Storage.SentMessages
