import Omni.Library.Transition
import Omni.Library.Ledger
import Omni.Library.Text
import Omni.Library.Dict
import Omni.Library.Framing
import Omni.Library.Rendezvous
import Omni.Library.Utf8
import Omni.Library.Words
import Omni.Library.Recency
import Omni.Cache.StageCache
import Omni.Cache.ReferenceEncode
import Omni.Coordinator.State
import Omni.Coordinator.Handlers
import Omni.Coordinator.Steps
import Omni.Coordinator.Book
import Omni.Coordinator.Effects
import Omni.Coordinator.Agreement
import Omni.Coordinator.AgreementSteps
import Omni.Coordinator.AgreementCalls
import Omni.Coordinator.Outcome
import Omni.Coordinator.Moves
import Omni.Coordinator.Frame
import Omni.Coordinator.Refusal
import Omni.Library.Prefix
import Omni.Coordinator.Reach
import Omni.Coordinator.Keyed
import Omni.Coordinator.Messages
import Omni.Coordinator.Merging
import Omni.Coordinator.Consumer
import Omni.Coordinator.Merge
import Omni.Library.Pool
import Omni.Comm.Payload
import Omni.Comm.Engine
import Omni.Comm.Steps
import Omni.Comm.Account
import Omni.Comm.AccountSteps
import Omni.Comm.AccountRuns
import Omni.Comm.Credits
import Omni.Comm.SelfBlock
import Omni.Comm.DirectIpc
import Omni.Comm.Duplicate
import Omni.Scheduler.State
import Omni.Scheduler.Inbox
import Omni.Library.Rows
import Omni.Library.Masks
import Omni.Scheduler.Abort
import Omni.Scheduler.Loop
import Omni.Scheduler.Effects
import Omni.Scheduler.Pieces
import Omni.Library.Slots
import Omni.Relay.CreditAllocator
import Omni.Relay.Mooncake
import Omni.Relay.Nixl
import Omni.Relay.SlotAllocator
import Omni.Relay.SlotPool
import Omni.Relay.Sharing
import Omni.Relay.CudaIpc
import Omni.Relay.Quarantine
import Omni.Tp.Admin
import Omni.Tp.Collect
import Omni.Comm.StageIo
import Omni.Comm.Positions
import Omni.Scheduler.Aging
import Omni.Scheduler.Alignment
import Omni.Scheduler.Conservation
import Omni.Scheduler.Pause
import Omni.Scheduler.Selection
import Omni.Scheduler.Distinct
import Omni.Scheduler.Places
import Omni.Scheduler.Lifetimes
import Omni.Comm.RoundTrip
import Omni.Runner.State
import Omni.Runner.Lifecycle
import Omni.Runner.Covered
import Omni.Runner.Phases
import Omni.Runner.Cleanup
import Omni.Stage.State
import Omni.Stage.Receive
import Omni.Stage.Send
import Omni.Stage.Steps
import Omni.Stage.Log
import Omni.Library.Lanes
import Omni.Stage.Handled
import Omni.Stage.Tasks
import Omni.Stage.Receiving
import Omni.Stage.LaneOrder
import Omni.Stage.Failing
import Omni.Stage.Held
import Omni.Stage.Abort
import Omni.Stage.Closing
import Omni.Stage.Containment
import Omni.Library.DepthFirst
import Omni.Stage.Isolation
import Omni.Stage.FanIn
import Omni.Thinker.Inputs
import Omni.Thinker.Prompts
import Omni.Thinker.Ming
import Omni.Thinker.Qwen
import Omni.Thinker.Deepstack
import Omni.Thinker.Placeholders
import Omni.Thinker.Rollout
import Omni.Tts.FishRuns
import Omni.Tts.FishVocoder
import Omni.Tts.DelayWindDown
import Omni.Tts.MossDelay
import Omni.Tts.SpeechModels
import Omni.Tts.HiggsSampler
import Omni.Tts.HiggsDelay
import Omni.Tts.HiggsVocoder
import Omni.Tts.MossStatePool
import Omni.Tts.MossVocoder
import Omni.Tts.MossSlots
import Omni.Tts.MossPump
import Omni.Tts.PreparedRequests
import Omni.Simple.Concurrent
import Omni.Simple.AbortMemory
import Omni.Simple.Collect
import Omni.Streaming.Vocoder
import Omni.Streaming.Abort
import Omni.Streaming.Moves
import Omni.Streaming.Shape
import Omni.Streaming.Terminal
import Omni.Streaming.TerminalRuns
import Omni.Realtime.Turns
import Omni.Detokenize.Scheduler
import Omni.Detokenize.Aborted
import Omni.Detokenize.Lossless
import Omni.Ming.Segments
import Omni.Ming.StreamingStage
import Omni.Ming.StreamingSegmenter
import Omni.Ming.StreamingTalker
import Omni.Ming.ThinkerStream
import Omni.Tts.RadixHash
import Omni.Proto.Messages
import Omni.Proto.TypedTensor
import Omni.Realtime.Audio
import Omni.Serve.Chat
import Omni.Serve.Segmentation
import Omni.Serve.Speech
import Omni.Serve.SpeechRelease
import Omni.Serve.SpeechSocket
import Omni.Router.Quarantine
import Omni.Router.Enabled
import Omni.Router.Proxy
import Omni.Router.Selection
import Omni.Scheduler.Lookahead
import Omni.Scheduler.TokenRows
import Omni.Scheduler.StaleOverrun
import Omni.Scheduler.Threads
import Omni.Scheduler.Leftovers
import Omni.Tts.Handoff
import Omni.Tts.VoicePrompt
import Omni.Tts.VoiceCache
import Omni.Media.CacheKey
import Omni.Media.Connector
import Omni.Media.Policy
import Omni.Media.VideoList
import Omni.Media.ImageResize
import Omni.Asr.Progress
import Omni.Asr.StreamedText
import Omni.Dllm.Scheduler
import Omni.Dllm.Sound
import Omni.Dllm.Rounds
