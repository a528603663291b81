import Myna.Lib.StepSystem
import Myna.Lib.Rounding
import Myna.Lib.Regions
import Myna.Lib.Segment
import Myna.Lib.SequenceMatcher
import Myna.Core.Audio
import Myna.Streaming.Window
import Myna.Streaming.Words
import Myna.Streaming.Dedupe
import Myna.Streaming.Vad
import Myna.Streaming.Strategies
import Myna.Streaming.Loop
import Myna.Streaming.LoopFrame
import Myna.Streaming.LoopWindow
import Myna.Streaming.LoopPass
import Myna.Streaming.LoopProgress
import Myna.Streaming.LoopCoverage
import Myna.Streaming.FrameMachine
import Myna.Streaming.LoopTranscript
import Myna.Streaming.LoopPartials
import Myna.Streaming.Levels
import Myna.Streaming.Timeline
import Myna.Streaming.Settled
import Myna.Streaming.SilenceExactlyOnce
import Myna.Streaming.AgreementExactlyOnce
import Myna.Lib.Polyphase
import Myna.Core.Resample
import Myna.Lib.History
import Myna.Core.Ingress
import Myna.Client.Capture
import Myna.Orchestrator.Fsm
import Myna.Orchestrator.FsmRuns
import Myna.Orchestrator.Driver
import Myna.Orchestrator.PumpCapture
import Myna.Client.Ring
import Myna.Desktop.CommitBuffer
import Myna.Desktop.Controller
import Myna.Desktop.ControllerRuns
import Myna.Desktop.Typed
import Myna.Core.Ie115
import Myna.Core.Connection
import Myna.Core.ConnectionItems
import Myna.Core.ConnectionOrder
import Myna.Core.ConnectionTerminals
import Myna.Lib.Strip
import Myna.Client.Keywords
import Myna.Lib.Dict
import Myna.Lib.Reach
import Myna.Lib.LongestSuffix
import Myna.Testbed.KeywordBias
import Myna.Testbed.KeywordPaths
import Myna.Testbed.KeywordMatch
import Myna.Lib.While
import Myna.Testbed.ParakeetDecode
import Myna.Testbed.ParakeetRuns
import Myna.Testbed.LanguageTags
import Myna.Testbed.Nemotron
import Myna.Testbed.NemotronRuns
import Myna.Lib.Json
import Myna.Core.EventsWire
import Myna.Core.Ie115Decode
import Myna.Config.ApplyPlan
import Myna.Config.PlanShapes
import Myna.Config.PlanRuns
import Myna.Desktop.ControlTrigger
import Myna.Desktop.ControlTriggerTurns
import Myna.Desktop.ControlTriggerRuns
import Myna.Desktop.ControlTriggerBursts
import Myna.Desktop.Lease
import Myna.Desktop.LeaseRuns
import Myna.Desktop.LeaseClock
import Myna.Desktop.LeaseField
import Myna.Lib.Suspend
import Myna.Desktop.IbusTarget
import Myna.Desktop.IbusTargetRight
import Myna.Desktop.IbusTargetHeld
import Myna.Config.HudHost
import Myna.Config.HudHostRuns
import Myna.Config.Connections
import Myna.Config.ActiveBackend
import Myna.Config.BackendController
import Myna.Config.SwitchLoss
import Myna.Config.SwitchSteps
import Myna.Config.BackendApply
import Myna.Config.PageReads
import Myna.Desktop.DbusIndicator
import Myna.Desktop.ClientRegistry
import Myna.Client.Voice
import Myna.Testbed.ParakeetRewinds
import Myna.Streaming.DedupeAlignment
import Myna.Client.Continuity
import Myna.Testbed.EditCountsAgree
import Myna.Desktop.NotifyIndicator
import Myna.Hud.WindowRuns
import Myna.Hud.Bus
import Myna.Config.MynaSettings
import Myna.Client.DataPathRuns
import Myna.Desktop.EngineHandback
import Myna.Desktop.EngineHandbackRuns
import Myna.Desktop.EngineOwed
import Myna.Desktop.CommitPieces
import Myna.Lib.Lines
import Myna.Orchestrator.ProviderEnv
import Myna.Lib.Weighted
import Myna.Benchmarker.Quantile
import Myna.Platform.WorkArea
import Myna.Lib.Replace
import Myna.Config.SnapInstall
import Myna.Config.Redaction
import Myna.Testbed.KeywordNearest
import Myna.Testbed.KeywordCorrect
import Myna.Testbed.WhisperBatch
import Myna.Testbed.WhisperFinals
import Myna.Lib.Arrivals
import Myna.Config.SnapdResponse
import Myna.Config.SnapdWaits
import Myna.Config.SnapdChunks
import Myna.Config.SnapdBodies
import Myna.Config.SnapdWellFormed
import Myna.Config.SnapdSplits
import Myna.Config.ModelctlConfig
import Myna.Config.Presentation
import Myna.Config.BackendReadBack
import Myna.Config.BackendKept
import Myna.Server.Lifecycle
import Myna.Server.LifecycleRuns
import Myna.Server.LifecycleIdle
import Myna.Server.LifecycleServed
import Myna.Lib.Base64
import Myna.Core.SessionWire
import Myna.Core.AudioWire
import Myna.Lib.UpTo
import Myna.Lib.OctalEscape
import Myna.Orchestrator.Transport
import Myna.Orchestrator.TransportRuns
import Myna.Orchestrator.TransportServed
import Myna.Orchestrator.TransportIe115
import Myna.Orchestrator.Share
import Myna.Desktop.Sound
import Myna.Desktop.SoundRuns
import Myna.Config.Onboarding
import Myna.Config.OnboardingRuns
import Myna.Config.SetUp
