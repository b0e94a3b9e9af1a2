import AccelFirmware.ClockSwitch
import AccelFirmware.Console.Command
import AccelFirmware.Emission.InPlace
import AccelFirmware.Lifecycle.InPlace
import AccelFirmware.Main
import AccelFirmware.PowerDomain
import AccelFirmware.Synthesis
import AccelFirmware.Proofs.Emission
import AccelFirmware.Proofs.Functions
import AccelFirmware.Proofs.Programs
import AccelFirmware.Proofs.WordBits
import AccelFirmware.Proofs.GroupMasks
import AccelFirmware.Proofs.Outcome
import AccelFirmware.Proofs.Execution
import AccelFirmware.Proofs.CallOrder
import AccelFirmware.Proofs.Inlining
import AccelFirmware.Proofs.Pins
import AccelFirmware.Proofs.Layouts
import AccelFirmware.Proofs.LayoutAgreement
import AccelFirmware.Proofs.Neighbours
import AccelFirmware.Proofs.Touches
import AccelFirmware.Proofs.InlinedMain
import AccelFirmware.Proofs.ClockSteps
import AccelFirmware.Proofs.PllProtocol
import AccelFirmware.Proofs.LoadDiscipline
import AccelFirmware.Proofs.Addresses
import AccelFirmware.Proofs.Polling
import AccelFirmware.Proofs.PowerSteps
import AccelFirmware.Proofs.PowerBalance
import AccelFirmware.Proofs.Tokens
import AccelFirmware.Proofs.Words
import AccelFirmware.Proofs.Reserved
import AccelFirmware.Proofs.BoostPairing
import AccelFirmware.Proofs.MainSource
import AccelFirmware.Proofs.LiteralHeaders
import AccelFirmware.Proofs.HostMain
import AccelFirmware.Proofs.TwoCores
import AccelFirmware.Proofs.Pieces
import AccelFirmware.Proofs.Sources
import AccelFirmware.Proofs.Obligations
import AccelFirmware.Proofs.Reports
import AccelFirmware.Proofs.Delegation
import AccelFirmware.Proofs.Release
import AccelFirmware.Proofs.Resolution
import AccelFirmware.Proofs.Declarations
import AccelFirmware.Proofs.Scopes
import AccelFirmware.Proofs.ArrayIndependence
import AccelFirmware.Proofs.Sites
import AccelFirmware.Proofs.Retrieval
import AccelFirmware.Proofs.Phrases
import AccelFirmware.Proofs.PhaseWording
import AccelFirmware.Proofs.RunWording
import AccelFirmware.Proofs.LineWording
import AccelFirmware.Proofs.Waits
import AccelFirmware.Proofs.Nesting
import AccelFirmware.Proofs.NestedSources
import AccelFirmware.Proofs.HostOptions
import AccelFirmware.Proofs.Histories
import AccelFirmware.Proofs.UniqueNames
import AccelFirmware.Proofs.Closing
import AccelFirmware.Proofs.Refusals
import AccelFirmware.Proofs.Interleavings
import AccelFirmware.Proofs.FileTrees
import AccelFirmware.Proofs.SourceFiles
import AccelFirmware.Proofs.Decoding
import AccelFirmware.Proofs.SettingsRecords
import AccelFirmware.Proofs.QuotedText
import AccelFirmware.Proofs.VerbatimTexts
import AccelFirmware.Proofs.TomlValues
import AccelFirmware.Proofs.TomlDocuments
import AccelFirmware.Proofs.DeviceFiles
import AccelFirmware.Proofs.Places
import AccelFirmware.Proofs.Directories
import AccelFirmware.Proofs.Sessions
import AccelFirmware.Proofs.WrittenTexts
import AccelFirmware.Proofs.OwnDevices
import AccelFirmware.Proofs.NewProjects
import AccelFirmware.Proofs.TomlTrees
import AccelFirmware.Proofs.StartingManifests
import AccelFirmware.Proofs.Preparations
import AccelFirmware.Proofs.StartedProjects
import AccelFirmware.Proofs.GeneratedFiles
import AccelFirmware.Proofs.NumberFields
import AccelFirmware.Proofs.Descriptors
import AccelFirmware.Proofs.LiteralBodies
import AccelFirmware.Proofs.HexConstants
import AccelFirmware.Proofs.KernelOrder
import AccelFirmware.Proofs.RegisterContents
import AccelFirmware.Proofs.PowerDomains
import AccelFirmware.Proofs.ControlRegisters
import AccelFirmware.Proofs.ClassificationSizes
import AccelFirmware.Proofs.OscillatorTrim
import AccelFirmware.Proofs.StageHistories
import AccelFirmware.Proofs.LifecycleRecords
import AccelFirmware.Proofs.Indentation
import AccelFirmware.Proofs.CountedLoops
