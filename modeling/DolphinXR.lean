import DolphinXR.DiscIO.FSTRoundTrip
import DolphinXR.DiscIO.CompressorOrder
import DolphinXR.DiscIO.WIAReadTermination
import DolphinXR.DiscIO.VolumeWiiRead
import DolphinXR.DiscIO.SectorReader
import DolphinXR.Core.VRPatchOutputs
import DolphinXR.VideoCommon.AgentCaptureRuns
import DolphinXR.VideoCommon.DrawPickRestore
import DolphinXR.Core.CallGateLaw
import DolphinXR.Core.VRPatchCommandOrder
import DolphinXR.Core.SharedContentMap
import DolphinXR.Core.MemoryPatchesUndone
import DolphinXR.Core.PageTableRuns
import DolphinXR.VideoBackends.RecordingQueueShutdown
import DolphinXR.Core.PPCCacheRuns
import DolphinXR.DiscIO.LaggedFibonacciOffsets
import DolphinXR.Core.OpenFilesRuns
import DolphinXR.DiscIO.RiivolutionMemory
import DolphinXR.DiscIO.RVZPackReads
import DolphinXR.DiscIO.RiivolutionFilePatches
import DolphinXR.DiscIO.DiscScrubber
import DolphinXR.Core.JitDivision
import DolphinXR.Common.RangeSizeSetPoints
import DolphinXR.Core.CoreTimingClock
import DolphinXR.Core.GeckoRegion
import DolphinXR.Core.PointerPathRoundTrip
import DolphinXR.Core.HttpArrivals
import DolphinXR.Core.BlockLiveness
import DolphinXR.Core.BlockStoreSafe
import DolphinXR.Core.PointerScanRuns
import DolphinXR.Core.GCMemcardExport
import DolphinXR.Core.PatchIniSections
import DolphinXR.Core.BusyWaitLoop
import DolphinXR.Core.CodeInvalidation
import DolphinXR.Core.DSPCircularBuffer
import DolphinXR.Core.DSPPlayback
import DolphinXR.Core.DSPFlagsExact
import DolphinXR.Core.DSPHardwareLoops
import DolphinXR.VideoCommon.VertexLoaderRuns
import DolphinXR.VideoCommon.HideObjectDraws
import DolphinXR.VideoCommon.IndexGeneratorTriangles
import DolphinXR.VideoCommon.OpcodeDecodingCuts
import DolphinXR.Core.ActionReplayMemoryCopy
import DolphinXR.Common.SettingsRoundTrip
import DolphinXR.InputCommon.HotkeySuppressionRuns
import DolphinXR.Common.IniFileSaving
import DolphinXR.Core.FstFileRuns
import DolphinXR.Core.SysConfRoundTrip
import DolphinXR.VideoCommon.ShaderHunterMeaning
import DolphinXR.VideoCommon.ClearEFB
import DolphinXR.Core.ESFormats
import DolphinXR.Core.ARDecryptAlphabet
import DolphinXR.InputCommon.ExpressionRoundTrip
