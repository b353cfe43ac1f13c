import JayBeams.Itch5.BookEquivalence
import JayBeams.Itch5.ChangeLog
import JayBeams.Itch5.GenerateInside
import JayBeams.Itch5.MoldFeedHandler
import JayBeams.Itch5.SecurityKeys
import JayBeams.Itch5.MoldRoundTrip
import JayBeams.Itch5.ReplayerControl
import JayBeams.Itch5.ReplaySession
import JayBeams.Itch5.ProcessIostream
import JayBeams.EventRateEstimator
import JayBeams.Histogram
import JayBeams.OpenCL.WorkgroupSize
import JayBeams.ConfigDocument
import JayBeams.Itch5.MessageAtomicity
import JayBeams.Itch5.OrderReductions
import JayBeams.Itch5.MoldUdpFrames
import JayBeams.Itch5.MoldUdpPacing
import JayBeams.Itch5.FieldCodecs
import JayBeams.Itch5.MoldUdpReceptions
import JayBeams.Itch5.PriceLevels
import JayBeams.CpuSet
import JayBeams.CpuSetFormat
import JayBeams.Ehs.RequestDispatcher
import JayBeams.Ehs.ServerAccounting
import JayBeams.Itch5.StringComparisons
import JayBeams.Itch5.WindowLimits
import JayBeams.P2CeilWidths
import JayBeams.EstimatedMean
import JayBeams.Yaml.MergeTrees
import JayBeams.Itch5.ComputeBookSimulation
import JayBeams.OfflineFeedStatistics
import JayBeams.Itch5.FeedReplay
import JayBeams.Itch5.StockNames
import JayBeams.Itch5.InsideProgress
import JayBeams.Itch5.InsideStop
import JayBeams.Itch5.Mold2InsideTool
import JayBeams.Itch5.DepthTool
import JayBeams.Yaml.MergeLaws
