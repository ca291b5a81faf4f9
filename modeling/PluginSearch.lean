import PluginSearch.Api
import PluginSearch.Basis.Forest
import PluginSearch.Basis.ForestChange
import PluginSearch.Basis.Getopt
import PluginSearch.Basis.Ledger
import PluginSearch.Basis.Logged
import PluginSearch.Basis.LongOption
import PluginSearch.Basis.Loop
import PluginSearch.Basis.Memory
import PluginSearch.Basis.Numeral
import PluginSearch.Basis.Rendering
import PluginSearch.Basis.Stopping
import PluginSearch.Caller
import PluginSearch.Convention
import PluginSearch.Descriptors
import PluginSearch.EntropySearch
import PluginSearch.Errors
import PluginSearch.FileName
import PluginSearch.Host.CommandLine
import PluginSearch.Host.Copies
import PluginSearch.Host.CopiesInvariant
import PluginSearch.Host.Depth
import PluginSearch.Host.Frame
import PluginSearch.Host.HandOver
import PluginSearch.Host.Isolation
import PluginSearch.Host.Libraries
import PluginSearch.Host.Lockstep
import PluginSearch.Host.Main
import PluginSearch.Host.MainInvariant
import PluginSearch.Host.Output
import PluginSearch.Host.Reach
import PluginSearch.Host.Release
import PluginSearch.Host.SearchDir
import PluginSearch.Host.ShortOptions
import PluginSearch.Host.Steps
import PluginSearch.Host.Streams
import PluginSearch.Host.Texts
import PluginSearch.Host.Verdict
import PluginSearch.Host.Walk
import PluginSearch.Host.WalkInvariant
import PluginSearch.OneLibrary
import PluginSearch.Plugin.BitSeq
import PluginSearch.Plugin.BitSeqArray
import PluginSearch.Plugin.BitSeqGrammar
import PluginSearch.Plugin.BitSeqInvariant
import PluginSearch.Plugin.BitSeqReuse
import PluginSearch.Plugin.BitSeqWritten
import PluginSearch.Plugin.Entropy
import PluginSearch.Plugin.TypeFile
import PluginSearch.Plugin.Uuids
import PluginSearch.Program
import PluginSearch.Shipped
import PluginSearch.Tester
import PluginSearch.UuidSearch
