import Pcitop.Common.Arrays
import Pcitop.Common.BitField
import Pcitop.Common.CString
import Pcitop.Common.Columns
import Pcitop.Common.Counter
import Pcitop.Common.Family
import Pcitop.Common.Fixed
import Pcitop.Common.Getopt
import Pcitop.Common.Interrupts
import Pcitop.Common.Ladder
import Pcitop.Common.Lifecycle
import Pcitop.Common.Merge
import Pcitop.Common.Printf
import Pcitop.Common.Rates
import Pcitop.Common.Ring
import Pcitop.Common.Scanf
import Pcitop.Common.Writer
import Pcitop.Driver.ChipInfo
import Pcitop.Driver.Chips
import Pcitop.Driver.DeviceName
import Pcitop.Driver.Module
import Pcitop.Driver.StateChanges
import Pcitop.Driver.StoreRuns
import Pcitop.Driver.UtilState
import Pcitop.Hplba.FieldWrites
import Pcitop.Hplba.NameTables
import Pcitop.Hplba.Names
import Pcitop.Hplba.Registers
import Pcitop.System.Advances
import Pcitop.System.Averages
import Pcitop.System.CounterText
import Pcitop.System.Denominators
import Pcitop.System.Discovery
import Pcitop.System.NameTables
import Pcitop.System.Naming
import Pcitop.System.Session
import Pcitop.System.Sharing
import Pcitop.Tool.Alignment
import Pcitop.Tool.Attributes
import Pcitop.Tool.Banner
import Pcitop.Tool.BusId
import Pcitop.Tool.Collect
import Pcitop.Tool.CommandLine
import Pcitop.Tool.Display
import Pcitop.Tool.Filter
import Pcitop.Tool.Info
import Pcitop.Tool.Integrity
import Pcitop.Tool.Interface
import Pcitop.Tool.LbaInfo
import Pcitop.Tool.LbaList
import Pcitop.Tool.LineResults
import Pcitop.Tool.ListHead
import Pcitop.Tool.Locations
import Pcitop.Tool.Main
import Pcitop.Tool.Measure
import Pcitop.Tool.NameFields
import Pcitop.Tool.NameToPciId
import Pcitop.Tool.Output
import Pcitop.Tool.PciAddress
import Pcitop.Tool.PciId
import Pcitop.Tool.PciLists
import Pcitop.Tool.PciSysfs
import Pcitop.Tool.PciTree
import Pcitop.Tool.ReadAttribute
import Pcitop.Tool.RootBridges
import Pcitop.Tool.Sampling
import Pcitop.Tool.Signals
import Pcitop.Tool.SlotBuses
import Pcitop.Tool.SlotNames
import Pcitop.Tool.SlotOrder
import Pcitop.Tool.SlotTrace
import Pcitop.Tool.SysInfo
import Pcitop.Tool.Util
