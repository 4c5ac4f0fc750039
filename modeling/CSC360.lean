import CSC360.Base.Fuel
import CSC360.Base.Related
import CSC360.Base.Traced
import CSC360.Base.Packed12
import CSC360.Base.Forest
import CSC360.Base.Transition
import CSC360.Base.Desks
import CSC360.Base.Chain
import CSC360.Base.Circular
import CSC360.Base.Strings
import CSC360.Base.TokenArrays
import CSC360.Base.Numerals
import CSC360.Base.Floats
import CSC360.Base.Printf
import CSC360.Base.PrefixCode
import CSC360.Base.SortedCode
import CSC360.Disk.FatTable
import CSC360.Disk.DataClusters
import CSC360.Disk.DeletedEntries
import CSC360.Disk.Sizes
import CSC360.Disk.Names
import CSC360.Disk.FileCount
import CSC360.Disk.Agreement
import CSC360.Disk.Sections
import CSC360.Disk.PathHeader
import CSC360.Disk.PathBuffer
import CSC360.Disk.ListText
import CSC360.Disk.Stamps
import CSC360.Disk.Contents
import CSC360.Disk.ContentsIrrelevant
import CSC360.Clerks.Selections
import CSC360.Clerks.Quiescence
import CSC360.Clerks.Completion
import CSC360.Clerks.DeskRefinement
import CSC360.Clerks.DeskRealization
import CSC360.Clerks.Arrivals
import CSC360.Clerks.Statistics
import CSC360.Clerks.Serving
import CSC360.Clerks.Averages
import CSC360.Clerks.Priority
import CSC360.Clerks.InputFile
import CSC360.Clerks.QueueRefinement
import CSC360.Clerks.RingQueue
import CSC360.PMan.OwnChildren
import CSC360.PMan.CommandLine
import CSC360.PMan.UpToDate
import CSC360.PMan.Reports
import CSC360.PMan.StatFile
import CSC360.PMan.StatusFile
import CSC360.PMan.PidArgument
