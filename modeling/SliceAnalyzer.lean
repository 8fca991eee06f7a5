import SliceAnalyzer.IR.Types
import SliceAnalyzer.IR.Program
import SliceAnalyzer.Loops
import SliceAnalyzer.Paths
import SliceAnalyzer.CallGraph.Registry
import SliceAnalyzer.CallGraph.Pass
import SliceAnalyzer.CallGraph.Sweeps
import SliceAnalyzer.CallGraph.Phase
import SliceAnalyzer.CallGraph.Properties
import SliceAnalyzer.CallGraph.LoadOrder
import SliceAnalyzer.CallGraph.Dump
import SliceAnalyzer.Slicer.State
import SliceAnalyzer.Slicer.Searches
import SliceAnalyzer.Slicer.Backward
import SliceAnalyzer.Slicer.Forward
import SliceAnalyzer.Slicer.Output
import SliceAnalyzer.Slicer.Driver
import SliceAnalyzer.Slicer.Declarations
import SliceAnalyzer.Slicer.Main
import SliceAnalyzer.FindInst.Scan
import SliceAnalyzer.FindInst.Config
import SliceAnalyzer.FindInst.Files
import SliceAnalyzer.FindInst.Pass
import SliceAnalyzer.SeedMind
import SliceAnalyzer.Sancc
import SliceAnalyzer.CodeInjector
import SliceAnalyzer.WriteBitcode.Race
