import OpenCLDecompiler.Library.PyDict
import OpenCLDecompiler.Library.Arena
import OpenCLDecompiler.Library.Run
import OpenCLDecompiler.Library.Supply
import OpenCLDecompiler.LogicalVariable
import OpenCLDecompiler.Cfg.Node
import OpenCLDecompiler.Cfg.Build
import OpenCLDecompiler.Cfg.Frame
import OpenCLDecompiler.Cfg.Step
import OpenCLDecompiler.Cfg.Successors
import OpenCLDecompiler.Cfg.MaskForm
import OpenCLDecompiler.Cfg.MaskStep
import OpenCLDecompiler.Cfg.Structured
import OpenCLDecompiler.Cfg.Versions
import OpenCLDecompiler.Amd.Isolation
import OpenCLDecompiler.Amd.MaskRules
import OpenCLDecompiler.Exec.Agreement
import OpenCLDecompiler.Expressions.Printing
import OpenCLDecompiler.Library.Checked
import OpenCLDecompiler.Library.Overlap
import OpenCLDecompiler.Library.Simulation
import OpenCLDecompiler.Ptx.ArgumentTypes
import OpenCLDecompiler.Ptx.IntegerRules
import OpenCLDecompiler.Ptx.Masks
import OpenCLDecompiler.Ptx.SharedContext
import OpenCLDecompiler.Regions.Build
import OpenCLDecompiler.Regions.BuildCorrect
import OpenCLDecompiler.Registers.Aliasing
import OpenCLDecompiler.Registers.Tags
import OpenCLDecompiler.Registers.TagsHold
import OpenCLDecompiler.UnrolledLoops
import OpenCLDecompiler.LocalMemory
import OpenCLDecompiler.Arguments.Layout
import OpenCLDecompiler.Arguments.Loads
import OpenCLDecompiler.Handlers.Bitwise
import OpenCLDecompiler.Ir.WideArithmetic
import OpenCLDecompiler.Library.SignedTerms
import OpenCLDecompiler.Optimizations.Sum
import OpenCLDecompiler.Optimizations.SumCorrect
import OpenCLDecompiler.Ptx.Parser
import OpenCLDecompiler.Ptx.ParserCorrect
import OpenCLDecompiler.Exec.Algebra
import OpenCLDecompiler.Optimizations.Truth
import OpenCLDecompiler.Expressions.Replace
import OpenCLDecompiler.Expressions.Casts
import OpenCLDecompiler.Ir.Compare
import OpenCLDecompiler.Ir.CompareCorrect
import OpenCLDecompiler.Library.Placement
import OpenCLDecompiler.Optimizations.ConstantAgreement
import OpenCLDecompiler.Ptx.Parameters
import OpenCLDecompiler.Ptx.ParametersCorrect
import OpenCLDecompiler.Ir.TypedMemory
import OpenCLDecompiler.Ir.TypedMemoryCorrect
import OpenCLDecompiler.Amd.LocalArrays
import OpenCLDecompiler.Cfg.ChangeValues
import OpenCLDecompiler.Expressions.Indices
import OpenCLDecompiler.Expressions.IndicesCorrect
import OpenCLDecompiler.Expressions.Permutes
import OpenCLDecompiler.Library.Linked
import OpenCLDecompiler.Library.Positions
import OpenCLDecompiler.Library.Search
import OpenCLDecompiler.Optimizations.Differences
import OpenCLDecompiler.Optimizations.Negation
import OpenCLDecompiler.Optimizations.Products
import OpenCLDecompiler.Ptx.PointerTypes
import OpenCLDecompiler.Registers.Operations
import OpenCLDecompiler.Registers.OperationsCorrect
import OpenCLDecompiler.Values.Replacing
import OpenCLDecompiler.Values.ReplacingCorrect
import OpenCLDecompiler.Amd.GlobalData
import OpenCLDecompiler.Cfg.Traversals
import OpenCLDecompiler.Library.Fields
import OpenCLDecompiler.Ptx.Addresses
import OpenCLDecompiler.Ptx.Operands
import OpenCLDecompiler.Registers.Combined
import OpenCLDecompiler.Arguments.BitFields
import OpenCLDecompiler.Regions.Close
import OpenCLDecompiler.Regions.Collapse
import OpenCLDecompiler.Regions.Statement
import OpenCLDecompiler.Regions.Structured
import OpenCLDecompiler.Cfg.Local
import OpenCLDecompiler.Regions.BuildOrder
import OpenCLDecompiler.Regions.Compose
import OpenCLDecompiler.Regions.MaskFlow
import OpenCLDecompiler.Regions.MaskProgram
import OpenCLDecompiler.Cfg.Forward
import OpenCLDecompiler.Cfg.LabelCode
import OpenCLDecompiler.Regions.LabelFlow
import OpenCLDecompiler.Regions.LabelProgram
import OpenCLDecompiler.Regions.Decompile
import OpenCLDecompiler.Library.NestedText
import OpenCLDecompiler.Regions.Writing
import OpenCLDecompiler.Regions.ProgramText
