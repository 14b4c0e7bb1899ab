import GameScript.Object
import GameScript.Opcodes
import GameScript.FuncProto
import GameScript.Bytecode
import GameScript.Table.Refinement
import GameScript.ArrayRuns
import GameScript.Compiler.Statement
import GameScript.VM.Frames
import GameScript.Returns
import GameScript.Lib.Scatter
import GameScript.Lib.Codec
import GameScript.Lib.Effect
import GameScript.Scope.ImportLoads
import GameScript.Scope.Distinct
import GameScript.Scope.Commute
import GameScript.Scope.Isolation
import GameScript.Scope.Delegation
import GameScript.Scope.AccessRefinement
import GameScript.Scope.ReadBack
import GameScript.Scope.Lifetime
import GameScript.VM.Outers
import GameScript.TrapCount
import GameScript.Comparison
import GameScript.RefTable
import GameScript.StringTable
import GameScript.ClassLayout
import GameScript.Collector
import GameScript.VM.ThreadRuns
import GameScript.Compiler.Lexical
import GameScript.VM.Capture
import GameScript.VM.Arithmetic
import GameScript.VM.IntegerOperators
import GameScript.TypeCheck
import GameScript.Gstd.StringEscape
import GameScript.Gstd.BlobForeach
import GameScript.Gstd.BlobNumbers
import GameScript.Gstd.FormatBounds
import GameScript.Gstd.LexFeed
import GameScript.Compiler.ReturnTypes
import GameScript.Lexemes
import GameScript.VM.ArgumentBinding
import GameScript.VM.Generators
import GameScript.VM.ForeachRuns
import GameScript.GenericParameters
import GameScript.Table.Iteration
import GameScript.Table.Creation
import GameScript.ArraySorted
import GameScript.CollectorChain
import GameScript.Gstd.RexSafe
import GameScript.Gstd.RexSearch
import GameScript.Gstd.PositionArguments
import GameScript.Gstd.Strip
import GameScript.FloatLiterals
import GameScript.Compiler.Containment
import GameScript.FloatKeyword
import GameScript.GetLine
import GameScript.Compiler.LiteralPool
import GameScript.Compiler.FormulaTypes
import GameScript.VM.LexicalCells
