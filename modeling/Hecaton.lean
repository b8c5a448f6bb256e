import Hecaton.Library.Run
import Hecaton.Library.BitMask
import Hecaton.Library.Precedes
import Hecaton.Library.Selection
import Hecaton.Library.CommonParts
import Hecaton.Library.Groups
import Hecaton.Library.FlaggedCounter
import Hecaton.Clang.Stmt
import Hecaton.Clang.Tree
import Hecaton.Clang.Visit
import Hecaton.Clang.SourceManager
import Hecaton.Clang.Build
import Hecaton.Pass2.State
import Hecaton.Pass2.Text
import Hecaton.Pass2.DatabaseHeader
import Hecaton.Pass2.ParentSearch
import Hecaton.Pass2.Heads
import Hecaton.Pass2.BranchHeads
import Hecaton.Pass2.GotoResolution
import Hecaton.Pass2.Filters
import Hecaton.Pass2.Maybe
import Hecaton.Pass2.NewStmts
import Hecaton.Pass2.Pairs
import Hecaton.Pass2.SortedPairs
import Hecaton.Pass2.PairSearch
import Hecaton.Pass2.Similarity
import Hecaton.Pass2.OuterEhcs
import Hecaton.Pass2.OuterDuplicates
import Hecaton.Pass2.DatabasePairs
import Hecaton.Pass2.MaskIds
import Hecaton.Pass2.Analysis
import Hecaton.Pass2.Cleanup
import Hecaton.Pass2.Confidence
import Hecaton.Pass2.MissingUndos
import Hecaton.Pass2.UnwindOrder
import Hecaton.Pass2.Gotos
import Hecaton.Pass2.Stamps
import Hecaton.Pass2.Execution
import Hecaton.Pass2.Tracking
import Hecaton.Pass2.ConditionStamps
import Hecaton.Library.Lookup
import Hecaton.Library.NumberedNames
import Hecaton.Pass1.MoveDecls
import Hecaton.Pass1.UniqueNames
import Hecaton.Pass1.TextOfPass
import Hecaton.Pass1.NewNames
import Hecaton.Pass1.Scopes
import Hecaton.Pass1.Renaming
import Hecaton.Pass1.Binding
import Hecaton.Pass1.Capture
import Hecaton.Pass1.Hoisting
import Hecaton.Library.Words
import Hecaton.Scripts.Python
import Hecaton.Scripts.Boundaries
import Hecaton.Scripts.Listing
import Hecaton.Library.Aligned
import Hecaton.Scripts.Intervals
import Hecaton.Scripts.ColdParts
import Hecaton.Scripts.Registers
import Hecaton.Scripts.GreedySaves
import Hecaton.Scripts.DataHeader
import Hecaton.Scripts.HeaderReading
import Hecaton.Scripts.WhiteList
import Hecaton.Library.KeepBehind
import Hecaton.DatabasePlugin.NewStmts
import Hecaton.DatabasePlugin.Pairs
import Hecaton.Pass2.CodePieces
import Hecaton.Pass2.TranslationUnit
import Hecaton.Library.MovedBehind
import Hecaton.Pass1.SeparateDecls
import Hecaton.Pass1.ScopeAndOrder
import Hecaton.Library.Calls
import Hecaton.Pass1.DeclGroups
import Hecaton.Pass1.StaticLocals
import Hecaton.Library.KeptApart
import Hecaton.Pass2.GotoMarks
import Hecaton.Library.Occurrences
import Hecaton.Library.Pieces
import Hecaton.Pass1.BlockText
import Hecaton.Library.Comments
import Hecaton.Pass1.UsesInText
import Hecaton.Pass2.CallText
import Hecaton.Library.Tokens
import Hecaton.Pass1.DeclText
import Hecaton.Pass1.CommentedDecls
import Hecaton.Pass2.ConditionText
import Hecaton.Clang.Code
import Hecaton.Pass2.StampPlaces
import Hecaton.Pass1.Braces
import Hecaton.Library.LinkedLists
import Hecaton.Pass2.Returns
import Hecaton.DatabasePlugin.Heads
import Hecaton.Pass2.UniquePairs
import Hecaton.DatabasePlugin.FncNames
import Hecaton.Pass2.GotoHeads
import Hecaton.Pass2.PairWindows
import Hecaton.Pass2.CallFilters
import Hecaton.Pass1.LineReads
import Hecaton.Library.CallStack
import Hecaton.Pass2.Activation
import Hecaton.Pass2.Transparency
import Hecaton.Pass2.Unwinding
import Hecaton.Pass2.Recovery
import Hecaton.Library.Once
import Hecaton.DatabasePlugin.Blocks
import Hecaton.DatabasePlugin.Lines
import Hecaton.Pass2.WrittenFunctions
import Hecaton.Library.Ranges
import Hecaton.Scripts.WholeScript
import Hecaton.Scripts.AddressLookup
import Hecaton.DatabasePlugin.SameHeads
import Hecaton.Pass2.Interrupts
