import Linkage.Name
import Linkage.Table
import Linkage.Decimal
import Linkage.Kind
import Linkage.Member
import Linkage.Reference
import Linkage.Instruction
import Linkage.Declaration
import Linkage.Descriptor
import Linkage.Signature
import Linkage.IndexedClass
import Linkage.Universe
import Linkage.Hierarchy
import Linkage.Resolution
import Linkage.ClassFile.Constant
import Linkage.ClassFile.ModifiedText
import Linkage.ClassFile.Reader
import Linkage.ClassFile.Pool
import Linkage.ClassFile.Attribute
import Linkage.ClassFile.Layout
import Linkage.ClassFile.LoadError
import Linkage.ClassFile.Lookup
import Linkage.ClassFile.Bytecode
import Linkage.ClassFile.Load
import Linkage.Extraction.Entry
import Linkage.Extraction.Glossary
import Linkage.Extraction.Declared
import Linkage.Extraction.Timeline
import Linkage.Extraction.Lines
import Linkage.Extraction.Markers
import Linkage.Extraction.Calls
import Linkage.Extraction.Body
import Linkage.Extraction.TypeTree
import Linkage.Extraction.Accessors
import Linkage.Extraction.Extract
import Linkage.Analysis.Problem
import Linkage.Analysis.Detector
import Linkage.Analysis.Analyzer
import Linkage.Archive.Checksum
import Linkage.Archive.CodeTree
import Linkage.Archive.Inflate
import Linkage.Archive.EntryName
import Linkage.Archive.Error
import Linkage.Archive.Block
import Linkage.Archive.EndRecord
import Linkage.Archive.DirectoryRecord
import Linkage.Archive.Directory
import Linkage.Archive.Zip
import Linkage.FileTree
import Linkage.Scan
import Linkage.Report.Json
import Linkage.Report.Sarif
import Linkage.Command.Arguments
import Linkage.Command.Run
import Linkage.Main
import Linkage.Proofs.Outcome
import Linkage.Proofs.Hierarchy
import Linkage.Proofs.MethodDispatch
import Linkage.Proofs.Delivery
import Linkage.Proofs.SignatureKinds
import Linkage.Proofs.Records
import Linkage.Proofs.Nesting
import Linkage.Proofs.InstructionReferences
import Linkage.Proofs.Origins
import Linkage.Proofs.Folding
import Linkage.Proofs.InstructionCoverage
import Linkage.Proofs.LineWalks
import Linkage.Proofs.MaskedBodies
import Linkage.Proofs.MaskedTrees
import Linkage.Proofs.KindMask
import Linkage.Proofs.Reports
import Linkage.Proofs.Visits
import Linkage.Proofs.DefaultMethods
import Linkage.Proofs.AccessorCalls
import Linkage.Proofs.RootVisits
import Linkage.Proofs.Provenance
import Linkage.Proofs.LocalFilter
import Linkage.Proofs.FailureReports
import Linkage.Proofs.Outlines
import Linkage.Proofs.Pruning
import Linkage.Proofs.Assembly
import Linkage.Proofs.Decoding
import Linkage.Proofs.ResolvedTargets
import Linkage.Proofs.UniverseGrowth
import Linkage.Proofs.SignatureGrammar
import Linkage.Proofs.Destructuring
import Linkage.Proofs.DescriptorGrammar
import Linkage.Proofs.WellNamed
import Linkage.Proofs.TargetNames
import Linkage.Proofs.ReferenceShapes
import Linkage.Proofs.BatchOrder
import Linkage.Proofs.ParallelResolution
import Linkage.Proofs.PathReads
import Linkage.Proofs.SyntheticMembers
import Linkage.Proofs.UnpackedArchives
import Linkage.Proofs.Timelines
import Linkage.Proofs.BodyWalks
import Linkage.Proofs.LocalVariables
import Linkage.Proofs.SourceLines
import Linkage.Proofs.LineTables
import Linkage.Proofs.LinedBodies
import Linkage.Proofs.SettledLines
import Linkage.Proofs.LinedTrees
import Linkage.Proofs.LocalDeclarations
import Linkage.Proofs.SuperChains
import Linkage.Proofs.InterfaceSearch
import Linkage.Proofs.DefaultProviders
import Linkage.Proofs.ConstructorPairs
import Linkage.Proofs.CoupledTrees
import Linkage.Proofs.SuperConstructors
import Linkage.Proofs.GenericHeaders
import Linkage.Proofs.SharedVisits
import Linkage.Proofs.DeclaredExceptions
import Linkage.Proofs.SignatureBytes
import Linkage.Proofs.SignatureBounds
import Linkage.Proofs.SignatureTexts
import Linkage.Proofs.SignatureAgreement
import Linkage.Proofs.SignatureEnds
