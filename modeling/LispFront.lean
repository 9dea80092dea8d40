import LispFront.Analysis.Analyzer
import LispFront.Expansion.Template
import LispFront.Form.Printer
import LispFront.Proofs.AliasScope
import LispFront.Proofs.AppendOnly
import LispFront.Proofs.ClauseOrder
import LispFront.Proofs.DefinitionJournal
import LispFront.Proofs.DefinitionMetadata
import LispFront.Proofs.GeneratedNames
import LispFront.Proofs.GlobalReferences
import LispFront.Proofs.Implementations
import LispFront.Proofs.Interfaces
import LispFront.Proofs.Locating
import LispFront.Proofs.LoopValues
import LispFront.Proofs.NameText
import LispFront.Proofs.NamespaceForms
import LispFront.Proofs.NamespaceNames
import LispFront.Proofs.RejectedStructs
import LispFront.Proofs.Rendering
import LispFront.Proofs.ScopeDiscipline
import LispFront.Proofs.Slots
import LispFront.Proofs.Spans
import LispFront.Proofs.TailPosition
import LispFront.Settings.Document
