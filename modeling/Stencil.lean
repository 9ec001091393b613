import Stencil.Main
import Stencil.Template.Source
import Stencil.Workspace
import Stencil.Command.FileTree
import Stencil.Proofs.CheckCommand
import Stencil.Proofs.Completion
import Stencil.Proofs.Expansion
import Stencil.Proofs.Settling
import Stencil.Proofs.Samples
import Stencil.Proofs.Idempotence
import Stencil.Proofs.DeclaredDefaults
import Stencil.Proofs.InPlace
import Stencil.Proofs.Provenance
import Stencil.Proofs.Violations
import Stencil.Proofs.KeyOrder
import Stencil.Proofs.PartialOutput
import Stencil.Proofs.FilledText
import Stencil.Proofs.KeyForms
import Stencil.Proofs.Refusals
import Stencil.Proofs.CheckReport
import Stencil.Proofs.Trailing
import Stencil.Proofs.DefaultForms
import Stencil.Proofs.Imports
import Stencil.Proofs.LineWords
import Stencil.Proofs.Loosening
import Stencil.Proofs.WholeNumbers
