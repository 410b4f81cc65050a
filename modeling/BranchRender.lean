import BranchRender.Main
import BranchRender.Proofs.Arrangement
import BranchRender.Proofs.BranchNames
import BranchRender.Proofs.Elsewhere
import BranchRender.Proofs.Endings
import BranchRender.Proofs.Faults
import BranchRender.Proofs.FirstViolation
import BranchRender.Proofs.Forecast
import BranchRender.Proofs.Grammar
import BranchRender.Proofs.Headers
import BranchRender.Proofs.Interruption
import BranchRender.Proofs.LineByLine
import BranchRender.Proofs.LinksKept
import BranchRender.Proofs.MissingFiles
import BranchRender.Proofs.Preview
import BranchRender.Proofs.PrintedReports
import BranchRender.Proofs.Refusals
import BranchRender.Proofs.Repetition
import BranchRender.Proofs.Selection
import BranchRender.Proofs.ShownBindings
import BranchRender.Proofs.Spelling
import BranchRender.Proofs.TemplateKept
import BranchRender.Proofs.TopLevel
import BranchRender.Proofs.Writing
