import PrefixIntegral.Benchmark.Quick
import PrefixIntegral.Console.Tour
import PrefixIntegral.Journal.Session
import PrefixIntegral.Main
import PrefixIntegral.Proofs.Agreement
import PrefixIntegral.Proofs.Breaches
import PrefixIntegral.Proofs.Cancellation
import PrefixIntegral.Proofs.Desks
import PrefixIntegral.Proofs.Findings
import PrefixIntegral.Proofs.FirstFinding
import PrefixIntegral.Proofs.FreeSpacing
import PrefixIntegral.Proofs.Grids
import PrefixIntegral.Proofs.Loudness
import PrefixIntegral.Proofs.Outlets
import PrefixIntegral.Proofs.Outline
import PrefixIntegral.Proofs.Polynomials
import PrefixIntegral.Proofs.Recording
import PrefixIntegral.Proofs.Refilling
import PrefixIntegral.Proofs.Relocation
import PrefixIntegral.Proofs.Reread
import PrefixIntegral.Proofs.Respacing
import PrefixIntegral.Proofs.Spacing
import PrefixIntegral.Proofs.Spans
import PrefixIntegral.Proofs.Structural
import PrefixIntegral.Proofs.Validation
import PrefixIntegral.Proofs.Visits
import PrefixIntegral.Quadrature.Desk
import PrefixIntegral.Proofs.Counts
import PrefixIntegral.Proofs.Searches
import PrefixIntegral.Proofs.Lifting
import PrefixIntegral.Proofs.PlainLiterals
import PrefixIntegral.Proofs.SignedZeros
import PrefixIntegral.Proofs.Interchange
import PrefixIntegral.Proofs.Distances
import PrefixIntegral.Proofs.Atoms
import PrefixIntegral.Proofs.Interpretations
import PrefixIntegral.Proofs.Substitution
import PrefixIntegral.Proofs.Positivity
import PrefixIntegral.Proofs.Pieces
import PrefixIntegral.Proofs.Refinement
import PrefixIntegral.Proofs.Collection
import PrefixIntegral.Proofs.Ancestry
import PrefixIntegral.Proofs.RunningSums
import PrefixIntegral.Proofs.Configurations
import PrefixIntegral.Proofs.Commands
import PrefixIntegral.Proofs.Trials
import PrefixIntegral.Proofs.Tours
