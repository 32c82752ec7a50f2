import GraphTransform.Main
import GraphTransform.Format.Encode
import GraphTransform.Proofs.Application
import GraphTransform.Proofs.Identity
import GraphTransform.Proofs.TypeSoundness
import GraphTransform.Proofs.Violations
import GraphTransform.Proofs.SlotList
import GraphTransform.Proofs.Renaming
import GraphTransform.Proofs.Reordering
import GraphTransform.Proofs.ParallelEdges
import GraphTransform.Proofs.Identified
import GraphTransform.Proofs.Exchange
import GraphTransform.Proofs.Remaining
import GraphTransform.Proofs.Predicate
import GraphTransform.Proofs.Roots
import GraphTransform.Proofs.EqualSides
import GraphTransform.Proofs.Layout
import GraphTransform.Proofs.Printing
import GraphTransform.Proofs.Schema
import GraphTransform.Proofs.Queries
import GraphTransform.Proofs.Dependence
import GraphTransform.Proofs.Answers
import GraphTransform.Proofs.NegationNormalForm
import GraphTransform.Proofs.Bracketing
import GraphTransform.Proofs.ExactArithmetic
import GraphTransform.Proofs.Visits
import GraphTransform.Proofs.Encoding
import GraphTransform.Proofs.Levels
import GraphTransform.Proofs.Rewriting
import GraphTransform.Proofs.RefusedComparisons
import GraphTransform.Proofs.Instantiation
import GraphTransform.Proofs.DeclarationOrder
import GraphTransform.Proofs.EdgeCalls
import GraphTransform.Proofs.Additions
