import SemanticChecker.Source.Load
import SemanticChecker.Typed.Encode
import SemanticChecker.Proofs.Alias.Reported
import SemanticChecker.Proofs.Alias.Transparency
import SemanticChecker.Proofs.BoundInference
import SemanticChecker.Proofs.Composition.Concreteness
import SemanticChecker.Proofs.Composition.Membership
import SemanticChecker.Proofs.Declared.LocalNames
import SemanticChecker.Proofs.Declared.Registration
import SemanticChecker.Proofs.Declared.TypeParameters
import SemanticChecker.Proofs.Enumerations
import SemanticChecker.Proofs.Flow.Divergence
import SemanticChecker.Proofs.Flow.MergeOverPaths
import SemanticChecker.Proofs.Hygiene
import SemanticChecker.Proofs.Interning
import SemanticChecker.Proofs.LocalReads.Agreement
import SemanticChecker.Proofs.MethodCall
import SemanticChecker.Proofs.MostGeneral
import SemanticChecker.Proofs.NoneLiterals
import SemanticChecker.Proofs.Order.Program
import SemanticChecker.Proofs.SubstitutionLaws
