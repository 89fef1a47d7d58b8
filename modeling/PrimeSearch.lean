import PrimeSearch.Main
import PrimeSearch.Archive.Request
import PrimeSearch.Cli.Comparison
import PrimeSearch.Expr.Outline
import PrimeSearch.Proofs.Archive.Runs
import PrimeSearch.Proofs.Cli.Endings
import PrimeSearch.Proofs.Cli.Saving
import PrimeSearch.Proofs.Expr.RoundTrip
import PrimeSearch.Proofs.Prime.Listing
import PrimeSearch.Proofs.Prime.Oracle
import PrimeSearch.Proofs.Prime.Samples
import PrimeSearch.Proofs.Prime.StrongTest
import PrimeSearch.Proofs.Search.Forgetting
import PrimeSearch.Proofs.Search.HillClimbing
import PrimeSearch.Proofs.Search.Keys
import PrimeSearch.Proofs.Search.Population
import PrimeSearch.Proofs.Search.Protocol
import PrimeSearch.Proofs.Search.Safety
import PrimeSearch.Proofs.Search.Symmetry
import PrimeSearch.Proofs.Search.Work
import PrimeSearch.Proofs.Expr.Spelling
import PrimeSearch.Proofs.Expr.Arity
import PrimeSearch.Proofs.Expr.Canonical
import PrimeSearch.Proofs.Search.Concluding
import PrimeSearch.Proofs.Expr.Growth
import PrimeSearch.Proofs.Expr.Transforms
import PrimeSearch.Proofs.Search.Crossing
import PrimeSearch.Proofs.Expr.PairMutation
import PrimeSearch.Proofs.Expr.Coefficients
import PrimeSearch.Proofs.Fitness.Merging
import PrimeSearch.Proofs.Fitness.HalfUp
import PrimeSearch.Proofs.Fitness.Independence
import PrimeSearch.Proofs.Archive.Newest
import PrimeSearch.Proofs.Plane.Hull
import PrimeSearch.Proofs.Plane.Frame
import PrimeSearch.Proofs.Expr.Fullness
import PrimeSearch.Proofs.Fitness.Complexity
import PrimeSearch.Proofs.Search.Tournament
