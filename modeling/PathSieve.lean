import PathSieve.Config.Printer
import PathSieve.Diagnostics
import PathSieve.Matcher.Parallel
import PathSieve.Pool.World
import PathSieve.Proofs.Host.Touch
import PathSieve.Proofs.Sandbox.Taking
import PathSieve.Sandbox.Faulty
import PathSieve.Proofs.Host.Carry
import PathSieve.Proofs.Host.Agreement
import PathSieve.Proofs.Host.Account
import PathSieve.Proofs.Host.Balance
import PathSieve.Proofs.Host.Loaded
import PathSieve.Proofs.Host.Serving
import PathSieve.Proofs.Matcher.Anonymous
import PathSieve.Proofs.Matcher.ParallelAgreement
import PathSieve.Proofs.Sandbox.Arena
import PathSieve.Proofs.Sandbox.Lodged
import PathSieve.Proofs.Host.Sparing
import PathSieve.Proofs.Pool.System
import PathSieve.Proofs.Pool.Threads
import PathSieve.Proofs.Pool.Books
import PathSieve.Proofs.Pool.Exclusive
import PathSieve.Proofs.Pool.Accounts
import PathSieve.Proofs.Host.InstanceOps
import PathSieve.Proofs.Pool.Acts
import PathSieve.Proofs.Pool.Descent
import PathSieve.Proofs.Pool.Taint
import PathSieve.Proofs.Host.Handles
import PathSieve.Proofs.Pool.Handles
import PathSieve.Proofs.Matcher.Recycling
import PathSieve.Proofs.Sandbox.LowestFit
import PathSieve.Proofs.Sandbox.Naive
import PathSieve.Proofs.Host.Restored
import PathSieve.Proofs.Host.Outcomes
import PathSieve.Proofs.Host.Visits
import PathSieve.Proofs.Host.Wide
import PathSieve.Proofs.Matcher.Reported
import PathSieve.Proofs.Config.RoundTrip
import PathSieve.Proofs.Matcher.RuleLines
import PathSieve.Proofs.Rule.Precedence
import PathSieve.Proofs.Pool.GlobalSlot
