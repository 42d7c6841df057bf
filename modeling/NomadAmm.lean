import NomadAmm.Lib.Transition
import NomadAmm.Lib.Shares
import NomadAmm.Utils.Token
import NomadAmm.Utils.TransferFee
import NomadAmm.States.Pool
import NomadAmm.Program
import NomadAmm.Soundness.Supply
import NomadAmm.Soundness.FeeRates
import NomadAmm.Soundness.Adjoint
import NomadAmm.Soundness.TimeWeighted
import NomadAmm.Soundness.Solvency
import NomadAmm.Soundness.Legs
import NomadAmm.Soundness.Slicing
import NomadAmm.Soundness.RoundTrip
import NomadAmm.Soundness.FeeCollection
import NomadAmm.Soundness.Imbalance
import NomadAmm.Soundness.Skew
import NomadAmm.Soundness.Kernel
import NomadAmm.Soundness.ExactKernel
import NomadAmm.Soundness.SwapLedger
import NomadAmm.Client.OracleMath
import NomadAmm.Bot.Keeper
import NomadAmm.Soundness.SpreadFloor
import NomadAmm.Soundness.Keeper
import NomadAmm.Soundness.Uncertainty
import NomadAmm.Soundness.TransferFees
import NomadAmm.Client.TransferFee
import NomadAmm.Soundness.ClientFees
import NomadAmm.Soundness.Usability
import NomadAmm.Client.Commands
import NomadAmm.Soundness.Previews
import NomadAmm.Client.EventParser
import NomadAmm.Soundness.EventAttribution
import NomadAmm.World.Accounts
import NomadAmm.World.Contexts
import NomadAmm.World.Instructions
import NomadAmm.Soundness.Frames
import NomadAmm.Soundness.Representation
import NomadAmm.Soundness.PoolCalls
import NomadAmm.Soundness.PoolCreation
import NomadAmm.Soundness.Refinement
import NomadAmm.Soundness.Isolation
import NomadAmm.Soundness.Custody
import NomadAmm.Lib.Balance
import NomadAmm.Soundness.Conservation
import NomadAmm.Soundness.Movements
import NomadAmm.Soundness.Authority
import NomadAmm.Soundness.Gates
import NomadAmm.Lib.Redemption
import NomadAmm.Soundness.Exit
import NomadAmm.Client.Swaps
import NomadAmm.Soundness.SwapPreviews
