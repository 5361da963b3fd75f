import PurecryptoTpm.Library.BigEndian
import PurecryptoTpm.Library.Exec
import PurecryptoTpm.Library.Format
import PurecryptoTpm.Library.Retry
import PurecryptoTpm.Error
import PurecryptoTpm.Marshal
import PurecryptoTpm.Types.Constants
import PurecryptoTpm.Types.Structures
import PurecryptoTpm.Crypto
import PurecryptoTpm.Session
import PurecryptoTpm.Transport
import PurecryptoTpm.Tpm
import PurecryptoTpm.Request
import PurecryptoTpm.Response
import PurecryptoTpm.ResponseGrammar
import PurecryptoTpm.Resubmission
import PurecryptoTpm.Framing
import PurecryptoTpm.Exchange
import PurecryptoTpm.Authenticity
import PurecryptoTpm.CommandBinding
import PurecryptoTpm.SessionHistory
import PurecryptoTpm.Replay
import PurecryptoTpm.Peer
import PurecryptoTpm.Commands.Object
import PurecryptoTpm.Sealing
import PurecryptoTpm.ResponseCode
import PurecryptoTpm.Codec
import PurecryptoTpm.Commands.Misc
import PurecryptoTpm.Commands.Pcr
import PurecryptoTpm.Commands.Session
import PurecryptoTpm.KeyDerivation
import PurecryptoTpm.Library.Safe
import PurecryptoTpm.PanicFreedom
import PurecryptoTpm.Library.Socket
import PurecryptoTpm.Library.Stream
import PurecryptoTpm.Transport.Simulator
import PurecryptoTpm.SimulatorFraming
import PurecryptoTpm.SimulatorPairing
import PurecryptoTpm.HandleOwnership
import PurecryptoTpm.AuthValues
import PurecryptoTpm.Library.Bitmap
import PurecryptoTpm.PcrReading
import PurecryptoTpm.PcrExtension
import PurecryptoTpm.PublicArea
import PurecryptoTpm.PrimaryCreation
import PurecryptoTpm.Library.Simulation
import PurecryptoTpm.Host
import PurecryptoTpm.Transport.Device
import PurecryptoTpm.DeviceFraming
import PurecryptoTpm.Backends
import PurecryptoTpm.Library.Dialogue
import PurecryptoTpm.MethodRequests
import PurecryptoTpm.Service
import PurecryptoTpm.Server
import PurecryptoTpm.ServerReplies
import PurecryptoTpm.ClientDialogue
import PurecryptoTpm.Refinement
import PurecryptoTpm.ClientRefinement
import PurecryptoTpm.EndToEnd
import PurecryptoTpm.Interleaving
import PurecryptoTpm.Transport.Mssim
import PurecryptoTpm.MssimRefinement
import PurecryptoTpm.MssimSafety
import PurecryptoTpm.PlatformPower
import PurecryptoTpm.MssimHost
