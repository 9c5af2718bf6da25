import Tolla.Client.Storage
import Tolla.Engine.Certificates
import Tolla.Engine.Consents
import Tolla.Engine.Directories
import Tolla.Engine.Lock
import Tolla.Engine.Record
import Tolla.Engine.Removal
import Tolla.Engine.Reonboarding
import Tolla.Engine.Tenants
import Tolla.Engine.Views
import Tolla.Protocol.Capacity
import Tolla.Protocol.Exchange
import Tolla.Protocol.Intact
import Tolla.Protocol.Malformed
import Tolla.System.Addresses
import Tolla.System.Gateway
import Tolla.System.Intents
import Tolla.System.Leases
import Tolla.System.Ownership
import Tolla.System.RequestProxy
import Tolla.System.Restarts
import Tolla.System.Selection
import Tolla.System.Serials
import Tolla.System.Threads
