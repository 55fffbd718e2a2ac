import TrojanGo.Master.Acknowledge
import TrojanGo.Plane.Listeners
import TrojanGo.Plane.Removal
import TrojanGo.Plane.WorkerNode
import TrojanGo.Plane.Embedded
import TrojanGo.Upgrade.Outcomes
import TrojanGo.Nodes.Persistence
import TrojanGo.Panel.Passwords
import TrojanGo.Panel.Attempts
import TrojanGo.Panel.Sessions
import TrojanGo.Accounts.Invariants
import TrojanGo.Accounts.Agreement
import TrojanGo.Accounts.Totals
import TrojanGo.Database.Lease
import TrojanGo.Trojan.Sessions
import TrojanGo.Subscriptions.Freshness
import TrojanGo.Deploy.Pairs
import TrojanGo.Relay.Aliasing
import TrojanGo.Gateway.Limit
import TrojanGo.Relay.Forwarding
import TrojanGo.Trojan.PacketStreams
import TrojanGo.Statistic.Conservation
import TrojanGo.Statistic.Admission
import TrojanGo.Relay.Delivery
import TrojanGo.Panel.MonthlyReset
import TrojanGo.Plane.Reconciliation
import TrojanGo.Mux.Sticking
import TrojanGo.Router.Spelling
import TrojanGo.Gateway.ProxyHeader
import TrojanGo.Trojan.Outbound
import TrojanGo.Relay.Fallback
import TrojanGo.Tunnel.Inbounds
import TrojanGo.Statistic.Calls
import TrojanGo.Router.PacketLoop
import TrojanGo.Tunnel.KeyPairs
import TrojanGo.Database.SigningKey
import TrojanGo.NodeSync.Backoff
