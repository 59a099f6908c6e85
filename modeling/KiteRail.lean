import KiteRail.AuthDomains
import KiteRail.ControlHeaders
import KiteRail.LedgerAnchor
import KiteRail.LedgerExport
import KiteRail.LedgerHeads
import KiteRail.LedgerPages
import KiteRail.LedgerReport
import KiteRail.LedgerScans
import KiteRail.McpFaithful
import KiteRail.MigrateConverge
import KiteRail.NotifyBounds
import KiteRail.NotifyClosing
import KiteRail.PolicyBundle
import KiteRail.PolicyFingerprint
import KiteRail.PolicySimulate
import KiteRail.PolicyVersions
import KiteRail.ProxyHeldRecord
import KiteRail.ProxyMirrors
import KiteRail.ProxyReplayParity
import KiteRail.ProxyResponses
import KiteRail.QuarantineAttempts
import KiteRail.QuarantineDecisions
import KiteRail.QuarantineDrain
import KiteRail.QuarantineHeaders
import KiteRail.SlackOnce
import KiteRail.SsoActivity
import KiteRail.SsoBrowsers
import KiteRail.SsoGroups
