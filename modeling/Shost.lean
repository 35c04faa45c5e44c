import Shost.Ports.CronWindow
import Shost.Ports.CronDays
import Shost.Ports.HostLifecycle
import Shost.Ports.HostExits
import Shost.Ports.HostNoStart
import Shost.Ports.HostStartTimer
import Shost.Ports.HostTaskAbort
import Shost.Ports.HostObserver
import Shost.Ports.HostStopAll
import Shost.Ports.HostPanics
import Shost.Ports.HostChannels
import Shost.Ports.HostBackoff
import Shost.Ports.HostSuperviseRun
import Shost.Ports.Gateway
import Shost.Ports.WinService
import Shost.Ports.CronTicks
import Shost.Ports.CronProgress
import Shost.Ports.CronReports
import Shost.Ports.CronInstants
import Shost.Ports.SlogTemplate
import Shost.Ports.SwaggerUI
import Shost.Ports.HostBuilder
import Shost.Ports.SystemdUnit
import Shost.Ports.Health
import Shost.Ports.WaitHint
import Shost.Ports.Watchdog
import Shost.Ports.HostContract
import Shost.Ports.HostProgress
import Shost.Ports.HostWinddown
import Shost.Ports.ServerStops
import Shost.Ports.SingleInstance
import Shost.Ports.HostReload
import Shost.Ports.CronAt
import Shost.Ports.HostedServer
import Shost.Ports.HealthProbes
import Shost.Ports.NotifyProtocol
import Shost.Ports.TestHost
