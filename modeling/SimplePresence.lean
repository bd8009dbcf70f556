import SimplePresence.Pinging
import SimplePresence.Stack
import SimplePresence.Directory
import SimplePresence.Shown
import SimplePresence.Garbage
import SimplePresence.Provenance
import SimplePresence.Uptime
import SimplePresence.Traffic
import SimplePresence.Clock
