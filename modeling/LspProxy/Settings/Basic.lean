import LspProxy.Channel.Endpoint
import LspProxy.Duration

/-!
# Settings of a session

All that is decided before a session starts: the server and how to start it, where the workspace is
looked for, and how long things may take. The server gets the arguments the user gave, then where and
how much to log, and last how to talk to the proxy.
-/
namespace LspProxy

/-- The settings of a session. -/
structure Settings where
  program : Path
  /-- The arguments that precede the proxy's own. -/
  arguments : List Bytes := []
  projectRoot : Path
  endpoint : Endpoint
  serverLogLevel : String
  serverLogFolder : Path
  connectLimit : Duration
  /-- How often the parent is asked after, if it is watched. -/
  parentInterval : Option Duration
  /-- The file that records what is sent to the server. -/
  messageLog : Option Path := none
  deriving Repr, DecidableEq

namespace Settings

/-- The folder, among the temporary ones, of all server logs. -/
def logFolderName : Bytes := Bytes.ascii "lspshim"

/-- The name for the logs of a root that has no name. -/
def namelessRoot : Bytes := Bytes.ascii "default"

/-- The name of a root's log folder: the root's own, without its extension. -/
def logName (projectRoot : Path) : Bytes := projectRoot.stem?.getD namelessRoot

/-- The log folder of a root below a folder of what is temporary. -/
def logFolderBelow (temporary projectRoot : Path) : Path :=
  (temporary.join logFolderName).join (logName projectRoot)

/-- The log folder of a root. -/
def usualLogFolder (projectRoot : Path) : Path := logFolderBelow Channel.temporaryFolder projectRoot

def usualLogLevel : String := "Information"

def usualConnectLimit : Duration := .ofSeconds 30

def usualParentInterval : Duration := .ofMilliseconds 1000

/-- The usual settings for a server and a root. -/
def usual (program projectRoot : Path) (endpoint : Endpoint) : Settings where
  program
  projectRoot
  endpoint
  serverLogLevel := usualLogLevel
  serverLogFolder := usualLogFolder projectRoot
  connectLimit := usualConnectLimit
  parentInterval := some usualParentInterval

/-- All arguments of the server. -/
def serverArguments (settings : Settings) : List Bytes :=
  settings.arguments
    ++ [Bytes.ascii "--logLevel", Text.Utf8.ofString settings.serverLogLevel,
        Bytes.ascii "--extensionLogDirectory", settings.serverLogFolder]
    ++ settings.endpoint.arguments

end Settings

end LspProxy
