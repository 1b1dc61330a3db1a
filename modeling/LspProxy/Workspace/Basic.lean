import LspProxy.Json.Printer

/-!
# Workspaces

A workspace is what the server is told to open: at most one solution and any number of projects,
each a URI. An empty solution stands for none. The server is told by notifications, of which the one
about projects is sent even when there are none.
-/
namespace LspProxy

/-- The solution and the projects of a session. -/
structure Workspace where
  solution : String := ""
  projects : List String := []
  deriving Repr, DecidableEq

namespace Workspace

/-- The solution, if there is one. -/
def solution? (workspace : Workspace) : Option String :=
  if workspace.solution = "" then none else some workspace.solution

/-- A notification of the protocol. -/
def notification (method : String) (params : List Char) : List Char :=
  Json.printObject [("jsonrpc", Json.quote "2.0"), ("method", Json.quote method), ("params", params)]

/-- The order to open a solution. -/
def openSolution (solution : String) : List Char :=
  notification "solution/open" (Json.printObject [("solution", Json.quote solution)])

/-- The order to open projects. -/
def openProjects (projects : List String) : List Char :=
  notification "project/open"
    (Json.printObject [("projects", Json.printArray (projects.map Json.quote))])

/-- All orders that open a workspace, in order. -/
def notifications (workspace : Workspace) : List (List Char) :=
  (workspace.solution?.map openSolution).toList ++ [openProjects workspace.projects]

end Workspace

end LspProxy
