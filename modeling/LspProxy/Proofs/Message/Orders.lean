import LspProxy.Proofs.Frame.Grammar
import LspProxy.Proofs.Frame.Pieces
import LspProxy.Proofs.Json.Printed
import LspProxy.Proofs.Message.Methods
import Mathlib.Data.List.Forall2

/-!
# The orders say what the workspace is

The orders that open a workspace carry texts of any kind, and are read by someone else. So it is said of their
octets what anyone reads in them: the members of the order and of its parameter, in order and no others, and the
texts that stand there (`IsOrder`, `NamesSolution`, `NamesProjects`). No text can end where it is quoted or bring
in a member of its own, since then there would be a second way to read the order, and there is only one.

That the proxy does not take an order for a message to intercept, whatever methods the texts mention, is a
consequence of what the order's own method is.
-/
namespace LspProxy.Message

open Json (Derives IsArray IsObject IsText)

/-! ## What is read in an order -/

/-- A string of this text, and of no other. -/
def Means (text : String) (value : Bytes) : Prop := ∀ other, IsText other value ↔ other = text

/-- One object with these members, and with no others. -/
def Lists (members : List (String × Bytes)) (value : Bytes) : Prop :=
  ∀ others, IsObject others value ↔ others = members

/-- One array of strings of these texts, and of no others. -/
def Names (texts : List String) (value : Bytes) : Prop :=
  ∃ values, (∀ others, IsArray others value ↔ others = values) ∧ List.Forall₂ Means texts values

/-- One order of this method, with what is to be said of its parameters. -/
def IsOrder (method : String) (Params : Bytes → Prop) (body : Bytes) : Prop :=
  ∃ version name params, Lists [("jsonrpc", version), ("method", name), ("params", params)] body ∧
    Means "2.0" version ∧ Means method name ∧ Params params

/-- The parameter is this solution. -/
def NamesSolution (solution : String) (params : Bytes) : Prop :=
  ∃ value, Lists [("solution", value)] params ∧ Means solution value

/-- The parameter is the list of these projects. -/
def NamesProjects (projects : List String) (params : Bytes) : Prop :=
  ∃ value, Lists [("projects", value)] params ∧ Names projects value

/-! ## What is written in it -/

theorem means_quote (text : String) : Means text (Text.Utf8.encode (Json.quote text)) :=
  fun _ => Json.isText_quote_iff

theorem derives_quote (text : String) : Derives .value (Text.Utf8.encode (Json.quote text)) :=
  (Json.isText_quote text).derives

/-- A printed object lists the members that it was printed from. -/
theorem lists_printObject {members : List (String × List Char)}
    (values : ∀ member ∈ members, Derives .value (Text.Utf8.encode member.2)) :
    Lists (members.map Json.octets) (Text.Utf8.encode (Json.printObject members)) :=
  fun _ => Json.isObject_printObject_iff values

/-- A printed array of texts names them. -/
theorem names_printArray (texts : List String) :
    Names texts (Text.Utf8.encode (Json.printArray (texts.map Json.quote))) := by
  have values : ∀ element ∈ texts.map Json.quote, Derives .value (Text.Utf8.encode element) := by
    rintro element member
    obtain ⟨text, _, rfl⟩ := List.mem_map.mp member
    exact derives_quote text
  refine ⟨_, fun others => Json.isArray_printArray_iff values, ?_⟩
  rw [List.map_map, List.forall₂_map_right_iff]
  exact List.forall₂_same.mpr fun text _ => means_quote text

/-- An array that names texts is a value. -/
theorem Names.derives {texts : List String} {value : Bytes} (names : Names texts value) :
    Derives .value value := by
  obtain ⟨values, isArray, _⟩ := names
  exact ((isArray values).mpr rfl).derives

/-- A notification is an order of its method. -/
theorem isOrder_notification {Params : Bytes → Prop} (method : String) {params : List Char}
    (isValue : Derives .value (Text.Utf8.encode params)) (holds : Params (Text.Utf8.encode params)) :
    IsOrder method Params (Text.Utf8.encode (Workspace.notification method params)) := by
  refine ⟨_, _, _, lists_printObject ?_, means_quote "2.0", means_quote method, holds⟩
  simp only [List.mem_cons, List.not_mem_nil, or_false, forall_eq_or_imp, forall_eq]
  exact ⟨derives_quote "2.0", derives_quote method, isValue⟩

/-- The order to open a solution names it. -/
theorem isOrder_openSolution (solution : String) :
    IsOrder "solution/open" (NamesSolution solution) (Text.Utf8.encode (Workspace.openSolution solution)) := by
  have value : ∀ member ∈ [("solution", Json.quote solution)], Derives .value (Text.Utf8.encode member.2) :=
    List.forall_mem_singleton.mpr (derives_quote solution)
  exact isOrder_notification _ (Json.derives_printObject value)
    ⟨_, lists_printObject value, means_quote solution⟩

/-- The order to open projects names all of them. -/
theorem isOrder_openProjects (projects : List String) :
    IsOrder "project/open" (NamesProjects projects) (Text.Utf8.encode (Workspace.openProjects projects)) := by
  have texts : Derives .value
      (Text.Utf8.encode (Json.printArray (projects.map Json.quote))) := (names_printArray projects).derives
  have value : ∀ member ∈ [("projects", Json.printArray (projects.map Json.quote))],
      Derives .value (Text.Utf8.encode member.2) := List.forall_mem_singleton.mpr texts
  exact isOrder_notification _ (Json.derives_printObject value)
    ⟨_, lists_printObject value, names_printArray projects⟩

/-- The orders of a workspace are those of its solution, if it has one, and of its projects. -/
theorem isOrder_of_mem_notifications {workspace : Workspace} {text : List Char}
    (among : text ∈ workspace.notifications) :
    workspace.solution ≠ "" ∧
        IsOrder "solution/open" (NamesSolution workspace.solution) (Text.Utf8.encode text) ∨
      IsOrder "project/open" (NamesProjects workspace.projects) (Text.Utf8.encode text) := by
  rcases List.mem_append.mp among with solution | projects
  · left
    unfold Workspace.solution? at solution
    split at solution
    · exact absurd solution nofun
    · rename_i named
      obtain rfl := List.mem_singleton.mp solution
      exact ⟨named, isOrder_openSolution workspace.solution⟩
  · right
    obtain rfl := List.mem_singleton.mp projects
    exact isOrder_openProjects workspace.projects

/-! ## What the proxy makes of it -/

/-- An order has its method. -/
theorem IsOrder.hasMethod {method : String} {Params : Bytes → Prop} {body : Bytes}
    (isOrder : IsOrder method Params body) : HasMethod method body := by
  obtain ⟨version, name, params, lists, _, means, _⟩ := isOrder
  exact ⟨_, name, (lists _).mpr rfl, by simp [methodMembers, methodField], (means method).mpr rfl⟩

/-- So it is not intercepted, unless its method is one of the two. -/
theorem IsOrder.intercepted?_eq_none {method : String} {Params : Bytes → Prop} {body : Bytes}
    (isOrder : IsOrder method Params body) (other : ∀ kind : Intercepted, kind.method ≠ method) :
    intercepted? body = none := by
  have read : method? body = .ok (some method) := method?_eq_some_iff.mpr (.inl isOrder.hasMethod)
  cases found : intercepted? body with
  | none => rfl
  | some kind =>
    have known := (intercepted?_eq_some_iff.mp found).1
    rw [read] at known
    exact absurd (Option.some.inj (Except.ok.inj known)).symm (other kind)

/-- What is injected are orders of the workspace. -/
theorem exists_notification_of_injected {disk : Disk} {interceptor : Interceptor} {message body : Bytes}
    (injected : body ∈ (interceptor.process disk message).value.1.inject) :
    ∃ text ∈ interceptor.workspace.notifications, body = Text.Utf8.encode text := by
  rw [Interceptor.process_value] at injected
  dsimp only at injected
  split at injected
  · rw [← encode_notifications] at injected
    obtain ⟨text, among, rfl⟩ := List.mem_map.mp injected
    exact ⟨text, among, rfl⟩
  · exact absurd injected nofun

/-- Every order that is injected says what the workspace is, whatever characters are in its texts and however
many projects there are: it is the order to open the solution, or the one to open the projects, and can be read
as nothing else. The proxy itself would pass it on as it is. It is sent under the number of its octets, and taken
off the stream again as it is; like every body in memory, it has a length that a header can state. -/
theorem injected_orders_faithful {disk : Disk} {interceptor : Interceptor} {message body : Bytes}
    (injected : body ∈ (interceptor.process disk message).value.1.inject) :
    (interceptor.workspace.solution ≠ "" ∧
        IsOrder "solution/open" (NamesSolution interceptor.workspace.solution) body ∨
      IsOrder "project/open" (NamesProjects interceptor.workspace.projects) body) ∧
    intercepted? body = none ∧
    ∃ text, body = Text.Utf8.encode text ∧
      Frame.encode body =
        Frame.header (Text.Utf8.encode text).length ++ (Frame.lineEnd ++ (Frame.lineEnd ++ body)) ∧
      (Frame.Fits body → Frame.Announces (Frame.header (Text.Utf8.encode text).length) body.length ∧
        ∀ rest, Frame.decode (Frame.encode body ++ rest) = some (body, rest)) := by
  obtain ⟨text, among, rfl⟩ := exists_notification_of_injected injected
  have order := isOrder_of_mem_notifications among
  refine ⟨order, ?_, text, rfl, Frame.encode_eq_header _, fun fits => ⟨?_, ?_⟩⟩
  · rcases order with ⟨_, isOrder⟩ | isOrder
    · exact isOrder.intercepted?_eq_none fun kind => by cases kind <;> decide
    · exact isOrder.intercepted?_eq_none fun kind => by cases kind <;> decide
  · exact Frame.announced?_eq_some_iff.mp (Frame.announced?_header fits)
  · exact Frame.decode_encode_append fits

/-- A solution that closes its quotes, brings in a method of its own, and mentions the other. -/
theorem deceptive_solution_named :
    let workspace : Workspace :=
      { solution := "\"\x7d,\"method\":\"initialize\",\"é\\\x01textDocument/diagnostic", projects := ["\n"] }
    let interceptor : Interceptor := { workspace }
    let handshake := Bytes.ascii "\x7b\"method\":\"initialize\"\x7d"
    let body := Text.Utf8.encode (Workspace.openSolution workspace.solution)
    body ∈ (interceptor.process {} handshake).value.1.inject ∧
    (workspace.solution ≠ "" ∧ IsOrder "solution/open" (NamesSolution workspace.solution) body ∨
      IsOrder "project/open" (NamesProjects workspace.projects) body) ∧
    intercepted? body = none ∧
    ∃ text, body = Text.Utf8.encode text ∧
      Frame.encode body =
        Frame.header (Text.Utf8.encode text).length ++ (Frame.lineEnd ++ (Frame.lineEnd ++ body)) ∧
      (Frame.Fits body → Frame.Announces (Frame.header (Text.Utf8.encode text).length) body.length ∧
        ∀ rest, Frame.decode (Frame.encode body ++ rest) = some (body, rest)) := by
  intro workspace interceptor handshake body
  have opens : isHandshake handshake = true := by decide +kernel
  have injected : body ∈ (interceptor.process {} handshake).value.1.inject := by
    rw [Interceptor.process_value, if_pos ⟨opens, rfl⟩, ← encode_notifications]
    exact List.mem_map_of_mem List.mem_cons_self
  exact ⟨injected, injected_orders_faithful injected⟩

end LspProxy.Message
