import LspProxy.Message.Method
import LspProxy.Proofs.Bytes.Occurrence
import LspProxy.Proofs.Json.Readers

/-!
# The look at the raw bytes

A message is read only if the name of one of the two methods stands among its raw bytes. That look
never makes up a kind, and it is known exactly which kinds it hides: those of a message whose method is
named only with escapes (`classification_exact`). A text in quotes without an escape is spelled out by
its own octets, so in a message without a backslash the method that is read stands among the bytes that
were looked at, and the look hides nothing.
-/
namespace LspProxy.Message

/-- The look finds a name exactly when the name occurs. -/
theorem contains_iff {pattern bytes : Bytes} (nonempty : pattern ≠ []) :
    Bytes.contains pattern bytes = true ↔ pattern <:+: bytes := by
  have absent : Bytes.position? pattern bytes = none ↔ ¬ pattern <:+: bytes :=
    Bytes.position?_eq_none_iff nonempty
  unfold Bytes.contains
  rw [Option.isSome_iff_ne_none, ne_eq, absent, Decidable.not_not]

/-- The method that has been read of a message occurs in the message. -/
def Spelled (body : Bytes) (state : Option (Option String)) : Prop :=
  ∀ name, state.join = some name → Text.Utf8.encode name.toList <:+: body

/-- Without escapes the method is read from where it is spelled. -/
theorem methodField_keeps {body : Bytes} (literal : 0x5C ∉ body) :
    Json.Keeps (Spelled body) body [methodField] := by
  intro field member state next depth input rest inside _ read
  obtain rfl := List.mem_singleton.mp member
  change (Json.readOptional Json.readText input >>= fun result => pure (some result.1, result.2)) =
    Except.ok (next, rest) at read
  cases value : Json.readOptional Json.readText input with
  | error fault => simp [value, bind, Except.bind] at read
  | ok result =>
    obtain ⟨method, behind⟩ := result
    simp only [value, bind, Except.bind, pure, Except.pure, Except.ok.injEq, Prod.mk.injEq] at read
    obtain ⟨rfl, rfl⟩ := read
    rcases Json.readOptional_eq_ok value with ⟨rfl, forward⟩ | ⟨name, rfl, found⟩
    · exact ⟨fun name named => absurd named (by simp), forward⟩
    · obtain ⟨string, quoted, text⟩ := Json.readText_eq_ok found
      have within : string <:+ input :=
        (List.suffix_cons _ _).trans (quoted.trans (Json.skipSpace_suffix input))
      have noEscape : 0x5C ∉ string := fun member => literal ((within.trans inside).mem member)
      refine ⟨?_, (Json.readString_suffix text).trans within⟩
      intro name' named
      obtain rfl : name = name' := by simpa using named
      have front : Text.Utf8.encode name.toList <+: string :=
        ⟨_, (Json.readString_spelled noEscape text).symm⟩
      exact front.isInfix.trans (within.trans inside).isInfix

/-- Without escapes the method of a message occurs in the message. -/
theorem method?_spelled {body : Bytes} (literal : 0x5C ∉ body) {name : String}
    (method : (method? body).toOption.join = some name) : Text.Utf8.encode name.toList <:+: body := by
  unfold method? parse readMethod at method
  cases read : Json.readRecord [methodField] none Json.depthLimit body with
  | error fault => simp [read, bind, Except.bind, Except.toOption] at method
  | ok result =>
    obtain ⟨state, rest⟩ := result
    have start : Spelled body none := fun name named => absurd named (by simp)
    have spelled := (Json.readRecord_invariant (methodField_keeps literal) start read).1
    apply spelled
    simp only [read, bind, Except.bind, pure, Except.pure, Json.finish] at method
    split at method
    · exact method
    · exact absurd method (by simp [Except.toOption])

/-- A message without a method is of no kind, whatever its raw bytes suggest. -/
theorem intercepted?_of_none {body : Bytes} (method : (method? body).toOption.join = none) :
    intercepted? body = none := by
  unfold intercepted?
  rw [method]
  cases suggested? body <;> rfl

/-- The kind that a method makes, unless the look at the raw bytes hides it. -/
theorem intercepted?_of_some {body : Bytes} {name : String}
    (method : (method? body).toOption.join = some name) :
    intercepted? body =
      if name = diagnosticMethod then
        if Bytes.contains (Bytes.ascii diagnosticMethod) body then some .diagnostic else none
      else if name = initializeMethod then
        if Bytes.contains (Bytes.ascii diagnosticMethod) body ||
            Bytes.contains (Bytes.ascii initializeMethod) body then some .handshake
        else none
      else none := by
  have different : initializeMethod ≠ diagnosticMethod := by decide
  unfold intercepted? suggested?
  rw [method]
  by_cases mentionsDiagnostic : Bytes.contains (Bytes.ascii diagnosticMethod) body = true
  · simp [mentionsDiagnostic]
  · by_cases mentionsInitialize : Bytes.contains (Bytes.ascii initializeMethod) body = true
    · by_cases diagnostic : name = diagnosticMethod
      · simp [mentionsDiagnostic, mentionsInitialize, diagnostic, different.symm]
      · simp [mentionsDiagnostic, mentionsInitialize, diagnostic]
    · simp [mentionsDiagnostic, mentionsInitialize]

/-- The kind of a message is the kind that its method makes, except that a diagnostic request counts
only if the name of its method stands among the raw bytes, and a handshake only if one of the two names
does. So the two ways to ask for the kind differ on messages with escapes only. -/
theorem classification_exact (body : Bytes) :
    (intercepted? body = some .diagnostic ↔
      probed? body = some .diagnostic ∧ Bytes.ascii diagnosticMethod <:+: body) ∧
    (intercepted? body = some .handshake ↔
      probed? body = some .handshake ∧
        (Bytes.ascii diagnosticMethod <:+: body ∨ Bytes.ascii initializeMethod <:+: body)) ∧
    (0x5C ∉ body → intercepted? body = probed? body) := by
  have probed : probed? body = (method? body).toOption.join >>= Intercepted.ofMethod? := rfl
  have diagnosticStands : Bytes.contains (Bytes.ascii diagnosticMethod) body = true ↔
      Bytes.ascii diagnosticMethod <:+: body := contains_iff (by decide)
  have initializeStands : Bytes.contains (Bytes.ascii initializeMethod) body = true ↔
      Bytes.ascii initializeMethod <:+: body := contains_iff (by decide)
  rw [← diagnosticStands, ← initializeStands]
  cases method : (method? body).toOption.join with
  | none =>
    rw [probed, method, intercepted?_of_none method]
    simp
  | some name =>
    have spelled (literal : 0x5C ∉ body) := method?_spelled literal method
    have diagnosticOctets : Text.Utf8.encode diagnosticMethod.toList = Bytes.ascii diagnosticMethod := by
      decide +kernel
    have initializeOctets : Text.Utf8.encode initializeMethod.toList = Bytes.ascii initializeMethod := by
      decide +kernel
    rw [probed, method, intercepted?_of_some method]
    simp only [Option.bind_eq_bind, Option.bind_some, Intercepted.ofMethod?]
    by_cases diagnostic : name = diagnosticMethod
    · subst diagnostic
      rw [diagnosticOctets, ← diagnosticStands] at spelled
      refine ⟨by simp, by simp, fun literal => ?_⟩
      simp [spelled literal]
    · by_cases handshake : name = initializeMethod
      · subst handshake
        rw [initializeOctets, ← initializeStands] at spelled
        refine ⟨by simp [diagnostic], ?_, fun literal => ?_⟩
        · simp [diagnostic, Decidable.or_iff_not_imp_left]
        · simp [diagnostic, spelled literal]
      · simp [diagnostic, handshake]

/-- A handshake whose first letter is written as an escape, which the look at the raw bytes hides. -/
def escapedHandshake : Bytes :=
  Bytes.ascii
    "\x7b\"jsonrpc\":\"2.0\",\"id\":0,\"method\":\"\\u0069nitialize\",\"params\":\x7b\x7d\x7d"

/-- A handshake with an escape in the name of its method is overlooked. -/
theorem escaped_handshake_overlooked :
    probed? escapedHandshake = some .handshake ∧ intercepted? escapedHandshake = none := by
  decide +kernel

end LspProxy.Message
