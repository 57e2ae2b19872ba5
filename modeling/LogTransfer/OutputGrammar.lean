import LogTransfer.Backpressure

/-!
# Output grammar of a session

Whatever the order of reads, writes, timers and parser results, the messages a
session hands to its socket are the beginning of one conversation, and a stream
that cannot be trusted is closed without another word.
-/

set_option autoImplicit false

namespace LogTransfer
open Program Interleave

namespace Session

variable (e : Env) (s : Session) (data : Bytes)

end Session

/-- Ack(Ok) opens no other conversation than that of a whole upload. -/
theorem speaks_ackOk {received : Bytes} {count : ℕ} {rest : List Bytes}
    (h : Speaks received (encodeAck { status := .ok, receivedBytes := count } :: rest)) :
    ∃ u payload, u <+: received ∧ Reception.Upload u payload ∧
      encodeAck { status := .ok, receivedBytes := count } =
        encodeAck { status := .ok, receivedBytes := payload.length } := by
  obtain ⟨full, hf, t, ht⟩ := h
  cases hf with
  | refused status n hst =>
    simp only [List.cons_append, List.cons.injEq] at ht
    exact absurd (status_of_encodeAck ht.1).symm hst
  | uploaded u payload csv hu hup =>
    simp only [List.cons_append, List.cons.injEq] at ht
    exact ⟨u, payload, hu, hup, ht.1⟩
  | resumed csv offset ho =>
    simp only [List.cons_append, List.cons.injEq] at ht
    exact absurd ht.1 (by simpa [wholeHeader] using ack_ne_result _ _ [])

variable [Doubles]

end LogTransfer
