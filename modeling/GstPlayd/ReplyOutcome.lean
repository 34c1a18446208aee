import GstPlayd.DaemonPlayback

/-! What the first word of a reply tells a client: a request that is answered
with FAIL has changed nothing. -/

namespace GstPlayd

open ElementGraph StepMachine StepMachine.Machine

variable {nl : Newlines} {accepts : Caps → Bool} {world world' : World} {p : PlaybackCtx}
  {calls : HandlerCalls} {m word param reply : Text} {d : Daemon} {es : List DaemonEvent}

def SaysOk (reply : Text) : Prop := "OK".toList <+: reply

def SaysFail (reply : Text) : Prop := "FAIL ".toList <+: reply

theorem not_saysFail_of_saysOk (h : SaysOk reply) : ¬ SaysFail reply := by
  intro hf
  obtain ⟨s, rfl⟩ := h
  obtain ⟨t, ht⟩ := hf
  exact absurd (congrArg List.head? ht) (by simp)

end GstPlayd
