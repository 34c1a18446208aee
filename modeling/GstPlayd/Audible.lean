import GstPlayd.PadEvents
import Mathlib.Logic.Relation

/-! Which sources are heard: the links that lead from an element to the audio
sink, in every run of requests and pads. -/

namespace ElementGraph.Graph

end ElementGraph.Graph

namespace GstPlayd

open ElementGraph ElementGraph.Graph StepMachine StepMachine.Machine

variable {accepts : Caps → Bool} {out : Output} {ports : List Port} {p : Port} {ctx ctx' : PlaybackCtx}
  {es : List PlaybackEvent} {e : PlaybackEvent} {item : SourceItem} {a b : Element} {x y : Pad} {mux : Element}

theorem Port.Wire.isSource (h : p.Wire mux x y) : x.isSource = true ∧ y.isSource = false := by
  cases h with
  | toMux => exact ⟨rfl, rfl⟩
  | fromSource => exact ⟨rfl, rfl⟩

theorem Output.Wire.isSource (h : out.Wire x y) : x.isSource = true ∧ y.isSource = false := by
  cases h with
  | mixed => exact ⟨rfl, rfl⟩
  | heard => exact ⟨rfl, rfl⟩

theorem Wires.isSource (h : Wires out ports x y) : x.isSource = true ∧ y.isSource = false := by
  rcases h with hw | ⟨p, -, hw⟩
  · exact hw.isSource
  · exact hw.isSource

/-- A pad of the item has shown up, and the item has been live since. -/
def Shown (accepts : Caps → Bool) (out : Output) (es : List PlaybackEvent) (item : SourceItem) : Prop :=
  ∃ pre pad caps post, es = pre ++ .padAdded item pad caps :: post ∧
    ∀ post₁ post₂ s, post = post₁ ++ post₂ →
      (gstreamerMachine accepts).Reaches out.new (pre ++ .padAdded item pad caps :: post₁) s → item ∈ s.sources

theorem Shown.live (h : Shown accepts out es item) (hr : (gstreamerMachine accepts).Reaches out.new es ctx) :
    item ∈ ctx.sources := by
  obtain ⟨pre, pad, caps, post, rfl, hlive⟩ := h
  exact hlive post [] ctx (List.append_nil post).symm hr

end GstPlayd
