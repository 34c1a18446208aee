import GstPlayd.PlayHistory

/-! An abstract view of the playback graph: a row of mixer ports, one for each
source, and the wires that the ports stand for. The ports follow the requests
alone, and in every run the pipeline is wired as they say. -/

namespace GstPlayd

open ElementGraph ElementGraph.Graph StepMachine StepMachine.Machine

def SourceItem.elements (item : SourceItem) : List Element := item.element.toList ++ item.ac.toList

/-- `pad` is the request pad of the mux that the converter feeds, `feed` the pad
of the source that feeds the converter. Without a converter there is neither. -/
structure Port where
  item : SourceItem
  pad : Option Nat
  feed : Option Nat
  pad_ac : item.ac = none → pad = none
  feed_ac : item.ac = none → feed = none

namespace Port

def played (uri : Text) (calls : PlayCalls) : Port where
  item := playedItem uri calls
  pad := calls.ac.bind fun _ => calls.muxPad
  feed := none
  pad_ac h := by rw [show calls.ac = none from h, Option.bind_none]
  feed_ac _ := rfl

def fed (p : Port) (n : Nat) : Port where
  item := p.item
  pad := p.pad
  feed := p.item.ac.map fun _ => n
  pad_ac := p.pad_ac
  feed_ac h := by rw [h, Option.map_none]

def muxPad (mux : Element) (p : Port) : Option Pad := p.pad.map fun n => ⟨mux, .request n⟩

def sourcePad (p : Port) : Option Pad :=
  p.item.element.bind fun e => p.feed.map fun n => ⟨e, .sometimes n⟩

inductive Wire (mux : Element) (p : Port) : Pad → Pad → Prop
  | toMux {a n} (ha : p.item.ac = some a) (hn : p.pad = some n) :
      Wire mux p ⟨a, .src⟩ ⟨mux, .request n⟩
  | fromSource {e a n} (he : p.item.element = some e) (ha : p.item.ac = some a)
      (hn : p.feed = some n) : Wire mux p ⟨e, .sometimes n⟩ ⟨a, .sink⟩

end Port

structure Output where
  mux : Element
  ac : Element
  sink : Element
  distinct : [mux, ac, sink].Nodup

namespace Output

def elements (out : Output) : List Element := [out.mux, out.ac, out.sink]

def new (out : Output) : PlaybackCtx := newPlaybackCtx out.sink out.mux out.ac

inductive Wire (out : Output) : Pad → Pad → Prop
  | mixed : Wire out ⟨out.mux, .src⟩ ⟨out.ac, .sink⟩
  | heard : Wire out ⟨out.ac, .src⟩ ⟨out.sink, .sink⟩

end Output

def portsStep (ports : List Port) : PlaybackEvent → List Port
  | .play uri calls => .played uri calls :: ports
  | .stop param _ => ports.eraseP fun p => hasId (stopId param) p.item
  | .padAdded source pad _ => ports.map fun p => if p.item = source then p.fed pad else p

def portsOf (es : List PlaybackEvent) : List Port := es.foldl portsStep []

theorem portsOf_snoc (es : List PlaybackEvent) (e : PlaybackEvent) :
    portsOf (es ++ [e]) = portsStep (portsOf es) e := by
  simp [portsOf]

variable {accepts : Caps → Bool} {out : Output} {ports newer older : List Port} {p q : Port}
  {ctx ctx' : PlaybackCtx} {es : List PlaybackEvent} {item : SourceItem} {g : Graph}
  {mux : Element} {x y : Pad}

def Wires (out : Output) (ports : List Port) (x y : Pad) : Prop :=
  out.Wire x y ∨ ∃ p ∈ ports, p.Wire out.mux x y

/-- The pipeline holds the elements of the output and of the ports, and is
wired as the ports say. -/
structure Realizes (out : Output) (ports : List Port) (ctx : PlaybackCtx) : Prop where
  mux : ctx.mux = out.mux
  sources : ctx.sources = ports.map Port.item
  children : ctx.pipeline.children.Perm (out.elements ++ ports.flatMap fun p => p.item.elements)
  distinct : (out.elements ++ ports.flatMap fun p => p.item.elements).Nodup
  requestPads : ctx.pipeline.requestPads.Perm (ports.filterMap (Port.muxPad out.mux))
  pads : (ports.filterMap (Port.muxPad out.mux)).Nodup
  wiring : ∀ x y, ctx.pipeline.wiring.peer x = some y ↔ Wires out ports x y ∨ Wires out ports y x
  announced : ∀ x, (∃ caps, (x, caps) ∈ ctx.pipeline.announced) ↔ ∃ p ∈ ports, x ∈ p.sourcePad

theorem Port.Wire.elements (h : p.Wire mux x y) : x.element ∈ p.item.elements ∧
    (y.element ∈ p.item.elements ∨ y.element = mux) := by
  cases h with
  | toMux ha hn => simp [SourceItem.elements, ha]
  | fromSource he ha hn => simp [SourceItem.elements, he, ha]

theorem Output.Wire.elements (h : out.Wire x y) : x.element ∈ out.elements ∧
    y.element ∈ out.elements := by
  cases h <;> simp [Output.elements]

theorem Output.new_peer (out : Output) : out.new.pipeline.wiring.peer x = some y ↔
    out.Wire x y ∨ out.Wire y x := by
  have hd := out.distinct
  simp only [List.nodup_cons, List.mem_cons, List.not_mem_nil, or_false, not_or] at hd
  have hfirst : ∀ {x y : Pad}, (Wiring.empty.join (⟨out.mux, .src⟩ : Pad) ⟨out.ac, .sink⟩).peer x =
      some y ↔ (x = ⟨out.mux, .src⟩ ∧ y = ⟨out.ac, .sink⟩) ∨
        (x = ⟨out.ac, .sink⟩ ∧ y = ⟨out.mux, .src⟩) ∨
        Wiring.empty.peer x = some y :=
    Wiring.peer_join Wiring.peer_empty Wiring.peer_empty (by simp)
  have hfree : ∀ z : Pad, z ≠ ⟨out.mux, .src⟩ → z ≠ ⟨out.ac, .sink⟩ →
      (Wiring.empty.join (⟨out.mux, .src⟩ : Pad) ⟨out.ac, .sink⟩).peer z = none := by
    intro z hm ha
    rw [Option.eq_none_iff_forall_ne_some]
    intro w hw
    rcases hfirst.mp hw with ⟨h, _⟩ | ⟨h, _⟩ | h
    · exact hm h
    · exact ha h
    · simp at h
  have hw : out.new.pipeline.wiring = (Wiring.empty.join (⟨out.mux, .src⟩ : Pad) ⟨out.ac, .sink⟩).join
      ⟨out.ac, .src⟩ ⟨out.sink, .sink⟩ := rfl
  rw [hw, Wiring.peer_join (hfree ⟨out.ac, .src⟩ (by simpa using Ne.symm hd.1.1) (by simp))
    (hfree ⟨out.sink, .sink⟩ (by simp) (by simpa using Ne.symm hd.2.1)) (by simp), hfirst]
  constructor
  · intro hh
    rcases hh with ⟨rfl, rfl⟩ | ⟨rfl, rfl⟩ | ⟨rfl, rfl⟩ | ⟨rfl, rfl⟩ | h
    · exact .inl .heard
    · exact .inr .heard
    · exact .inl .mixed
    · exact .inr .mixed
    · simp at h
  · rintro (h | h) <;> cases h <;> simp

theorem realizes_new (out : Output) : Realizes out [] out.new := by
  refine ⟨rfl, rfl, ?_, ?_, .nil, List.nodup_nil, ?_, ?_⟩
  · simp only [List.flatMap_nil, List.append_nil]
    exact List.reverse_perm out.elements
  · simp only [List.flatMap_nil, List.append_nil]
    exact out.distinct
  · intro x y
    simp [Output.new_peer, Wires]
  · simp [Output.new, newPlaybackCtx, gstElementLinkPads, Graph.empty]

theorem removeSource_children : (removeSource item g mux).children = g.children.diff item.elements := by
  simp [removeSource, SourceItem.elements, List.diff_append]

theorem removeSource_requestPads : (removeSource item g mux).requestPads =
    g.requestPads.diff (item.ac.bind fun a => g.wiring.peer ⟨a, .src⟩).toList := by
  cases h : item.ac <;> simp [removeSource, h, gstPadGetPeer, gstElementGetStaticPad]

theorem removable (hc : ∀ e ∈ item.elements, e ∈ g.children) (hd : item.elements.Nodup) :
    (∀ e ∈ item.element, e ∈ g.children) ∧
      ∀ a ∈ item.ac, a ∈ g.children.diff item.element.toList := by
  have he : ∀ e ∈ item.element, e ∈ item.elements := fun e he => by
    simpa [SourceItem.elements] using Or.inl he
  have ha : ∀ a ∈ item.ac, a ∈ item.elements := fun a ha => by
    simpa [SourceItem.elements] using Or.inr ha
  refine ⟨fun e h => hc e (he e h), fun a h => List.mem_diff_of_mem (hc a (ha a h)) ?_⟩
  intro hm
  exact List.disjoint_of_nodup_append hd hm (by simpa using h)

theorem removeSource_peer (hc : ∀ e ∈ item.elements, e ∈ g.children) (hd : item.elements.Nodup) :
    (removeSource item g mux).wiring.peer x = some y ↔
      g.wiring.peer x = some y ∧ x.element ∉ item.elements ∧ y.element ∉ item.elements := by
  obtain ⟨he, ha⟩ := removable hc hd
  simp only [removeSource]
  rw [gstBinRemove_peer (by simpa using ha), gstBinRemove_peer (by simpa using he),
    gstElementReleaseRequestPad_peer, gstElementUnlink_peer, gstElementUnlink_peer]
  simp only [gstPadGetPeer, gstElementSetState_frame, SourceItem.elements, List.mem_append,
    Option.mem_toList, not_or]
  constructor
  · intro hh
    obtain ⟨⟨⟨⟨⟨h, _⟩, _⟩, _⟩, hxe, hye⟩, hxa, hya⟩ := hh
    exact ⟨h, ⟨hxe, hxa⟩, hye, hya⟩
  · intro hh
    obtain ⟨h, ⟨hxe, hxa⟩, hye, hya⟩ := hh
    -- the released pad is the far end of a wire at the converter
    have hfar : ∀ z w, g.wiring.peer z = some w → w.element ∉ item.ac →
        z ∉ (gstElementGetStaticPad item.ac .src).bind g.wiring.peer := by
      intro z w hz hw hm
      obtain ⟨s, hs, hsz⟩ := Option.bind_eq_some_iff.mp hm
      obtain ⟨a, ha, rfl⟩ := Option.map_eq_some_iff.mp hs
      rw [g.wiring.symm hsz, Option.some.injEq] at hz
      exact hw (hz ▸ ha)
    have hgoes : ∀ {s d z w}, s ≠ z.element → linkGoes s d z w = false := by
      intro s d z w hne
      simp [linkGoes, Ne.symm hne]
    have hne : ∀ {o : Option Element} {z : Element}, z ∉ o → ∀ s ∈ o, s ≠ z := by
      rintro o z hz s hs rfl
      exact hz hs
    refine ⟨⟨⟨⟨⟨h, ?_⟩, ?_⟩, hfar x y h hya, hfar y x (g.wiring.symm h) hxa⟩, hxe, hye⟩, hxa, hya⟩
    · exact fun s hs d _ => ⟨hgoes (hne hxe s hs), hgoes (hne hye s hs)⟩
    · exact fun s hs d _ => ⟨hgoes (hne hxa s hs), hgoes (hne hya s hs)⟩

theorem mem_removeSource_announced {a : Pad × Caps} (hc : ∀ e ∈ item.elements, e ∈ g.children)
    (hd : item.elements.Nodup) : a ∈ (removeSource item g mux).announced ↔
      a ∈ g.announced ∧ a.1.element ∉ item.elements := by
  obtain ⟨he, ha⟩ := removable hc hd
  simp only [removeSource]
  rw [mem_gstBinRemove_announced (by simpa using ha), mem_gstBinRemove_announced (by simpa using he)]
  simp [SourceItem.elements, and_assoc]

theorem Wires.cons_iff : Wires out (p :: ports) x y ↔ p.Wire out.mux x y ∨ Wires out ports x y := by
  simp only [Wires, List.mem_cons, exists_eq_or_imp]
  exact or_left_comm

theorem filterMap_cons_toList {α β : Type} (f : α → Option β) (a : α) (l : List α) :
    (a :: l).filterMap f = (f a).toList ++ l.filterMap f := by
  cases h : f a <;> simp [h]

theorem playedGraph_fields (uri : Text) (calls : PlayCalls) (g : Graph) (mux : Element) :
    (playedGraph uri calls g mux).children = (playedItem uri calls).elements ++ g.children ∧
    (playedGraph uri calls g mux).requestPads =
      ((Port.played uri calls).muxPad mux).toList ++ g.requestPads ∧
    (playedGraph uri calls g mux).announced = g.announced ∧
    (playedGraph uri calls g mux).wiring =
      (addSource (playedItem uri calls) calls.muxPad g mux).wiring := by
  refine ⟨?_, ?_, ?_, ?_⟩ <;> simp only [playedGraph] <;> split <;>
    simp [addSource, SourceItem.elements, gstElementLinkRequest_requestPads, Port.muxPad, Port.played,
      playedItem]

theorem played_peer {uri : Text} {calls : PlayCalls}
    (ha : ∀ a ∈ calls.ac, g.wiring.peer ⟨a, .src⟩ = none)
    (hn : ∀ n ∈ calls.muxPad, g.wiring.peer ⟨mux, .request n⟩ = none) :
    (playedGraph uri calls g mux).wiring.peer x = some y ↔
      g.wiring.peer x = some y ∨ (Port.played uri calls).Wire mux x y ∨
        (Port.played uri calls).Wire mux y x := by
  have hw : ∀ x y, (Port.played uri calls).Wire mux x y ↔
      ∃ a n, calls.ac = some a ∧ calls.muxPad = some n ∧ x = ⟨a, .src⟩ ∧ y = ⟨mux, .request n⟩ := by
    intro x y
    constructor
    · intro hh
      rcases hh with ⟨ha, hn⟩ | ⟨_, _, hn⟩
      · obtain ⟨_, _, hn⟩ := Option.bind_eq_some_iff.mp hn
        exact ⟨_, _, ha, hn, rfl, rfl⟩
      · cases hn
    · intro hh
      obtain ⟨a, n, ha, hn, rfl, rfl⟩ := hh
      refine .toMux ha ?_
      simp [Port.played, ha, hn]
  rw [(playedGraph_fields uri calls g mux).2.2.2, hw, hw]
  simp only [addSource, gstBinAdd_frame]
  rw [gstElementLinkRequest_peer (by simpa [playedItem] using ha) (by simpa using hn)]
  simp only [gstBinAdd_frame, gstElementFactoryMake_frame]
  refine or_congr_right ⟨?_, ?_⟩
  · intro hh
    rcases hh with ⟨a, n, ha, hn, hxy | hxy⟩
    · exact .inl ⟨a, n, ha, hn, hxy⟩
    · exact .inr ⟨a, n, ha, hn, hxy.symm⟩
  · intro hh
    rcases hh with ⟨a, n, ha, hn, hxy⟩ | ⟨a, n, ha, hn, hxy⟩
    · exact ⟨a, n, ha, hn, .inl hxy⟩
    · exact ⟨a, n, ha, hn, .inr hxy.symm⟩

theorem elements_new {uri : Text} {calls : PlayCalls} (hnew : GstreamerAnswers ctx (.play uri calls)) :
    (playedItem uri calls).elements.Nodup ∧
      ∀ e ∈ (playedItem uri calls).elements, NewElement ctx.pipeline e := by
  obtain ⟨he, ha, _⟩ := hnew
  constructor
  · refine List.nodup_append.mpr ⟨Option.toList_nodup _, Option.toList_nodup _, ?_⟩
    rintro e h _ h' rfl
    exact (he e (Option.mem_toList.mp h)).2 (Option.mem_toList.mp h')
  · intro e h
    rcases List.mem_append.mp h with h | h
    · exact (he e (Option.mem_toList.mp h)).1
    · exact ha e (Option.mem_toList.mp h)

theorem realizes_play (h : Realizes out ports ctx) {uri : Text} {calls : PlayCalls}
    (hnew : GstreamerAnswers ctx (.play uri calls)) :
    Realizes out (.played uri calls :: ports)
      { ctx with
        pipeline := playedGraph uri calls ctx.pipeline ctx.mux
        sources := playedItem uri calls :: ctx.sources } := by
  obtain ⟨hnodup, hdisj⟩ := elements_new hnew
  obtain ⟨he, ha, hn⟩ := hnew
  obtain ⟨hchildren, hpads, hann, _⟩ := playedGraph_fields uri calls ctx.pipeline ctx.mux
  have hperm : ((playedItem uri calls).elements ++ ctx.pipeline.children).Perm
      (out.elements ++ (Port.played uri calls :: ports).flatMap fun p => p.item.elements) :=
    (h.children.append_left _).trans (List.perm_append_comm_assoc _ _ _)
  refine ⟨h.mux, ?_, hchildren ▸ hperm, hperm.nodup_iff.mp ?_, ?_, ?_, ?_, ?_⟩
  · rw [List.map_cons, h.sources]
    rfl
  · refine List.nodup_append'.mpr ⟨hnodup, h.children.nodup_iff.mpr h.distinct, ?_⟩
    exact fun e hm hc => (hdisj e hm).1 hc
  · rw [filterMap_cons_toList, hpads, h.mux]
    exact h.requestPads.append_left _
  · rw [filterMap_cons_toList]
    refine List.nodup_append'.mpr ⟨Option.toList_nodup _, h.pads, ?_⟩
    intro x hx hm
    obtain ⟨n, hpad, rfl⟩ := Option.map_eq_some_iff.mp (Option.mem_toList.mp hx)
    obtain ⟨_, _, hpad⟩ := Option.bind_eq_some_iff.mp hpad
    exact (h.mux ▸ hn n hpad).1 (h.requestPads.symm.subset hm)
  · intro x y
    rw [played_peer (fun a h => (ha a h).2 .src) (fun n h => (hn n h).2.2), h.wiring, h.mux,
      Wires.cons_iff, Wires.cons_iff]
    tauto
  · intro x
    simp only [hann, List.mem_cons, exists_eq_or_imp, h.announced]
    simp [Port.sourcePad, Port.played]

theorem append_diff_self {α : Type} [DecidableEq α] (l r : List α) : (l ++ r).diff l = r := by
  induction l with
  | nil => simp
  | cons a l ih => simpa using ih

theorem elements_split (out : Output) (newer older : List Port) (p : Port) :
    (out.elements ++ (newer ++ p :: older).flatMap fun q => q.item.elements).Perm
      (p.item.elements ++ (out.elements ++ (newer ++ older).flatMap fun q => q.item.elements)) := by
  have hp : ((newer ++ p :: older).flatMap fun q => q.item.elements).Perm
      (p.item.elements ++ (newer ++ older).flatMap fun q => q.item.elements) :=
    List.perm_middle.flatMap_right _
  exact (hp.append_left _).trans (List.perm_append_comm_assoc _ _ _)

theorem Realizes.apart (h : Realizes out (newer ++ p :: older) ctx) : p.item.elements.Nodup ∧
    ∀ e ∈ p.item.elements, e ∉ out.elements ∧ ∀ q ∈ newer ++ older, e ∉ q.item.elements := by
  have hd := (elements_split out newer older p).nodup_iff.mp h.distinct
  obtain ⟨hp, _, hdis⟩ := List.nodup_append'.mp hd
  refine ⟨hp, fun e he => ?_⟩
  have hn : e ∉ out.elements ++ _ := hdis he
  rw [List.mem_append, not_or] at hn
  exact ⟨hn.1, fun q hq hm => hn.2 (List.mem_flatMap.mpr ⟨q, hq, hm⟩)⟩

theorem Port.sourcePad_element (h : x ∈ p.sourcePad) : x.element ∈ p.item.element := by
  obtain ⟨e, he, h⟩ := Option.bind_eq_some_iff.mp h
  obtain ⟨n, _, rfl⟩ := Option.map_eq_some_iff.mp h
  exact he

theorem Port.sourcePad_elements (h : x ∈ p.sourcePad) : x.element ∈ p.item.elements :=
  List.mem_append_left _ (Option.mem_toList.mpr (Port.sourcePad_element h))

theorem wires_remove (h : Realizes out (newer ++ p :: older) ctx) :
    (Wires out (newer ++ p :: older) x y ∧ x.element ∉ p.item.elements ∧ y.element ∉ p.item.elements) ↔
      Wires out (newer ++ older) x y := by
  obtain ⟨_, hapart⟩ := h.apart
  constructor
  · intro hh
    rcases hh with ⟨hw | ⟨q, hq, hw⟩, hx, _⟩
    · exact .inl hw
    · rcases List.mem_append.mp hq with hq | hq
      · exact .inr ⟨q, List.mem_append_left _ hq, hw⟩
      · rcases List.mem_cons.mp hq with rfl | hq
        · exact absurd hw.elements.1 hx
        · exact .inr ⟨q, List.mem_append_right _ hq, hw⟩
  · intro hh
    rcases hh with hw | ⟨q, hq, hw⟩
    · exact ⟨.inl hw, fun he => (hapart _ he).1 hw.elements.1, fun he => (hapart _ he).1 hw.elements.2⟩
    · refine ⟨.inr ⟨q, ?_, hw⟩, fun he => (hapart _ he).2 q hq hw.elements.1, fun he => ?_⟩
      · exact (List.sublist_cons_self p older).append_left newer |>.subset hq
      · rcases hw.elements.2 with hm | hm
        · exact (hapart _ he).2 q hq hm
        · exact (hapart _ he).1 (by simp [hm, Output.elements])

theorem Realizes.port_unique (h : Realizes out ports ctx) (hp : p ∈ ports) (hq : q ∈ ports) {e : Element}
    (hep : e ∈ p.item.elements) (heq : e ∈ q.item.elements) : p = q := by
  obtain ⟨newer, older, rfl⟩ := List.append_of_mem hp
  rcases List.mem_cons.mp (List.perm_middle.mem_iff.mp hq) with rfl | hq
  · rfl
  · exact absurd heq ((h.apart.2 e hep).2 q hq)

theorem Realizes.not_output (h : Realizes out ports ctx) (hp : p ∈ ports) {e : Element}
    (he : e ∈ p.item.elements) : e ∉ out.elements := by
  obtain ⟨newer, older, rfl⟩ := List.append_of_mem hp
  exact (h.apart.2 e he).1

theorem Realizes.exists_port (h : Realizes out ports ctx) {item : SourceItem} (hi : item ∈ ctx.sources) :
    ∃ p ∈ ports, p.item = item := by
  rw [h.sources] at hi
  exact List.mem_map.mp hi

theorem Realizes.peer_ac (h : Realizes out ports ctx) (hp : p ∈ ports) :
    (p.item.ac.bind fun a => ctx.pipeline.wiring.peer ⟨a, .src⟩) = p.muxPad out.mux := by
  cases ha : p.item.ac with
  | none => simp [Port.muxPad, p.pad_ac ha]
  | some a =>
    have hmem : a ∈ p.item.elements := by simp [SourceItem.elements, ha]
    ext y
    rw [Option.bind_some, h.wiring]
    constructor
    · intro hh
      rcases hh with (hw | ⟨q, hq, hw⟩) | (hw | ⟨q, hq, hw⟩)
      · exact absurd hw.elements.1 (h.not_output hp hmem)
      · have hqp := h.port_unique hp hq hmem hw.elements.1
        subst hqp
        cases hw with
        | toMux ha hn => simp [Port.muxPad, hn]
      · cases hw
      · cases hw
    · intro hy
      obtain ⟨n, hn, rfl⟩ := Option.map_eq_some_iff.mp hy
      exact .inl (.inr ⟨p, hp, .toMux ha hn⟩)

theorem realizes_stop (h : Realizes out (newer ++ p :: older) ctx) (freed : List SourceItem) :
    Realizes out (newer ++ older)
      { ctx with
        pipeline := removeSource p.item ctx.pipeline ctx.mux
        sources := (newer ++ older).map Port.item
        freed } := by
  have hp : p ∈ newer ++ p :: older := by simp
  obtain ⟨hnodup, hapart⟩ := h.apart
  have hperm := h.children.trans (elements_split out newer older p)
  have hc : ∀ e ∈ p.item.elements, e ∈ ctx.pipeline.children := fun e he =>
    hperm.symm.subset (List.mem_append_left _ he)
  have hpads : ctx.pipeline.requestPads.Perm
      ((p.muxPad out.mux).toList ++ (newer ++ older).filterMap (Port.muxPad out.mux)) := by
    rw [← filterMap_cons_toList]
    exact h.requestPads.trans (List.perm_middle.filterMap _)
  refine ⟨h.mux, rfl, ?_, ?_, ?_, ?_, ?_, ?_⟩
  · rw [removeSource_children]
    simpa only [append_diff_self] using hperm.diff_right p.item.elements
  · exact (List.nodup_append'.mp (hperm.nodup_iff.mp (h.children.nodup_iff.mpr h.distinct))).2.1
  · rw [removeSource_requestPads, h.peer_ac hp]
    simpa only [append_diff_self] using hpads.diff_right (p.muxPad out.mux).toList
  · exact (List.nodup_append'.mp (hpads.nodup_iff.mp (h.requestPads.nodup_iff.mpr h.pads))).2.1
  · intro x y
    rw [removeSource_peer hc hnodup, h.wiring, ← wires_remove h, ← wires_remove h]
    tauto
  · intro x
    simp only [mem_removeSource_announced hc hnodup, exists_and_right, h.announced]
    constructor
    · intro hh
      obtain ⟨⟨q, hq, hx⟩, hne⟩ := hh
      rcases List.mem_cons.mp (List.perm_middle.mem_iff.mp hq) with rfl | hq
      · exact absurd (Port.sourcePad_elements hx) hne
      · exact ⟨q, hq, hx⟩
    · intro hh
      obtain ⟨q, hq, hx⟩ := hh
      refine ⟨⟨q, List.perm_middle.mem_iff.mpr (List.mem_cons_of_mem p hq), hx⟩, ?_⟩
      exact fun he => (hapart _ he).2 q hq (Port.sourcePad_elements hx)

theorem Realizes.peer_sink (h : Realizes out ports ctx) (hp : p ∈ ports) {a : Element}
    (ha : p.item.ac = some a) : ctx.pipeline.wiring.peer ⟨a, .sink⟩ = p.sourcePad := by
  have hmem : a ∈ p.item.elements := by simp [SourceItem.elements, ha]
  ext y
  rw [h.wiring]
  constructor
  · intro hh
    rcases hh with (hw | ⟨q, hq, hw⟩) | (hw | ⟨q, hq, hw⟩)
    · cases hw
    · cases hw
    · exact absurd hw.elements.2 (h.not_output hp hmem)
    · cases hw with
      | fromSource he ha' hn =>
        have hqp := h.port_unique hp hq hmem (by simp [SourceItem.elements, ha'])
        subst hqp
        simp [Port.sourcePad, he, hn]
  · intro hy
    obtain ⟨e, he, hy⟩ := Option.bind_eq_some_iff.mp hy
    obtain ⟨n, hn, rfl⟩ := Option.map_eq_some_iff.mp hy
    exact .inr (.inr ⟨p, hp, .fromSource he ha hn⟩)

theorem Port.sourcePad_eq_none (hf : p.feed = none) : p.sourcePad = none := by
  simp [Port.sourcePad, hf]

theorem padAdded_ok (h : Realizes out ports ctx) (hp : p ∈ ports) {e a : Element} {n : Nat} {caps : Caps}
    (he : p.item.element = some e) (ha : p.item.ac = some a) (hf : p.feed = none)
    (hc : accepts caps = true) (hnew : NewPad ctx.pipeline ⟨e, .sometimes n⟩) :
    padAdded accepts p.item n caps ctx = .ok
      { ctx with
        pipeline := { ctx.pipeline.announce ⟨e, .sometimes n⟩ caps with
          wiring := ctx.pipeline.wiring.join ⟨e, .sometimes n⟩ ⟨a, .sink⟩ } } := by
  have hs := h.peer_sink hp ha
  rw [Port.sourcePad_eq_none hf] at hs
  simp [padAdded, onNewSourcePadLink, he, ha, gstElementLinkStatic, announce, hs, hnew.2.2, hc, bind,
    Except.bind, pure, Except.pure]

/-- The callback aborts at the second pad of a source, and at a pad of a kind
that the converter does not take. -/
theorem padAdded_error (h : Realizes out ports ctx) (hp : p ∈ ports) {e : Element} {n : Nat}
    {caps : Caps} (he : p.item.element = some e)
    (hno : p.item.ac = none ∨ p.feed ≠ none ∨ accepts caps = false) :
    padAdded accepts p.item n caps ctx = .error (.gError "Couldn't link source to mux".toList) := by
  have hlink : (ctx.pipeline.announce ⟨e, .sometimes n⟩ caps).gstElementLinkStatic accepts
      (some e) p.item.ac = none := by
    cases ha : p.item.ac with
    | none => rfl
    | some a =>
      have hs := h.peer_sink hp ha
      cases hf : p.feed with
      | some m => simp [gstElementLinkStatic, announce, hs, Port.sourcePad, he, hf]
      | none =>
        have hrej : accepts caps = false := by simpa [ha, hf] using hno
        have hfree : ∀ z c, (z, c) ∈ ctx.pipeline.announced → z.element ≠ e := by
          rintro z c hz rfl
          obtain ⟨q, hq, hm⟩ := (h.announced z).mp ⟨c, hz⟩
          have hpq := h.port_unique hp hq (by simp [SourceItem.elements, he]) (Port.sourcePad_elements hm)
          subst hpq
          simp [Port.sourcePad_eq_none hf] at hm
        have hnone : (ctx.pipeline.announce ⟨e, .sometimes n⟩ caps).announced.find? (fun b =>
            b.1.element = e &&
              ((ctx.pipeline.announce ⟨e, .sometimes n⟩ caps).wiring.peer b.1 = none) &&
              accepts b.2) = none := by
          rw [List.find?_eq_none]
          intro hh hz
          obtain ⟨z, c⟩ := hh
          rcases List.mem_cons.mp hz with hz | hz
          · simp [(Prod.mk.inj hz).2, hrej]
          · simp [hfree z c hz]
        simp only [gstElementLinkStatic, hnone, ite_self]
  simp [padAdded, onNewSourcePadLink, he, hlink, bind, Except.bind]

theorem Wires.perm {ports' : List Port} (h : ports.Perm ports') : Wires out ports x y ↔ Wires out ports' x y := by
  simp only [Wires, h.mem_iff]

theorem fed_wire {e a : Element} {n : Nat} (he : p.item.element = some e) (ha : p.item.ac = some a)
    (hf : p.feed = none) : (p.fed n).Wire mux x y ↔
      p.Wire mux x y ∨ (x = ⟨e, .sometimes n⟩ ∧ y = ⟨a, .sink⟩) := by
  have hn : (p.fed n).feed = some n := by simp [Port.fed, ha]
  constructor
  · intro hh
    rcases hh with ⟨ha, hm⟩ | ⟨he', ha', hm⟩
    · exact .inl (.toMux ha hm)
    · obtain rfl := Option.some.inj (he.symm.trans he')
      obtain rfl := Option.some.inj (ha.symm.trans ha')
      obtain rfl := Option.some.inj (hn.symm.trans hm)
      exact .inr ⟨rfl, rfl⟩
  · intro hh
    rcases hh with hw | ⟨rfl, rfl⟩
    · cases hw with
      | toMux ha hm => exact .toMux ha hm
      | fromSource _ _ hm => simp [hf] at hm
    · exact .fromSource he ha hn

theorem realizes_padAdded (h : Realizes out (newer ++ p :: older) ctx) {e a : Element} {n : Nat} {caps : Caps}
    (he : p.item.element = some e) (ha : p.item.ac = some a) (hf : p.feed = none)
    (hnew : NewPad ctx.pipeline ⟨e, .sometimes n⟩) :
    Realizes out (newer ++ p.fed n :: older)
      { ctx with
        pipeline := { ctx.pipeline.announce ⟨e, .sometimes n⟩ caps with
          wiring := ctx.pipeline.wiring.join ⟨e, .sometimes n⟩ ⟨a, .sink⟩ } } := by
  have hp : p ∈ newer ++ p :: older := by simp
  have hs := h.peer_sink hp ha
  rw [Port.sourcePad_eq_none hf] at hs
  refine ⟨h.mux, ?_, ?_, ?_, ?_, ?_, ?_, ?_⟩
  · simpa [Port.fed] using h.sources
  · simpa [Port.fed, announce] using h.children
  · simpa [Port.fed] using h.distinct
  · simpa [Port.fed, Port.muxPad, filterMap_cons_toList, announce] using h.requestPads
  · simpa [Port.fed, Port.muxPad, filterMap_cons_toList] using h.pads
  · intro x y
    have hj : (ctx.pipeline.wiring.join ⟨e, .sometimes n⟩ ⟨a, .sink⟩).peer x = some y ↔ _ :=
      Wiring.peer_join hnew.2.2 hs (by simp)
    rw [hj, h.wiring]
    simp only [Wires.perm List.perm_middle, Wires.cons_iff, fed_wire he ha hf]
    constructor
    · intro hh
      rcases hh with hxy | hxy | ((hw | hw) | hw | hw)
      · exact .inl (.inl (.inr hxy))
      · exact .inr (.inl (.inr hxy.symm))
      · exact .inl (.inl (.inl hw))
      · exact .inl (.inr hw)
      · exact .inr (.inl (.inl hw))
      · exact .inr (.inr hw)
    · intro hh
      rcases hh with ((hw | hxy) | hw) | ((hw | hxy) | hw)
      · exact .inr (.inr (.inl (.inl hw)))
      · exact .inl hxy
      · exact .inr (.inr (.inl (.inr hw)))
      · exact .inr (.inr (.inr (.inl hw)))
      · exact .inr (.inl hxy.symm)
      · exact .inr (.inr (.inr (.inr hw)))
  · intro x
    have hold := h.announced x
    have hfed : (p.fed n).sourcePad = some ⟨e, .sometimes n⟩ := by simp [Port.sourcePad, Port.fed, he, ha]
    have hnone := Port.sourcePad_eq_none hf
    simp only [List.perm_middle.mem_iff, List.mem_cons, exists_eq_or_imp, hnone, hfed] at hold ⊢
    simp only [announce, List.mem_cons, Prod.mk.injEq, exists_or, exists_and_left, exists_eq, and_true,
      hold, Option.mem_def, Option.some.injEq, reduceCtorEq, false_or, @eq_comm _ x ⟨e, .sometimes n⟩]

theorem map_fed (hd : ((newer ++ p :: older).map fun q => q.item.address).Nodup) (n : Nat) :
    ((newer ++ p :: older).map fun q => if q.item = p.item then q.fed n else q) =
      newer ++ p.fed n :: older := by
  rw [List.map_append, List.map_cons, List.nodup_middle, List.nodup_cons] at hd
  have hsame : ∀ l : List Port, (∀ q ∈ l, q ∈ newer ++ older) →
      l.map (fun q => if q.item = p.item then q.fed n else q) = l := by
    intro l hl
    refine (List.map_congr_left fun q hq => if_neg ?_).trans (List.map_id' l)
    intro he
    refine hd.1 ?_
    rw [← List.map_append, ← he]
    exact List.mem_map_of_mem (hl q hq)
  rw [List.map_append, List.map_cons, if_pos rfl, hsame newer fun q => List.mem_append_left _,
    hsame older fun q => List.mem_append_right _]

theorem realizes_step {e : PlaybackEvent} (h : Realizes out ports ctx)
    (hd : (ctx.sources.map SourceItem.address).Nodup)
    (hs : (gstreamerMachine accepts).Steps ctx e ctx') : Realizes out (portsStep ports e) ctx' := by
  obtain ⟨⟨hallow, hnew⟩, (hstep : playbackStep accepts ctx e = .ok ctx')⟩ := hs
  cases e with
  | play uri calls =>
    obtain ⟨_, rfl⟩ := (playbackStep_play_iff accepts).mp hstep
    exact realizes_play h hnew
  | stop param stateChange =>
    by_cases hex : ∃ p ∈ ports, hasId (stopId param) p.item = true
    · obtain ⟨p, hp, hid⟩ := hex
      obtain ⟨p, newer, older, hnewer, hid, rfl, herase⟩ :=
        List.exists_of_eraseP (p := fun p : Port => hasId (stopId param) p.item) hp hid
      have hsrc := h.sources
      rw [List.map_append, List.map_cons] at hsrc
      have hf : sourceItemFromId ctx.sources (stopId param) = some p.item := by
        rw [hsrc]
        refine sourceItemFromId_first ?_ (by simpa [hasId] using hid)
        intro x hx
        obtain ⟨q, hq, rfl⟩ := List.mem_map.mp hx
        simpa [hasId] using hnewer q hq
      rcases (playbackStep_stop_iff accepts).mp hstep with ⟨hn, _⟩ | ⟨item, hi, _, rfl⟩
      · simp [hf] at hn
      · obtain rfl := Option.some.inj (hf.symm.trans hi)
        have hrem : gSlistRemove ctx.sources p.item = (newer ++ older).map Port.item := by
          rw [hsrc] at hd ⊢
          rw [gSlistRemove_middle hd, List.map_append]
        rw [portsStep, herase, hrem]
        exact realizes_stop h _
    · have hno : ∀ q ∈ ports, ¬ hasId (stopId param) q.item = true := fun q hq hid => hex ⟨q, hq, hid⟩
      have hf : sourceItemFromId ctx.sources (stopId param) = none := by
        rw [sourceItemFromId_eq_none_iff, h.sources]
        intro x hx
        obtain ⟨q, hq, rfl⟩ := List.mem_map.mp hx
        simpa [hasId] using hno q hq
      rcases (playbackStep_stop_iff accepts).mp hstep with ⟨_, rfl⟩ | ⟨item, hi, _, _⟩
      · rwa [portsStep, List.eraseP_of_forall_not hno]
      · simp [hf] at hi
  | padAdded source pad caps =>
    obtain ⟨e, he, hpad⟩ := hnew
    obtain ⟨p, hp, rfl⟩ := h.exists_port hallow
    change padAdded accepts p.item pad caps ctx = .ok ctx' at hstep
    by_cases hok : p.item.ac = none ∨ p.feed ≠ none ∨ accepts caps = false
    · rw [padAdded_error h hp he hok] at hstep
      cases hstep
    · simp only [not_or, ne_eq, not_not, Bool.not_eq_false] at hok
      obtain ⟨hac, hf, hc⟩ := hok
      obtain ⟨a, ha⟩ := Option.ne_none_iff_exists'.mp hac
      rw [padAdded_ok h hp he ha hf hc hpad] at hstep
      obtain rfl := Except.ok.inj hstep
      obtain ⟨newer, older, rfl⟩ := List.append_of_mem hp
      rw [h.sources, List.map_map] at hd
      rw [portsStep, map_fed hd]
      exact realizes_padAdded h he ha hf hpad

/-- In every run the pipeline is wired as the requests and signals say. -/
theorem realizes_of_reaches (h : (gstreamerMachine accepts).Reaches out.new es ctx) :
    Realizes out (portsOf es) ctx := by
  refine h.history (P := fun es ctx => Realizes out (portsOf es) ctx) (realizes_new out) ?_
  intro pre s e t hr ih hs
  rw [portsOf_snoc]
  exact realizes_step ih (follows_of_reaches (reaches_playbackMachine hr)).distinct hs

theorem Realizes.peer_children (h : Realizes out ports ctx)
    (hxy : ctx.pipeline.wiring.peer x = some y) : x.element ∈ ctx.pipeline.children := by
  refine h.children.symm.subset ?_
  have hport : ∀ {p e}, p ∈ ports → (e ∈ p.item.elements ∨ e = out.mux) →
      e ∈ out.elements ++ ports.flatMap fun p => p.item.elements := by
    rintro p e hp (he | rfl)
    · exact List.mem_append_right _ (List.mem_flatMap.mpr ⟨p, hp, he⟩)
    · exact List.mem_append_left _ (by simp [Output.elements])
  rcases (h.wiring x y).mp hxy with (hw | ⟨p, hp, hw⟩) | hw | ⟨p, hp, hw⟩
  · exact List.mem_append_left _ hw.elements.1
  · exact hport hp (.inl hw.elements.1)
  · exact List.mem_append_left _ hw.elements.2
  · exact hport hp hw.elements.2

theorem Realizes.newElement (h : Realizes out ports ctx) {e : Element} (he : e ∉ ctx.pipeline.children) :
    NewElement ctx.pipeline e := by
  refine ⟨he, fun name => Option.eq_none_iff_forall_ne_some.mpr fun y hy => he ?_⟩
  exact h.peer_children hy

theorem Realizes.newRequestPad (h : Realizes out ports ctx) {n : Nat}
    (hn : ⟨ctx.mux, .request n⟩ ∉ ctx.pipeline.requestPads) :
    NewPad ctx.pipeline ⟨ctx.mux, .request n⟩ := by
  refine ⟨hn, ?_, Option.eq_none_iff_forall_ne_some.mpr fun y hy => ?_⟩
  · intro caps hc
    obtain ⟨p, _, hp⟩ := (h.announced _).mp ⟨caps, hc⟩
    obtain ⟨e, _, hp⟩ := Option.bind_eq_some_iff.mp hp
    obtain ⟨m, _, hp⟩ := Option.map_eq_some_iff.mp hp
    cases hp
  · refine hn (h.requestPads.symm.subset ?_)
    generalize hx : (⟨ctx.mux, .request n⟩ : Pad) = x at hy
    rcases (h.wiring x y).mp hy with (hw | ⟨p, hp, hw⟩) | hw | ⟨p, hp, hw⟩
    · cases hw <;> simp at hx
    · cases hw <;> simp at hx
    · cases hw <;> simp at hx
    · cases hw with
      | toMux ha hm => exact List.mem_filterMap.mpr ⟨p, hp, by simp [Port.muxPad, hm]⟩
      | fromSource _ _ _ => simp at hx

theorem Realizes.newSourcePad (h : Realizes out ports ctx) {e : Element} {n : Nat}
    (hn : ∀ caps, (⟨e, .sometimes n⟩, caps) ∉ ctx.pipeline.announced) :
    NewPad ctx.pipeline ⟨e, .sometimes n⟩ := by
  refine ⟨?_, hn, Option.eq_none_iff_forall_ne_some.mpr fun y hy => ?_⟩
  · intro hm
    obtain ⟨p, _, hp⟩ := List.mem_filterMap.mp (h.requestPads.subset hm)
    obtain ⟨m, _, hp⟩ := Option.map_eq_some_iff.mp hp
    cases hp
  · rcases (h.wiring _ y).mp hy with (hw | ⟨p, hp, hw⟩) | hw | ⟨p, hp, hw⟩
    · cases hw
    · cases hw with
      | fromSource he _ hf =>
        have hm : ⟨e, .sometimes n⟩ ∈ p.sourcePad := by simp [Port.sourcePad, he, hf]
        obtain ⟨caps, hc⟩ := (h.announced _).mpr ⟨p, hp, hm⟩
        exact hn caps hc
    · cases hw
    · cases hw

theorem reaches_new_play (h : (gstreamerMachine accepts).Reaches out.new es ctx) {uri : Text}
    {calls : PlayCalls} (hd : ∀ item ∈ ctx.sources, item.address ≠ calls.item)
    (he : ∀ e ∈ calls.element, e ∉ ctx.pipeline.children ∧ e ∉ calls.ac)
    (ha : ∀ a ∈ calls.ac, a ∉ ctx.pipeline.children)
    (hn : ∀ n ∈ calls.muxPad, ⟨ctx.mux, .request n⟩ ∉ ctx.pipeline.requestPads)
    (hs : startAnswer calls ≠ .failure) :
    (gstreamerMachine accepts).Reaches out.new (es ++ [.play uri calls])
      { ctx with
        pipeline := playedGraph uri calls ctx.pipeline ctx.mux
        sources := playedItem uri calls :: ctx.sources } := by
  have hr := realizes_of_reaches h
  refine reaches_snoc_iff.mpr ⟨ctx, h, ⟨hd, ?_⟩, (playbackStep_play_iff accepts).mpr ⟨hs, rfl⟩⟩
  exact ⟨fun e hm => ⟨hr.newElement (he e hm).1, (he e hm).2⟩, fun a hm => hr.newElement (ha a hm),
    fun n hm => hr.newRequestPad (hn n hm)⟩

theorem reaches_new_stop (h : (gstreamerMachine accepts).Reaches out.new es ctx) {param : Text}
    {stateChange : GstStateChangeReturn} {item : SourceItem}
    (hf : sourceItemFromId ctx.sources (stopId param) = some item)
    (hs : setStateReturn item.element stateChange ≠ .failure) :
    (gstreamerMachine accepts).Reaches out.new (es ++ [.stop param stateChange])
      { ctx with
        pipeline := removeSource item ctx.pipeline ctx.mux
        sources := gSlistRemove ctx.sources item
        freed := ctx.freed ++ [item] } :=
  reaches_snoc_iff.mpr ⟨ctx, h, ⟨trivial, trivial⟩,
    (playbackStep_stop_iff accepts).mpr (.inr ⟨item, hf, hs, rfl⟩)⟩

end GstPlayd
