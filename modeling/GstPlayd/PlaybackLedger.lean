import GstPlayd.ResourceLedger
import GstPlayd.SourceRemoval
import Mathlib.Algebra.Order.Group.Multiset
import Mathlib.Tactic.Abel

/-! The memory and the references of the playback context, from `op_playback_new`
through PLAY and STOP to `op_playback_free`. -/

namespace GstPlayd

open ElementGraph ElementGraph.Graph ResourceLedger StepMachine StepMachine.Machine

/-- A source item, its list node and what its fields point to go by the address
of the item. The elements in the bin belong to the pipeline. -/
inductive PlaybackObject
  | context
  | pipeline
  | bus
  | watch
  | node (address : UInt64)
  | item (address : UInt64)
  | uri (address : UInt64)
  | createdAt (address : UInt64)
  | element (e : Element)
  | pad (p : Pad)
  deriving DecidableEq

def SourceItem.node (item : SourceItem) : PlaybackObject := .node item.address

/-- What `source_item_to_id` reads. -/
def idObjects (item : SourceItem) : List PlaybackObject :=
  [.item item.address, .uri item.address, .createdAt item.address]

def itemObjects (item : SourceItem) : List PlaybackObject :=
  idObjects item ++ item.elements.map .element

def outputObjects (out : Output) : List PlaybackObject :=
  [.context, .element out.sink, .element out.mux, .pipeline, .element out.ac]

def newActions (out : Output) : List (Action PlaybackObject) :=
  acquireAll (outputObjects out) ++ useAll (outputObjects out) ++
    [.acquire .bus, .use .bus, .acquire .watch, .release .bus]

def playActions (item : SourceItem) (mux : Element) : List (Action PlaybackObject) :=
  acquireAll (itemObjects item) ++ useAll ([.context, .pipeline, .element mux] ++ itemObjects item) ++
    .acquire item.node :: useAll (idObjects item)

def lookupActions (id : UInt32) : List SourceItem → List (Action PlaybackObject)
  | [] => []
  | needle :: haystack =>
    if sourceItemToId needle == id then useAll (needle.node :: idObjects needle)
    else useAll (needle.node :: idObjects needle) ++ lookupActions id haystack

/-- The references that `gst_element_get_static_pad` and `gst_pad_get_peer`
return. -/
def takenPads (item : SourceItem) (g : Graph) : List Pad :=
  (gstElementGetStaticPad item.ac .src).toList ++ (g.gstPadGetPeer (gstElementGetStaticPad item.ac .src)).toList

def removeActions (item : SourceItem) (g : Graph) (mux : Element) : List (Action PlaybackObject) :=
  useAll ([.context, .pipeline, .element mux] ++ itemObjects item) ++
    acquireAll ((takenPads item g).map .pad) ++ useAll ((takenPads item g).map .pad) ++
    releaseAll ((sourceRemovals item g mux).map fun r => .element r.1) ++
    .use (.item item.address) :: releaseAll [.createdAt item.address, .uri item.address, .item item.address]

/-- `g_slist_remove` may walk the whole list. -/
def stepActions (ctx : PlaybackCtx) : PlaybackEvent → List (Action PlaybackObject)
  | .play uri calls => playActions (playedItem uri calls) ctx.mux
  | .stop param _ =>
    .use .context :: lookupActions (stopId param) ctx.sources ++
      match sourceItemFromId ctx.sources (stopId param) with
      | none => []
      | some item =>
        useAll (ctx.sources.map SourceItem.node) ++
          .release item.node :: removeActions item ctx.pipeline ctx.mux
  | .padAdded source _ _ => useAll (source.elements.map .element)

def runActions (accepts : Caps → Bool) : PlaybackCtx → List PlaybackEvent → List (Action PlaybackObject)
  | _, [] => []
  | ctx, e :: es =>
    stepActions ctx e ++
      match playbackStep accepts ctx e with
      | .ok ctx' => runActions accepts ctx' es
      | .error _ => []

/-- Up to the state change that is refused if one is. `g_slist_next` reads the
node after its item is gone. -/
def freeSourcesActions (answers : SourceItem → GstStateChangeReturn) (mux : Element) :
    List SourceItem → Graph → List (Action PlaybackObject)
  | [], _ => []
  | item :: iter, g =>
    if setStateReturn item.element (answers item) = .failure then []
    else .use item.node :: removeActions item g mux ++
      .use item.node :: freeSourcesActions answers mux iter (removeSource item g mux)

/-- The pipeline gives back the elements that are left in it. -/
def freeActions (answers : SourceItem → GstStateChangeReturn) (ctx : PlaybackCtx) :
    List (Action PlaybackObject) :=
  .use .context :: freeSourcesActions answers ctx.mux ctx.sources ctx.pipeline ++
    match opPlaybackFree answers ctx with
    | .error _ => []
    | .ok after =>
      .use .pipeline :: releaseAll (after.pipeline.children.map .element) ++
        [.release .pipeline, .use .context] ++ releaseAll (ctx.sources.map SourceItem.node) ++
        [.release .context]

def padsHeld (pads : List Pad) : Multiset PlaybackObject :=
  (pads.map PlaybackObject.pad : List PlaybackObject)

def itemHeld (item : SourceItem) : Multiset PlaybackObject := itemObjects item

def itemsHeld (sources : List SourceItem) : Multiset PlaybackObject := sources.flatMap itemObjects

/-- What a playback context with these sources owns. -/
def sourcesHeld (out : Output) (sources : List SourceItem) : Multiset PlaybackObject :=
  (outputObjects out : List PlaybackObject) + (sources.map SourceItem.node : List PlaybackObject) +
    itemsHeld sources

section

variable {accepts : Caps → Bool} {out : Output} {ports newer older : List Port} {p : Port}
  {ctx ctx' after : PlaybackCtx} {es : List PlaybackEvent} {e : PlaybackEvent} {item : SourceItem} {g : Graph}
  {mux : Element} {sources : List SourceItem} {P : Multiset PlaybackObject}
  {answers : SourceItem → GstStateChangeReturn}

theorem outputObjects_held {o : PlaybackObject} (ho : o ∈ outputObjects out) : o ∈ sourcesHeld out sources :=
  Multiset.mem_add.mpr (.inl (Multiset.mem_add.mpr (.inl ho)))

theorem node_held (hi : item ∈ sources) : item.node ∈ sourcesHeld out sources :=
  Multiset.mem_add.mpr (.inl (Multiset.mem_add.mpr (.inr (List.mem_map_of_mem hi))))

theorem itemObjects_held (hi : item ∈ sources) {o : PlaybackObject} (ho : o ∈ itemObjects item) :
    o ∈ sourcesHeld out sources :=
  Multiset.mem_add.mpr (.inr (List.mem_flatMap.mpr ⟨item, hi, ho⟩))

theorem mux_outputObjects {o : PlaybackObject} (ho : o ∈ [.context, .pipeline, .element out.mux]) :
    o ∈ outputObjects out := by
  simp only [List.mem_cons, List.not_mem_nil, or_false] at ho
  rcases ho with rfl | rfl | rfl <;> simp [outputObjects]

theorem new_held (out : Output) : Triple 0 (newActions out) (.watch ::ₘ sourcesHeld out []) := by
  have hacquire := triple_acquireAll 0 (outputObjects out)
  rw [Multiset.add_zero] at hacquire
  have huse : Triple (outputObjects out) (useAll (outputObjects out)) (outputObjects out) :=
    triple_useAll fun _ ho => ho
  have hbus : Triple (outputObjects out) [.acquire .bus, .use .bus, .acquire .watch, .release .bus]
      (.watch ::ₘ (outputObjects out : Multiset PlaybackObject)) := by simp
  rw [sourcesHeld, List.map_nil, itemsHeld, List.flatMap_nil, Multiset.coe_nil, Multiset.add_zero]
  exact (hacquire.append huse).append hbus

theorem play_held (hd : ∀ o ∈ [PlaybackObject.context, .pipeline, .element mux], o ∈ P) (item : SourceItem) :
    Triple P (playActions item mux) (item.node ::ₘ (itemHeld item + P)) := by
  have hacquire : Triple P (acquireAll (itemObjects item)) (itemHeld item + P) := triple_acquireAll P _
  have huse : Triple (itemHeld item + P)
      (useAll ([.context, .pipeline, .element mux] ++ itemObjects item))
      (itemHeld item + P) := by
    apply triple_useAll
    intro o ho
    rcases List.mem_append.mp ho with ho | ho
    · exact Multiset.mem_add.mpr (.inr (hd o ho))
    · exact Multiset.mem_add.mpr (.inl ho)
  have hid : Triple (item.node ::ₘ (itemHeld item + P)) (useAll (idObjects item))
      (item.node ::ₘ (itemHeld item + P)) := by
    apply triple_useAll
    intro o ho
    exact Multiset.mem_cons_of_mem (Multiset.mem_add.mpr (.inl (List.mem_append_left _ ho)))
  exact (hacquire.append huse).append ((triple_acquire _ _).append hid)

theorem lookup_held (id : UInt32) (h : ∀ item ∈ sources, ∀ o ∈ item.node :: idObjects item, o ∈ P) :
    Triple P (lookupActions id sources) P := by
  induction sources with
  | nil => exact triple_nil P
  | cons needle haystack ih =>
    have hneedle := triple_useAll (h needle List.mem_cons_self)
    rw [lookupActions]
    split_ifs
    · exact hneedle
    · exact hneedle.append (ih fun item hi => h item (List.mem_cons_of_mem _ hi))

theorem remove_held (hd : ∀ o ∈ [PlaybackObject.context, .pipeline, .element mux], o ∈ P)
    (hremovals : (sourceRemovals item g mux).map Prod.fst = item.elements) :
    Triple (P + itemHeld item) (removeActions item g mux)
      (P + padsHeld (takenPads item g)) := by
  have hread : Triple (P + itemHeld item)
      (useAll ([.context, .pipeline, .element mux] ++ itemObjects item))
      (P + itemHeld item) := by
    apply triple_useAll
    intro o ho
    rcases List.mem_append.mp ho with ho | ho
    · exact Multiset.mem_add.mpr (.inl (hd o ho))
    · exact Multiset.mem_add.mpr (.inr ho)
  have hpads : Triple (P + itemHeld item) (acquireAll ((takenPads item g).map .pad))
      (padsHeld (takenPads item g) + (P + itemHeld item)) := triple_acquireAll _ _
  have huse : Triple (padsHeld (takenPads item g) + (P + itemHeld item)) (useAll ((takenPads item g).map .pad))
      (padsHeld (takenPads item g) + (P + itemHeld item)) :=
    triple_useAll fun o ho => Multiset.mem_add.mpr (.inl ho)
  have helements : (sourceRemovals item g mux).map (fun r => PlaybackObject.element r.1) =
      item.elements.map .element := by
    rw [← hremovals, List.map_map]
    rfl
  have hsplit : padsHeld (takenPads item g) + (P + itemHeld item) =
      ((item.elements.map PlaybackObject.element : List PlaybackObject) : Multiset PlaybackObject) +
        ((idObjects item : Multiset PlaybackObject) + (P + padsHeld (takenPads item g))) := by
    rw [itemHeld, itemObjects, ← Multiset.coe_add]
    abel
  have hid : (idObjects item : Multiset PlaybackObject) =
      ([.createdAt item.address, .uri item.address, .item item.address] : List PlaybackObject) :=
    Multiset.coe_eq_coe.mpr (List.reverse_perm _).symm
  have hitem : PlaybackObject.item item.address ∈
      (idObjects item : Multiset PlaybackObject) + (P + padsHeld (takenPads item g)) :=
    Multiset.mem_add.mpr (.inl List.mem_cons_self)
  have hbody := (hread.append hpads).append huse
  rw [hsplit] at hbody
  have hfree := (triple_use hitem).append (by rw [hid]; exact triple_releaseAll _ _)
  rw [removeActions, helements]
  exact (hbody.append (triple_releaseAll _ _)).append hfree

theorem binRemovals_elements {o : Option Element} (h : ∀ e ∈ o, e ∈ g.children) :
    (binRemovals g o).map Prod.fst = o.toList := by
  cases o with
  | none => rfl
  | some e => simp [binRemovals, h e rfl]

theorem removals_elements (h : Realizes out (newer ++ p :: older) ctx) :
    (sourceRemovals p.item ctx.pipeline ctx.mux).map Prod.fst = p.item.elements := by
  have hperm := h.children.trans (elements_split out newer older p)
  have hc : ∀ e ∈ p.item.elements, e ∈ ctx.pipeline.children := fun e he =>
    hperm.symm.subset (List.mem_append_left _ he)
  have hdetach : (detachSource p.item ctx.pipeline ctx.mux).children = ctx.pipeline.children := by
    simp [detachSource]
  obtain ⟨he, ha⟩ := removable hc h.apart.1
  rw [← hdetach] at he ha
  rw [sourceRemovals, List.map_append, binRemovals_elements he, binRemovals_elements]
  · rfl
  · rwa [gstBinRemove_children]

/-- The pads that the removal of a port takes references of. -/
def Port.padRefs (mux : Element) (p : Port) : List Pad :=
  p.item.ac.toList.map (fun a => ⟨a, .src⟩) ++ (p.muxPad mux).toList

theorem takenPads_eq (h : Realizes out ports ctx) (hp : p ∈ ports) :
    takenPads p.item ctx.pipeline = p.padRefs out.mux := by
  rw [takenPads, Port.padRefs, ← h.peer_ac hp]
  cases p.item.ac <;> rfl

theorem port_remove_held (h : Realizes out (newer ++ p :: older) ctx)
    (hd : ∀ o ∈ outputObjects out, o ∈ P) :
    Triple (P + itemHeld p.item) (removeActions p.item ctx.pipeline ctx.mux)
      (P + padsHeld (p.padRefs out.mux)) := by
  rw [← takenPads_eq h (by simp)]
  apply remove_held _ (removals_elements h)
  intro o ho
  rw [h.mux] at ho
  exact hd o (mux_outputObjects ho)

theorem itemsHeld_cons (item : SourceItem) (sources : List SourceItem) :
    itemsHeld (item :: sources) = itemHeld item + itemsHeld sources := by
  rw [itemsHeld, List.flatMap_cons, ← Multiset.coe_add]
  rfl

theorem sourcesHeld_cons (out : Output) (item : SourceItem) (sources : List SourceItem) :
    sourcesHeld out (item :: sources) = item.node ::ₘ (itemHeld item + sourcesHeld out sources) := by
  rw [sourcesHeld, sourcesHeld, itemsHeld_cons, List.map_cons, ← Multiset.cons_coe, ← Multiset.singleton_add,
    ← Multiset.singleton_add]
  abel

theorem sourcesHeld_middle (out : Output) (newer older : List SourceItem) (item : SourceItem) :
    sourcesHeld out (newer ++ item :: older) = sourcesHeld out (item :: (newer ++ older)) := by
  have hperm : (newer ++ item :: older).Perm (item :: (newer ++ older)) := List.perm_middle
  rw [sourcesHeld, sourcesHeld, itemsHeld, itemsHeld, Multiset.coe_eq_coe.mpr (hperm.map _),
    Multiset.coe_eq_coe.mpr (hperm.flatMap_right _)]

theorem stop_port (h : Realizes out ports ctx) {id : UInt32}
    (hf : sourceItemFromId ctx.sources id = some item) :
    ∃ newer p older, ports = newer ++ p :: older ∧ p.item = item ∧
      ports.eraseP (fun p => hasId id p.item) = newer ++ older := by
  obtain ⟨hid, newer, older, hsources, hnew⟩ := List.find?_eq_some_iff_append.mp hf
  rw [h.sources] at hsources
  obtain ⟨ports₁, ports₂, rfl, h₁, h₂⟩ := List.map_eq_append_iff.mp hsources
  obtain ⟨p, older', rfl, rfl, -⟩ := List.map_eq_cons_iff.mp h₂
  refine ⟨ports₁, p, older', rfl, rfl, ?_⟩
  have hno : ∀ q ∈ ports₁, ¬ hasId id q.item = true := by
    intro q hq
    have hh := hnew q.item (h₁ ▸ List.mem_map_of_mem hq)
    simpa [hasId] using hh
  have hp : hasId id p.item = true := hid
  rw [List.eraseP_append_right _ hno, List.eraseP_cons, hp, cond_true]

def playPads (mux : Element) : PlaybackEvent → List Pad
  | .play uri calls => (Port.played uri calls).padRefs mux
  | .stop _ _ => []
  | .padAdded _ _ _ => []

theorem stop_step_held (h : Realizes out ports ctx) (hd : (ctx.sources.map SourceItem.address).Nodup)
    {param : Text} {stateChange : GstStateChangeReturn}
    (hs : playbackStep accepts ctx (.stop param stateChange) = .ok ctx') :
    ∃ left : List Pad,
      Triple (sourcesHeld out ctx.sources) (stepActions ctx (.stop param stateChange))
        (sourcesHeld out ctx'.sources + padsHeld left) ∧
      (left ++ (portsStep ports (.stop param stateChange)).flatMap (Port.padRefs out.mux)).Perm
        (ports.flatMap (Port.padRefs out.mux)) := by
  have hcontext : PlaybackObject.context ∈ sourcesHeld out ctx.sources :=
    outputObjects_held (by simp [outputObjects])
  have hread : ∀ item ∈ ctx.sources, ∀ o ∈ item.node :: idObjects item, o ∈ sourcesHeld out ctx.sources := by
    intro item hi o ho
    rcases List.mem_cons.mp ho with rfl | ho
    · exact node_held hi
    · exact itemObjects_held hi (List.mem_append_left _ ho)
  have hlookup := (triple_use hcontext).append (lookup_held (stopId param) hread)
  rcases (playbackStep_stop_iff accepts).mp hs with ⟨hn, rfl⟩ | ⟨item, hf, -, rfl⟩
  · refine ⟨[], ?_, ?_⟩
    · rw [stepActions, hn, List.append_nil]
      show Triple _ _ (sourcesHeld out ctx.sources + 0)
      rw [Multiset.add_zero]
      exact hlookup
    · have hno : ∀ q ∈ ports, ¬ hasId (stopId param) q.item = true := by
        intro q hq
        have hne := sourceItemFromId_eq_none_iff.mp hn q.item (h.sources ▸ List.mem_map_of_mem hq)
        simpa [hasId] using hne
      rw [portsStep, List.eraseP_of_forall_not hno]
      exact .refl _
  · obtain ⟨newer, p, older, rfl, rfl, herase⟩ := stop_port h hf
    have hsrc := h.sources
    rw [List.map_append, List.map_cons] at hsrc
    refine ⟨p.padRefs out.mux, ?_, ?_⟩
    · have hnodes : ∀ o ∈ ctx.sources.map SourceItem.node, o ∈ sourcesHeld out ctx.sources := by
        intro o ho
        obtain ⟨item, hi, rfl⟩ := List.mem_map.mp ho
        exact node_held hi
      have hwalk := triple_useAll hnodes
      have hremove := port_remove_held (P := sourcesHeld out (newer.map Port.item ++ older.map Port.item)) h
        fun o ho => outputObjects_held ho
      have hgone : gSlistRemove ctx.sources p.item = newer.map Port.item ++ older.map Port.item := by
        rw [hsrc] at hd ⊢
        exact gSlistRemove_middle hd
      have hheld : sourcesHeld out ctx.sources = p.item.node ::ₘ
          (sourcesHeld out (newer.map Port.item ++ older.map Port.item) + itemHeld p.item) := by
        rw [hsrc, sourcesHeld_middle, sourcesHeld_cons, Multiset.add_comm (itemHeld p.item)]
      have hbody := hwalk.append (hheld ▸ (triple_release _ _).append hremove)
      rw [stepActions, hf, hgone]
      exact hlookup.append hbody
    · rw [portsStep, herase]
      exact (List.perm_middle.flatMap_right _).symm

/-- Each step is safe with what the live sources hold, and leaves that of the
sources that live after it and the pad references of a removed one. -/
theorem step_held (h : Realizes out ports ctx) (hd : (ctx.sources.map SourceItem.address).Nodup)
    (hs : (gstreamerMachine accepts).Steps ctx e ctx') :
    ∃ left : List Pad,
      Triple (sourcesHeld out ctx.sources) (stepActions ctx e) (sourcesHeld out ctx'.sources + padsHeld left) ∧
      (left ++ (portsStep ports e).flatMap (Port.padRefs out.mux)).Perm
        (ports.flatMap (Port.padRefs out.mux) ++ playPads out.mux e) := by
  obtain ⟨⟨hallow, hnew⟩, (hstep : playbackStep accepts ctx e = .ok ctx')⟩ := hs
  cases e with
  | play uri calls =>
    obtain ⟨_, rfl⟩ := (playbackStep_play_iff accepts).mp hstep
    have hperm : ((Port.played uri calls).padRefs out.mux ++ ports.flatMap (Port.padRefs out.mux)).Perm
        (ports.flatMap (Port.padRefs out.mux) ++ (Port.played uri calls).padRefs out.mux) :=
      List.perm_append_comm
    refine ⟨[], ?_, hperm⟩
    have hmux : ∀ o ∈ [.context, .pipeline, .element ctx.mux], o ∈ sourcesHeld out ctx.sources := by
      intro o ho
      rw [h.mux] at ho
      exact outputObjects_held (mux_outputObjects ho)
    have hplay := play_held hmux (playedItem uri calls)
    show Triple _ _ (sourcesHeld out (playedItem uri calls :: ctx.sources) + 0)
    rw [Multiset.add_zero, sourcesHeld_cons]
    exact hplay
  | stop param stateChange =>
    rw [playPads, List.append_nil]
    exact stop_step_held h hd hstep
  | padAdded source pad caps =>
    obtain ⟨pipeline, rfl⟩ := playbackStep_padAdded hstep
    refine ⟨[], ?_, ?_⟩
    · show Triple _ _ (sourcesHeld out ctx.sources + 0)
      rw [Multiset.add_zero]
      apply triple_useAll
      intro o ho
      exact itemObjects_held hallow (List.mem_append_right _ ho)
    · have hrefs : ∀ p : Port,
          (if p.item = source then p.fed pad else p).padRefs out.mux = p.padRefs out.mux := by
        intro p
        split_ifs <;> rfl
      rw [playPads, List.append_nil, List.nil_append, portsStep, List.flatMap_map]
      simp only [hrefs]
      exact .refl _

theorem padsHeld_append (pads more : List Pad) : padsHeld (pads ++ more) = padsHeld pads + padsHeld more := by
  rw [padsHeld, List.map_append, ← Multiset.coe_add]
  rfl

theorem runActions_eq (ctx : PlaybackCtx) (es : List PlaybackEvent) (n : ℕ) :
    runActions accepts ctx es = collect (gstreamerMachine accepts) (fun _ => stepActions) n ctx es := by
  induction es generalizing ctx n with
  | nil => rfl
  | cons e es ih =>
    have hstep : (gstreamerMachine accepts).step ctx e = playbackStep accepts ctx e := rfl
    rw [runActions, collect, hstep]
    cases playbackStep accepts ctx e with
    | error k => rfl
    | ok ctx' => exact congrArg _ (ih ctx' (n + 1))

/-- A run holds what its live sources own, and the pad references of the
sources that are gone. -/
theorem run_held (h : (gstreamerMachine accepts).Reaches out.new es ctx) :
    ∃ left : List Pad,
      Triple 0 (newActions out ++ runActions accepts out.new es)
        (.watch ::ₘ (sourcesHeld out ctx.sources + padsHeld left)) ∧
      (left ++ (portsOf es).flatMap (Port.padRefs out.mux)).Perm (es.flatMap (playPads out.mux)) := by
  have hrun := reaches_triple (f := fun _ => stepActions)
    (I := fun es ctx held => ∃ left : List Pad, held = sourcesHeld out ctx.sources + padsHeld left ∧
      (left ++ (portsOf es).flatMap (Port.padRefs out.mux)).Perm (es.flatMap (playPads out.mux)))
    h ⟨[], rfl, .nil⟩ ?_
  · obtain ⟨held, hrun, left, rfl, hleft⟩ := hrun
    refine ⟨left, ?_, hleft⟩
    have hnew := new_held out
    rw [← Multiset.add_zero (sourcesHeld out [])] at hnew
    rw [runActions_eq _ _ 0]
    exact hnew.append (hrun.frame_left {.watch})
  · intro pre s e t held hr hI hs
    obtain ⟨left, rfl, hleft⟩ := hI
    obtain ⟨more, hstep, hmore⟩ := step_held (realizes_of_reaches hr)
      (follows_of_reaches (reaches_playbackMachine hr)).distinct hs
    refine ⟨_, hstep.frame (padsHeld left), left ++ more, ?_, ?_⟩
    · rw [padsHeld_append, Multiset.add_comm (padsHeld left), Multiset.add_assoc]
    · rw [portsOf_snoc, List.flatMap_append, List.flatMap_singleton, List.append_assoc]
      refine (hmore.append_left left).trans ?_
      rw [← List.append_assoc]
      exact hleft.append_right _

/-- The list nodes stay until every item is gone. -/
theorem freeSources_held (h : Realizes out ports ctx)
    (hok : ∀ item ∈ ctx.sources, setStateReturn item.element (answers item) ≠ .failure)
    (hd : ∀ o ∈ outputObjects out, o ∈ P) (hnodes : ∀ item ∈ ctx.sources, item.node ∈ P) :
    Triple (P + itemsHeld ctx.sources)
      (freeSourcesActions answers ctx.mux ctx.sources ctx.pipeline)
      (P + padsHeld (ports.flatMap (Port.padRefs out.mux))) := by
  induction ports generalizing ctx P with
  | nil =>
    have hs : ctx.sources = [] := h.sources
    rw [hs]
    exact triple_nil _
  | cons p ports ih =>
    have hs : ctx.sources = p.item :: ports.map Port.item := h.sources
    have hh : Realizes out ([] ++ p :: ports) ctx := h
    have hlive : p.item ∈ ctx.sources := hs ▸ List.mem_cons_self
    have hnode : p.item.node ∈ P := hnodes p.item hlive
    have hrest : ∀ item ∈ ports.map Port.item, item ∈ ctx.sources := fun item hi =>
      hs ▸ List.mem_cons_of_mem _ hi
    have hremove := port_remove_held (P := P + itemsHeld (ports.map Port.item)) hh
      fun o ho => Multiset.mem_add.mpr (.inl (hd o ho))
    have hnext := ih (P := P + padsHeld (p.padRefs out.mux)) (realizes_stop hh ctx.freed)
      (fun item hi => hok item (hrest item hi)) (fun o ho => Multiset.mem_add.mpr (.inl (hd o ho)))
      (fun item hi => Multiset.mem_add.mpr (.inl (hnodes item (hrest item hi))))
    have hbefore : P + itemsHeld ctx.sources = P + itemsHeld (ports.map Port.item) + itemHeld p.item := by
      rw [hs, itemsHeld_cons]
      abel
    have hbetween : P + itemsHeld (ports.map Port.item) + padsHeld (p.padRefs out.mux) =
        P + padsHeld (p.padRefs out.mux) + itemsHeld (ports.map Port.item) := by abel
    rw [hbetween] at hremove
    have huse := triple_use (P := P + itemsHeld (ports.map Port.item) + itemHeld p.item) (o := p.item.node)
      (Multiset.mem_add.mpr (.inl (Multiset.mem_add.mpr (.inl hnode))))
    have hreuse := triple_use (P := P + padsHeld (p.padRefs out.mux) + itemsHeld (ports.map Port.item))
      (o := p.item.node) (Multiset.mem_add.mpr (.inl (Multiset.mem_add.mpr (.inl hnode))))
    rw [hbefore, hs, freeSourcesActions, if_neg (hok p.item hlive), List.flatMap_cons, padsHeld_append,
      ← Multiset.add_assoc]
    exact (huse.append hremove).append (hreuse.append hnext)

theorem free_children (h : Realizes out ports ctx) (hfree : opPlaybackFree answers ctx = .ok after) :
    (∀ item ∈ ctx.sources, setStateReturn item.element (answers item) ≠ .failure) ∧
      after.pipeline.children.Perm out.elements := by
  cases hf : freeSources answers ctx.sources ctx with
  | error k => simp [opPlaybackFree, hf, bind, Except.bind] at hfree
  | ok ctx' =>
    obtain ⟨hok, rfl⟩ := freeSources_iff.mp hf
    simp only [opPlaybackFree, hf, bind, Except.bind, pure, Except.pure, Except.ok.injEq] at hfree
    subst hfree
    have hbare := realizes_removeAll h (ctx.freed ++ ctx.sources)
    exact ⟨hok, by simpa using hbare.children⟩

theorem free_ok (hok : ∀ item ∈ ctx.sources, setStateReturn item.element (answers item) ≠ .failure) :
    ∃ after, opPlaybackFree answers ctx = .ok after := by
  have hf : freeSources answers ctx.sources ctx = .ok _ := freeSources_iff.mpr ⟨hok, rfl⟩
  exact ⟨_, by rw [opPlaybackFree, hf]; rfl⟩

theorem outputObjects_eq {children : List Element} (h : children.Perm out.elements) :
    (outputObjects out : Multiset PlaybackObject) =
      (children.map PlaybackObject.element : List PlaybackObject) +
        (.pipeline ::ₘ {PlaybackObject.context}) := by
  rw [Multiset.coe_eq_coe.mpr (h.map PlaybackObject.element)]
  show ({.context, .element out.sink, .element out.mux, .pipeline, .element out.ac} : Multiset PlaybackObject) =
    {.element out.mux, .element out.ac, .element out.sink} + (.pipeline ::ₘ {.context})
  simp only [Multiset.insert_eq_cons, ← Multiset.singleton_add]
  abel

theorem free_held (h : Realizes out ports ctx) (hfree : opPlaybackFree answers ctx = .ok after) :
    Triple (sourcesHeld out ctx.sources) (freeActions answers ctx)
      (padsHeld (ports.flatMap (Port.padRefs out.mux))) := by
  obtain ⟨hok, hchildren⟩ := free_children h hfree
  generalize hL : padsHeld (ports.flatMap (Port.padRefs out.mux)) = L
  generalize hN : ((ctx.sources.map SourceItem.node : List PlaybackObject) : Multiset PlaybackObject) = N
  have houtput := outputObjects_eq hchildren
  have hsources := freeSources_held (P := (outputObjects out : Multiset PlaybackObject) + N) h hok
    (fun o ho => Multiset.mem_add.mpr (.inl ho))
    (fun item hi => Multiset.mem_add.mpr (.inr (hN ▸ List.mem_map_of_mem hi)))
  have hcontext : PlaybackObject.context ∈ sourcesHeld out ctx.sources :=
    outputObjects_held (by simp [outputObjects])
  have hpipeline : PlaybackObject.pipeline ∈ (outputObjects out : Multiset PlaybackObject) + N + L :=
    Multiset.mem_add.mpr (.inl (Multiset.mem_add.mpr (.inl (by simp [outputObjects]))))
  have hsplit : (outputObjects out : Multiset PlaybackObject) + N + L =
      (after.pipeline.children.map PlaybackObject.element : List PlaybackObject) +
        (.pipeline ::ₘ (N + (.context ::ₘ L))) := by
    rw [houtput]
    simp only [← Multiset.singleton_add]
    abel
  have hchildren := triple_releaseAll (.pipeline ::ₘ (N + (.context ::ₘ L)))
    (after.pipeline.children.map PlaybackObject.element)
  rw [← hsplit] at hchildren
  have hrelease := triple_release (N + (.context ::ₘ L)) PlaybackObject.pipeline
  have huse : Triple (N + (.context ::ₘ L)) [.use .context] (N + (.context ::ₘ L)) :=
    triple_use (Multiset.mem_add.mpr (.inr (Multiset.mem_cons_self _ _)))
  have hnodes := triple_releaseAll (.context ::ₘ L) (ctx.sources.map SourceItem.node)
  rw [hN] at hnodes
  rw [hL] at hsources
  have hsrc : sourcesHeld out ctx.sources =
      (outputObjects out : Multiset PlaybackObject) + N + itemsHeld ctx.sources := by rw [sourcesHeld, hN]
  rw [hsrc] at hcontext ⊢
  rw [freeActions, hfree]
  have hend := ((((triple_use hpipeline).append hchildren).append (hrelease.append huse)).append hnodes).append
    (triple_release L PlaybackObject.context)
  exact ((triple_use hcontext).append hsources).append hend

/-- From `op_playback_new` to `op_playback_free`, in any order of requests and
pads, nothing is used after it is given back and everything is given back once,
but the watch on the bus and the two pads that each PLAY will have looked up when
its source goes. -/
theorem playback_gives_back (h : (gstreamerMachine accepts).Reaches out.new es ctx)
    (hfree : opPlaybackFree answers ctx = .ok after) :
    Triple 0 (newActions out ++ runActions accepts out.new es ++ freeActions answers ctx)
      (.watch ::ₘ padsHeld (es.flatMap (playPads out.mux))) := by
  obtain ⟨left, hrun, hleft⟩ := run_held h
  have hend := ((free_held (realizes_of_reaches h) hfree).frame (padsHeld left)).frame_left {.watch}
  have hpads : padsHeld (es.flatMap (playPads out.mux)) =
      padsHeld ((portsOf es).flatMap (Port.padRefs out.mux)) + padsHeld left := by
    rw [Multiset.add_comm, ← padsHeld_append]
    exact Multiset.coe_eq_coe.mpr (hleft.symm.map PlaybackObject.pad)
  rw [hpads]
  exact hrun.append hend

theorem playback_gives_back_two_plays :
    ∃ ctx after, (gstreamerMachine fun _ => true).Reaches exampleOutput.new [playA, playC, stopA] ctx ∧
      ctx.sources = [itemC] ∧ opPlaybackFree (fun _ => .success) ctx = .ok after ∧
      Triple 0 (newActions exampleOutput ++
          runActions (fun _ => true) exampleOutput.new [playA, playC, stopA] ++
          freeActions (fun _ => .success) ctx)
        (.watch ::ₘ padsHeld [⟨11, .src⟩, ⟨2, .request 0⟩, ⟨13, .src⟩, ⟨2, .request 1⟩]) := by
  obtain ⟨ctx, hr, hs⟩ := @reaches_new_playA_playC_stopA fun _ => true
  have hok : ∀ item ∈ ctx.sources, setStateReturn item.element .success ≠ .failure := by
    rw [hs]
    decide
  obtain ⟨after, hfree⟩ := free_ok hok
  exact ⟨ctx, after, hr, hs, hfree, playback_gives_back hr hfree⟩

end

end GstPlayd
