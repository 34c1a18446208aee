import GstPlayd.TagMerge

/-! What a TAGS request acquires and gives back. `op_tags_parse` is followed
with a record of these actions; the reply is given back to the caller. -/

namespace GstPlayd

open ElementGraph

/-- The elements in the bin belong to the pipeline. Messages and tag lists
are numbered in the order in which they are popped. -/
inductive TagsObject
  | pipeline
  | tagTable
  | sinkPad
  | message (n : ℕ)
  | tagList (n : ℕ)
  | error
  | tableData
  | ret
  deriving DecidableEq

inductive TagsAction
  | acquire (o : TagsObject)
  | release (o : TagsObject)
  | setState (state : GstState)
  deriving DecidableEq

def recorded {α : Type} (acts : List TagsAction) (r : List TagsAction × α) : List TagsAction × α :=
  (acts ++ r.1, r.2)

def tagsLoopRecorded (fmt : Formats) : ℕ → Bool → List TagsEvent → TagTable →
    List TagsAction × Result (Option Text × TagTable)
  | _, _, [], _ => ([], .error .blocked)
  | n, sinkLinked, .padAdded linked :: es, table =>
    if sinkLinked || linked then
      recorded [.acquire .sinkPad, .release .sinkPad] (tagsLoopRecorded fmt n true es table)
    else ([.acquire .sinkPad], .error (.gError "Failed to link pads!".toList))
  | n, _, .popped (.error text) :: _, table =>
    ([.acquire (.message n), .acquire .error, .acquire .ret], .ok (some ("FAIL ".toList ++ text), table))
  | n, _, .popped .asyncDone :: _, table => ([.acquire (.message n)], .ok (none, table))
  | n, sinkLinked, .popped (.tag tags) :: es, table =>
    recorded [.acquire (.message n), .acquire (.tagList n), .release (.tagList n), .release (.message n)]
      (tagsLoopRecorded fmt (n + 1) sinkLinked es (gsuTagsToHashTable fmt tags table))

/-- From the loop to the reply. -/
def tagsReplyRecorded (calls : HandlerCalls) (ctx : PlaybackCtx) (ret : Option Text) (table : TagTable) :
    List TagsAction × Result (Text × PlaybackCtx) :=
  let answer : List TagsAction := [.acquire .tableData, .acquire .ret, .release .tableData]
  match ret with
  | some ret =>
    if table.entries.length > 0 then
      (.release .ret :: answer, .ok (tagsReply (calls.order.visit table), ctx))
    else ([], .ok (ret, ctx))
  | none => (answer, .ok (tagsReply (calls.order.visit table), ctx))

def opTagsParseRecorded (_param : Text) (calls : HandlerCalls) (ctx : PlaybackCtx) :
    List TagsAction × Result (Text × PlaybackCtx) :=
  recorded [.acquire .pipeline, .setState .paused, .acquire .tagTable]
    (match tagsLoopRecorded calls.formats 0 false calls.tags ∅ with
    | (acts, .error k) => (acts, .error k)
    | (acts, .ok (ret, table)) =>
      let (answer, reply) := tagsReplyRecorded calls ctx ret table
      (acts ++ answer ++ [.release .tagTable, .release .ret], reply))

theorem tagsLoopRecorded_snd (fmt : Formats) (n : ℕ) (sinkLinked : Bool) (es : List TagsEvent)
    (table : TagTable) : (tagsLoopRecorded fmt n sinkLinked es table).2 = tagsLoop fmt sinkLinked es table := by
  induction es generalizing n sinkLinked table with
  | nil => rfl
  | cons e es ih =>
    cases e with
    | padAdded linked =>
      by_cases hl : (sinkLinked || linked) = true
      · rw [tagsLoopRecorded, tagsLoop, if_pos hl, if_pos hl, ← ih n]
        rfl
      · rw [tagsLoopRecorded, tagsLoop, if_neg hl, if_neg hl]
    | popped msg =>
      cases msg with
      | asyncDone => rfl
      | error text => rfl
      | tag tags =>
        rw [tagsLoopRecorded, tagsLoop, ← ih (n + 1)]
        rfl

theorem tagsReplyRecorded_snd (calls : HandlerCalls) (ctx : PlaybackCtx) (ret : Option Text)
    (table : TagTable) : (tagsReplyRecorded calls ctx ret table).2 =
      .ok (if ret = none ∨ table.entries.length > 0 then tagsReply (calls.order.visit table)
        else ret.getD [], ctx) := by
  cases ret with
  | none => rfl
  | some text =>
    by_cases ht : table.entries.length > 0
    · simp [tagsReplyRecorded, ht]
    · simp [tagsReplyRecorded, ht]

/-- The record changes nothing. -/
theorem opTagsParseRecorded_snd (param : Text) (calls : HandlerCalls) (ctx : PlaybackCtx) :
    (opTagsParseRecorded param calls ctx).2 = opTagsParse param calls ctx := by
  have hloop := tagsLoopRecorded_snd calls.formats 0 false calls.tags ∅
  cases hr : tagsLoopRecorded calls.formats 0 false calls.tags ∅ with
  | mk acts r =>
    rw [hr] at hloop
    cases r with
    | error k =>
      rw [opTagsParseRecorded, hr, opTagsParse_of_error hloop.symm]
      rfl
    | ok r =>
      obtain ⟨ret, table⟩ := r
      rw [opTagsParseRecorded, hr, opTagsParse_of_ok hloop.symm, ← tagsReplyRecorded_snd]
      rfl

def TagsAction.delta (o : TagsObject) : TagsAction → ℤ
  | .acquire o' => if o = o' then 1 else 0
  | .release o' => if o = o' then -1 else 0
  | .setState _ => 0

/-- How often an object has been acquired and not given back. -/
def outstanding (acts : List TagsAction) (o : TagsObject) : ℤ :=
  acts.foldr (fun act n => act.delta o + n) 0

/-- Each object is given back as often as it was acquired, the pipeline in
the NULL state. -/
structure GivesBack (acts : List TagsAction) : Prop where
  balanced : ∀ o, outstanding acts o = 0
  pipeline : ∃ before after, acts = before ++ .setState .null :: after ∧ .release .pipeline ∈ after

theorem outstanding_nil (o : TagsObject) : outstanding [] o = 0 := rfl

theorem outstanding_cons (act : TagsAction) (acts : List TagsAction) (o : TagsObject) :
    outstanding (act :: acts) o = act.delta o + outstanding acts o := rfl

theorem outstanding_append (acts acts' : List TagsAction) (o : TagsObject) :
    outstanding (acts ++ acts') o = outstanding acts o + outstanding acts' o := by
  induction acts with
  | nil => exact (Int.zero_add _).symm
  | cons act acts ih => rw [List.cons_append, outstanding_cons, outstanding_cons, ih, Int.add_assoc]

theorem delta_acquire_release (a o : TagsObject) :
    (TagsAction.acquire a).delta o + (TagsAction.release a).delta o = 0 := by
  by_cases h : o = a
  · simp [TagsAction.delta, h]
  · simp [TagsAction.delta, h]

theorem outstanding_pair (a o : TagsObject) : outstanding [.acquire a, .release a] o = 0 := by
  have ha := delta_acquire_release a o
  simp only [outstanding_cons, outstanding_nil]
  omega

theorem outstanding_nested (a b o : TagsObject) :
    outstanding [.acquire a, .acquire b, .release b, .release a] o = 0 := by
  have ha := delta_acquire_release a o
  have hb := delta_acquire_release b o
  simp only [outstanding_cons, outstanding_nil]
  omega

section

variable {fmt : Formats} {n : ℕ} {sinkLinked : Bool} {es : List TagsEvent} {table : TagTable}
  {lists : List GstTagList} {err : Option Text} {rest : List BusMessage} {r : Option Text × TagTable}

/-- The loop ends with the message in hand that ended it. -/
theorem tagsLoopRecorded_outstanding
    (h : es.filterMap TagsEvent.message = lists.map .tag ++ finalMessage err :: rest)
    (hok : (tagsLoopRecorded fmt n sinkLinked es table).2 = .ok r) (o : TagsObject) :
    outstanding (tagsLoopRecorded fmt n sinkLinked es table).1 o =
      (if o = .message (n + lists.length) then 1 else 0) +
        (if err.isSome ∧ o = .error then 1 else 0) + (if err.isSome ∧ o = .ret then 1 else 0) ∧
      r.1.isSome = err.isSome := by
  induction es generalizing n sinkLinked lists table with
  | nil => exact absurd h (by simp)
  | cons e es ih =>
    cases e with
    | padAdded linked =>
      by_cases hl : (sinkLinked || linked) = true
      · rw [tagsLoopRecorded, if_pos hl] at hok ⊢
        obtain ⟨hout, hret⟩ := @ih n true table lists h hok
        refine ⟨?_, hret⟩
        rw [recorded, outstanding_append, hout, outstanding_pair, Int.zero_add]
      · rw [tagsLoopRecorded, if_neg hl] at hok
        exact absurd hok (by simp)
    | popped msg =>
      change msg :: es.filterMap TagsEvent.message = _ at h
      cases lists with
      | nil =>
        obtain ⟨rfl, -⟩ := List.cons.inj h
        cases err with
        | none =>
          obtain rfl : _ = r := Except.ok.inj hok
          refine ⟨?_, rfl⟩
          simp [tagsLoopRecorded, finalMessage, outstanding_cons, outstanding_nil, TagsAction.delta]
        | some text =>
          obtain rfl : _ = r := Except.ok.inj hok
          refine ⟨?_, rfl⟩
          simp [tagsLoopRecorded, finalMessage, outstanding_cons, outstanding_nil, TagsAction.delta,
            Int.add_assoc]
      | cons tags lists =>
        obtain ⟨rfl, hrest⟩ := List.cons.inj h
        rw [tagsLoopRecorded] at hok ⊢
        obtain ⟨hout, hret⟩ := @ih (n + 1) sinkLinked _ lists hrest hok
        refine ⟨?_, hret⟩
        have hn : n + 1 + lists.length = n + (tags :: lists).length := by
          rw [List.length_cons]
          omega
        rw [recorded, outstanding_append, hout, hn, outstanding_nested, Int.zero_add]

theorem exists_messages_of_ok (hok : tagsLoop fmt sinkLinked es table = .ok r) :
    ∃ (lists : List GstTagList) (err : Option Text) (rest : List BusMessage),
      es.filterMap TagsEvent.message = lists.map .tag ++ finalMessage err :: rest := by
  induction es generalizing sinkLinked table with
  | nil => cases hok
  | cons e es ih =>
    cases e with
    | padAdded linked =>
      by_cases hl : (sinkLinked || linked) = true
      · rw [tagsLoop, if_pos hl] at hok
        exact ih hok
      · rw [tagsLoop, if_neg hl] at hok
        cases hok
    | popped msg =>
      cases msg with
      | asyncDone => exact ⟨[], none, _, rfl⟩
      | error text => exact ⟨[], some text, _, rfl⟩
      | tag tags =>
        obtain ⟨lists, err, rest, h⟩ := ih hok
        exact ⟨tags :: lists, err, rest, congrArg (BusMessage.tag tags :: ·) h⟩

end

theorem tagsReplyRecorded_outstanding (calls : HandlerCalls) (ctx : PlaybackCtx) (ret : Option Text)
    (table : TagTable) (o : TagsObject) :
    outstanding (tagsReplyRecorded calls ctx ret table).1 o = if ret.isSome then 0 else
      (TagsAction.acquire .ret).delta o := by
  have hdata := delta_acquire_release .tableData o
  have hret := delta_acquire_release .ret o
  cases ret with
  | none =>
    simp only [tagsReplyRecorded, outstanding_cons, outstanding_nil, Option.isSome_none, Bool.false_eq_true,
      if_false]
    omega
  | some text =>
    by_cases ht : table.entries.length > 0
    · simp only [tagsReplyRecorded, if_pos ht, outstanding_cons, outstanding_nil, Option.isSome_some, if_true]
      omega
    · simp only [tagsReplyRecorded, if_neg ht, outstanding_nil, Option.isSome_some, if_true]

section

variable {param reply : Text} {calls : HandlerCalls} {ctx ctx' : PlaybackCtx} {lists : List GstTagList}
  {err : Option Text} {rest : List BusMessage}

/-- The request keeps its pipeline, the message that ended the loop and the
error in it. -/
theorem opTagsParse_outstanding
    (h : calls.tags.filterMap TagsEvent.message = lists.map .tag ++ finalMessage err :: rest)
    (hok : opTagsParse param calls ctx = .ok (reply, ctx')) (o : TagsObject) :
    outstanding (opTagsParseRecorded param calls ctx).1 o =
      if o = .pipeline ∨ o = .message lists.length ∨ err.isSome ∧ o = .error then 1 else 0 := by
  have hsnd := tagsLoopRecorded_snd calls.formats 0 false calls.tags ∅
  cases hr : tagsLoopRecorded calls.formats 0 false calls.tags ∅ with
  | mk acts r =>
    rw [hr] at hsnd
    cases r with
    | error k =>
      rw [opTagsParse_of_error hsnd.symm] at hok
      cases hok
    | ok r =>
      obtain ⟨ret, table⟩ := r
      obtain ⟨hloop, hret⟩ := tagsLoopRecorded_outstanding h (congrArg Prod.snd hr) o
      rw [hr, Nat.zero_add] at hloop
      have hanswer := tagsReplyRecorded_outstanding calls ctx ret table o
      rw [opTagsParseRecorded, hr, recorded, outstanding_append, outstanding_append, outstanding_append,
        hloop, hanswer]
      simp only [outstanding_cons, outstanding_nil, TagsAction.delta]
      dsimp only at hret
      rw [hret]
      cases err with
      | none => cases o <;> simp
      | some text => cases o <;> simp

theorem opTagsParse_keeps_pipeline (hok : opTagsParse param calls ctx = .ok (reply, ctx')) :
    outstanding (opTagsParseRecorded param calls ctx).1 .pipeline = 1 := by
  cases hl : tagsLoop calls.formats false calls.tags ∅ with
  | error k =>
    rw [opTagsParse_of_error hl] at hok
    cases hok
  | ok r =>
    obtain ⟨lists, err, rest, h⟩ := exists_messages_of_ok hl
    rw [opTagsParse_outstanding h hok]
    exact if_pos (.inl rfl)

end

structure TagsRequest where
  param : Text
  calls : HandlerCalls
  ctx : PlaybackCtx

def TagsRequest.actions (r : TagsRequest) : List TagsAction := (opTagsParseRecorded r.param r.calls r.ctx).1

def TagsRequest.Returns (r : TagsRequest) : Prop :=
  ∃ reply, opTagsParse r.param r.calls r.ctx = .ok reply

/-- The pipelines after some TAGS requests, the playback pipeline among them. -/
def livePipelines (requests : List TagsRequest) : ℤ :=
  1 + outstanding (requests.flatMap TagsRequest.actions) .pipeline

theorem livePipelines_eq {requests : List TagsRequest} (h : ∀ r ∈ requests, r.Returns) :
    livePipelines requests = 1 + requests.length := by
  rw [livePipelines]
  congr 1
  induction requests with
  | nil => rfl
  | cons r requests ih =>
    obtain ⟨reply, hr⟩ := h r List.mem_cons_self
    have hone : outstanding r.actions .pipeline = 1 := opTagsParse_keeps_pipeline hr
    rw [List.flatMap_cons, outstanding_append, ih fun q hq => h q (List.mem_cons_of_mem r hq), hone,
      List.length_cons]
    omega

/-- No TAGS request gives back all that it has acquired, and the pipelines of
all of them stay. -/
theorem tagsRequests_leak {requests : List TagsRequest} (h : ∀ r ∈ requests, r.Returns) :
    (∀ r ∈ requests, ¬ GivesBack r.actions) ∧ livePipelines requests = 1 + requests.length := by
  refine ⟨?_, livePipelines_eq h⟩
  intro r hr hback
  obtain ⟨reply, hok⟩ := h r hr
  have hone : outstanding r.actions .pipeline = 1 := opTagsParse_keeps_pipeline hok
  rw [hback.balanced] at hone
  exact absurd hone (by decide)

def asyncDoneRequest : TagsRequest :=
  ⟨"file:///a.mp3".toList, { exampleHandlerCalls with tags := [.popped .asyncDone] }, newPlaybackCtx 0 1 2⟩

theorem asyncDoneRequest_returns : asyncDoneRequest.Returns := ⟨_, rfl⟩

theorem tagsRequests_leak_two : livePipelines [asyncDoneRequest, asyncDoneRequest] = 1 + 2 := by
  refine (tagsRequests_leak ?_).2
  simp [asyncDoneRequest_returns]

theorem not_givesBack_asyncDone : ¬ ∀ r : TagsRequest, r.Returns → GivesBack r.actions := by
  intro h
  have hone : outstanding asyncDoneRequest.actions .pipeline = 0 :=
    (h asyncDoneRequest asyncDoneRequest_returns).balanced .pipeline
  exact absurd hone (by decide)

end GstPlayd
