import HpAgent.Stream.Sinks
import Mathlib.Data.List.Induction
import Mathlib.Data.List.Nodup
import Mathlib.Data.List.Range

/-! # Which Runs keep streaming

A sink numbers its events one by one, so the events of one sink come as a stream without a gap; the gateway passes them all on and
the sequencer delivers them all.  The events of a second sink are a second stream, at which the gateway gives up.

* `Numbered`: what the sinks have published.
* `relay_one`, `read_continues`: one stream reaches the page.
* `healthy_iff`: a Run keeps streaming exactly if one sink published its online events and none of its deltas came too late.
* `OneProcess`: the activities of one process share a sink. -/

namespace HpAgent.Stream

open Library

variable {e : SseEnvelope} {frames : List SseEnvelope} {emission : Emission} {worker : ℕ}

/-! ### What is published -/

/-- The delta that the page is told of for an event. -/
def deltaOf (event : SseEnvelope) : Option (List Char × List Char) := (RunFeed.dispatchOnline event).bind Callback.delta?

/-- The types of the events that sinks publish. -/
def onlineTypes : List (List Char) :=
  ["run.started".toList, "run.status".toList, "message.delta".toList, "run.progress".toList, "trace.event".toList]

/-- The sequence numbers of a stream, as they were published. -/
def seqs (id : List Char) (published : List SseEnvelope) : List ℕ :=
  published.filterMap fun event => if event.streamId = some id then event.eventSeq else none

theorem seqs_concat (id : List Char) (published : List SseEnvelope) (event : SseEnvelope) :
    seqs id (published ++ [event]) = seqs id published ++ if event.streamId = some id then event.eventSeq.toList else [] := by
  unfold seqs
  rw [List.filterMap_append, List.filterMap_cons, List.filterMap_nil]
  split_ifs
  · cases event.eventSeq <;> rfl
  · rfl

/-- An online event has the next number of its sink, another one has none. -/
theorem envelope_numbers (ctx : RunContext) (sink : RedisSink) (drawn : ℕ) (now : List Char) (draft : Draft) :
    ((sink.envelope ctx drawn now draft).1 = sink ∧ (sink.envelope ctx drawn now draft).2.streamId = none ∧
        (sink.envelope ctx drawn now draft).2.eventSeq = none) ∨
      ((sink.envelope ctx drawn now draft).1 = { sink with eventSeq := sink.eventSeq + 1 } ∧
        (sink.envelope ctx drawn now draft).2.streamId = some sink.streamId ∧
        (sink.envelope ctx drawn now draft).2.eventSeq = some (sink.eventSeq + 1)) := by
  unfold RedisSink.envelope
  cases draft.online with
  | false => exact .inl ⟨rfl, rfl, rfl⟩
  | true => exact .inr ⟨rfl, rfl, rfl⟩

theorem draft_type {draft : Draft} (h : emission.draft = some draft) : draft.eventType ∈ onlineTypes := by
  cases emission with
  | started value startedAt =>
      simp only [Emission.draft] at h
      split_ifs at h
      cases h
      simp [onlineTypes]
  | status value runVersion =>
      simp only [Emission.draft] at h
      split_ifs at h
      cases h
      simp [onlineTypes]
  | delta deltaText messageId =>
      simp only [Emission.draft] at h
      split_ifs at h
      cases h
      simp [onlineTypes]
  | progress phase summary =>
      simp only [Emission.draft] at h
      split_ifs at h
      cases h
      simp [onlineTypes]
  | traceStart nodeId parentId name nodeType metadata =>
      cases h
      simp [onlineTypes]
  | traceEnd nodeId value metadata durationMs =>
      cases h
      simp [onlineTypes]

/-- The page is told of a delta as it was emitted. -/
theorem deltaOf_envelope {draft : Draft} (h : emission.draft = some draft) (ctx : RunContext) (sink : RedisSink)
    (drawn : ℕ) (now : List Char) : deltaOf (sink.envelope ctx drawn now draft).2 = emission.delta? := by
  cases emission with
  | started value startedAt =>
      simp only [Emission.draft] at h
      split_ifs at h with hvalue
      cases h
      have hstatus : deltaOf (sink.envelope ctx drawn now ⟨"run.started".toList, none,
          [("status".toList, .str value), ("started_at".toList, .str startedAt)], true⟩).2 =
          (if RunFeed.isRunStatus value then some (Callback.status value) else none).bind Callback.delta? := rfl
      rw [hstatus]
      split_ifs <;> rfl
  | status value runVersion =>
      simp only [Emission.draft] at h
      split_ifs at h with hvalue
      cases h
      have hstatus : deltaOf (sink.envelope ctx drawn now ⟨"run.status".toList, none,
          ("status".toList, .str value) :: (runVersion.map fun n : ℕ => ("run_version".toList, Json.int (n : ℤ))).toList, false⟩).2 =
          (if RunFeed.isRunStatus value then some (Callback.status value) else none).bind Callback.delta? := rfl
      rw [hstatus]
      split_ifs <;> rfl
  | delta deltaText messageId =>
      simp only [Emission.draft] at h
      split_ifs at h with hid
      cases h
      have hdelta : deltaOf (sink.envelope ctx drawn now ⟨"message.delta".toList, some messageId, [("delta".toList, .str deltaText)], true⟩).2 =
          (if messageId = [] then none else some (Callback.delta messageId deltaText)).bind Callback.delta? := rfl
      rw [hdelta, Emission.delta?, if_neg hid, if_neg hid]
      rfl
  | progress phase summary =>
      simp only [Emission.draft] at h
      split_ifs at h
      cases h
      rfl
  | traceStart nodeId parentId name nodeType metadata =>
      cases h
      rfl
  | traceEnd nodeId value metadata durationMs =>
      cases h
      rfl

/-- What the sinks of a Run have published. -/
structure Numbered (ctx : RunContext) (s : Publishing) : Prop where
  named : ∀ i sink, s.sinks[i]? = some sink → sink.streamId = ctx.streamId i
  ids : (s.published.map SseEnvelope.eventId).Sublist ((List.range s.drawn).map ctx.eventId)
  known : ∀ e ∈ s.published, (e.streamId = none ∧ e.eventSeq = none) ∨
    ∃ i n, i < s.sinks.length ∧ e.streamId = some (ctx.streamId i) ∧ e.eventSeq = some n
  numbered : ∀ i sink, s.sinks[i]? = some sink →
    ∃ n, seqs (ctx.streamId i) s.published = List.range' 1 n ∧ (sink.closed = false → sink.eventSeq = n)
  types : ∀ e ∈ s.published, e.eventType ∈ onlineTypes
  counted : s.deltas.length = (s.published.filterMap deltaOf).length + s.fenced.length
  unfenced : s.fenced = [] → s.deltas = s.published.filterMap deltaOf

namespace Numbered

variable {ctx : RunContext} {s : Publishing}

theorem start (ctx : RunContext) : Numbered ctx .start where
  named _ _ h := by cases h
  ids := List.Sublist.refl []
  known := nofun
  numbered _ _ h := by cases h
  types := nofun
  counted := rfl
  unfenced _ := rfl

/-- No event has been published for a sink that is not there. -/
theorem seqs_unknown (h : Numbered ctx s) {i : ℕ} (hi : s.sinks.length ≤ i) : seqs (ctx.streamId i) s.published = [] := by
  apply List.filterMap_eq_nil_iff.mpr
  intro e he
  rcases h.known e he with ⟨hstream, _⟩ | ⟨j, n, hj, hstream, _⟩
  · rw [hstream, if_neg nofun]
  · rw [hstream, if_neg]
    intro heq
    have hij := ctx.streamId_injective j i (Option.some.inj heq)
    omega

/-- A sink that is made or closed publishes nothing. -/
theorem sinks (h : Numbered ctx s) (s' : Publishing) (hpublished : s'.published = s.published) (hdrawn : s'.drawn = s.drawn)
    (hdeltas : s'.deltas = s.deltas) (hfenced : s'.fenced = s.fenced) (hlength : s.sinks.length ≤ s'.sinks.length)
    (hsinks : ∀ i sink', s'.sinks[i]? = some sink' →
      (∃ sink, s.sinks[i]? = some sink ∧ sink'.streamId = sink.streamId ∧ sink'.eventSeq = sink.eventSeq ∧
          (sink'.closed = false → sink.closed = false)) ∨
        (s.sinks.length ≤ i ∧ sink'.streamId = ctx.streamId i ∧ sink'.eventSeq = 0)) : Numbered ctx s' where
  named := by
    intro i sink' hi
    rcases hsinks i sink' hi with ⟨sink, hold, hstream, _, _⟩ | ⟨_, hstream, _⟩
    · exact hstream.trans (h.named i sink hold)
    · exact hstream
  ids := by
    rw [hpublished, hdrawn]
    exact h.ids
  known := by
    rw [hpublished]
    intro e he
    rcases h.known e he with hnone | ⟨i, n, hi, hsome⟩
    · exact .inl hnone
    · exact .inr ⟨i, n, Nat.lt_of_lt_of_le hi hlength, hsome⟩
  numbered := by
    rw [hpublished]
    intro i sink' hi
    rcases hsinks i sink' hi with ⟨sink, hold, _, hseq, hclosed⟩ | ⟨hnew, _, hseq⟩
    · obtain ⟨n, hn, hlast⟩ := h.numbered i sink hold
      exact ⟨n, hn, fun hopen => hseq.trans (hlast (hclosed hopen))⟩
    · exact ⟨0, h.seqs_unknown hnew, fun _ => hseq⟩
  types := by
    rw [hpublished]
    exact h.types
  counted := by
    rw [hdeltas, hpublished, hfenced]
    exact h.counted
  unfenced := by
    rw [hdeltas, hpublished, hfenced]
    exact h.unfenced

theorem closeSink (h : Numbered ctx s) (i : ℕ) : Numbered ctx (s.closeSink i) := by
  apply h.sinks (s.closeSink i) rfl rfl rfl rfl
  · exact Nat.le_of_eq (List.length_modify ..).symm
  · intro j sink' hj
    left
    have hj' : (s.sinks.modify i fun sink => { sink with closed := true })[j]? = some sink' := hj
    rw [List.getElem?_modify] at hj'
    cases hold : s.sinks[j]? with
    | none =>
        rw [hold] at hj'
        cases hj'
    | some sink =>
        rw [hold] at hj'
        cases hj'
        split_ifs
        · exact ⟨sink, rfl, rfl, rfl, nofun⟩
        · exact ⟨sink, rfl, rfl, rfl, id⟩

theorem closeRun (h : Numbered ctx s) (worker : ℕ) : Numbered ctx (s.closeRun worker) := by
  unfold Publishing.closeRun
  cases s.active worker with
  | none => exact h
  | some i =>
      have hactive : Numbered ctx { s with active := Function.update s.active worker none } :=
        ⟨h.named, h.ids, h.known, h.numbered, h.types, h.counted, h.unfenced⟩
      exact hactive.closeSink i

theorem terminalClose (h : Numbered ctx s) (i : ℕ) : Numbered ctx (s.terminalClose i) := by
  unfold Publishing.terminalClose
  cases s.sinks[i]? with
  | none => exact h
  | some sink =>
      dsimp only
      split_ifs
      · exact h
      · exact (h.closeSink i).closeRun sink.worker

theorem forRun (h : Numbered ctx s) (activity worker : ℕ) : Numbered ctx (s.forRun ctx activity worker) := by
  unfold Publishing.forRun
  cases s.active worker with
  | some i => exact ⟨h.named, h.ids, h.known, h.numbered, h.types, h.counted, h.unfenced⟩
  | none =>
      refine h.sinks _ rfl rfl rfl rfl ?_ ?_
      · simp
      · intro j sink' hj
        have hj' : (s.sinks ++ [⟨worker, ctx.streamId s.sinks.length, 0, false⟩])[j]? = some sink' := hj
        by_cases hlt : j < s.sinks.length
        · rw [List.getElem?_append_left hlt] at hj'
          exact .inl ⟨sink', hj', rfl, rfl, id⟩
        · rw [List.getElem?_append_right (Nat.le_of_not_lt hlt), List.getElem?_singleton] at hj'
          split_ifs at hj' with heq
          · cases hj'
            have hlast : j = s.sinks.length := by omega
            subst hlast
            exact .inr ⟨Nat.le_refl _, rfl, rfl⟩

/-- What becomes of the other sinks when one of them numbers an event. -/
theorem set_sink {i j : ℕ} {sink sink' found : RedisSink} (hi : s.sinks[i]? = some sink) (hj : (s.sinks.set i sink')[j]? = some found) :
    (j = i ∧ found = sink') ∨ (j ≠ i ∧ s.sinks[j]? = some found) := by
  rw [List.getElem?_set] at hj
  by_cases heq : i = j
  · have hlt : i < s.sinks.length := (List.getElem?_eq_some_iff.mp hi).1
    rw [if_pos heq, if_pos hlt] at hj
    exact .inl ⟨heq.symm, (Option.some.inj hj).symm⟩
  · rw [if_neg heq] at hj
    exact .inr ⟨fun h => heq h.symm, hj⟩

theorem publish (h : Numbered ctx s) (i : ℕ) (emission : Emission) (now : List Char) : Numbered ctx (s.publish ctx i emission now) := by
  unfold Publishing.publish
  cases hi : s.sinks[i]? with
  | none => exact h
  | some sink =>
      cases hdraft : emission.draft with
      | none => exact h
      | some draft =>
          dsimp only
          have hnumbers := envelope_numbers ctx sink s.drawn now draft
          set sink' := (sink.envelope ctx s.drawn now draft).1
          set event := (sink.envelope ctx s.drawn now draft).2
          have hsame : sink'.streamId = sink.streamId ∧ sink'.closed = sink.closed := by
            rcases hnumbers with ⟨hsink, _, _⟩ | ⟨hsink, _, _⟩ <;> rw [hsink] <;> exact ⟨rfl, rfl⟩
          have hdelta : deltaOf event = emission.delta? := deltaOf_envelope hdraft ctx sink s.drawn now
          have hdeltas : (s.published ++ [event]).filterMap deltaOf = s.published.filterMap deltaOf ++ emission.delta?.toList := by
            rw [List.filterMap_append, List.filterMap_cons, List.filterMap_nil, hdelta]
            cases emission.delta? <;> rfl
          have hlength : (s.sinks.set i sink').length = s.sinks.length := List.length_set ..
          constructor
          case named =>
            intro j found hj
            rcases set_sink hi hj with ⟨rfl, rfl⟩ | ⟨_, hold⟩
            · exact hsame.1.trans (h.named _ _ hi)
            · exact h.named j found hold
          case ids =>
            dsimp only
            rw [List.range_succ, List.map_append, List.map_singleton]
            split_ifs
            · exact h.ids.trans (List.sublist_append_left ..)
            · rw [List.map_append, List.map_singleton]
              exact h.ids.append (List.Sublist.refl _)
          case known =>
            dsimp only
            rw [hlength]
            intro e he
            split_ifs at he
            · exact h.known e he
            · rcases List.mem_append.mp he with he | he
              · exact h.known e he
              · rw [List.mem_singleton.mp he]
                rcases hnumbers with ⟨_, hstream, hseq⟩ | ⟨_, hstream, hseq⟩
                · exact .inl ⟨hstream, hseq⟩
                · exact .inr ⟨i, _, (List.getElem?_eq_some_iff.mp hi).1, hstream.trans (congrArg some (h.named i sink hi)), hseq⟩
          case numbered =>
            intro j found hj
            rcases set_sink hi hj with ⟨rfl, rfl⟩ | ⟨hne, hold⟩
            · obtain ⟨n, hn, hlast⟩ := h.numbered _ _ hi
              rw [hsame.2]
              dsimp only
              split_ifs with hclosed
              · exact ⟨n, hn, fun hopen => absurd (hclosed.symm.trans hopen) nofun⟩
              · have hcount : sink.eventSeq = n := hlast (Bool.eq_false_of_not_eq_true hclosed)
                rcases hnumbers with ⟨hsink, hstream, _⟩ | ⟨hsink, hstream, hseq⟩
                · refine ⟨n, ?_, fun _ => by rw [hsink, hcount]⟩
                  rw [seqs_concat, hstream, if_neg nofun, List.append_nil, hn]
                · refine ⟨n + 1, ?_, fun _ => by rw [hsink, hcount]⟩
                  rw [seqs_concat, hstream, if_pos (congrArg some (h.named _ _ hi)), hseq, hn, List.range'_concat, hcount, Nat.one_mul,
                    Nat.add_comm 1 n]
                  rfl
            · obtain ⟨n, hn, hlast⟩ := h.numbered j found hold
              refine ⟨n, ?_, hlast⟩
              dsimp only
              split_ifs
              · exact hn
              · rw [seqs_concat, if_neg, List.append_nil, hn]
                rcases hnumbers with ⟨_, hstream, _⟩ | ⟨_, hstream, _⟩
                · rw [hstream]
                  nofun
                · rw [hstream, h.named i sink hi]
                  intro heq
                  exact hne (ctx.streamId_injective _ _ (Option.some.inj heq)).symm
          case types =>
            dsimp only
            intro e he
            split_ifs at he
            · exact h.types e he
            · rcases List.mem_append.mp he with he | he
              · exact h.types e he
              · cases List.mem_singleton.mp he
                exact draft_type hdraft
          case counted =>
            dsimp only
            split_ifs
            · rw [List.length_append, List.length_append, h.counted]
              omega
            · rw [hdeltas, List.length_append, List.length_append, h.counted]
              omega
          case unfenced =>
            dsimp only
            intro hnil
            split_ifs at hnil ⊢
            · obtain ⟨hnone, hlost⟩ := List.append_eq_nil_iff.mp hnil
              rw [hlost, List.append_nil]
              exact h.unfenced hnone
            · rw [hdeltas, h.unfenced hnil]

theorem step (h : Numbered ctx s) (x : SinkStep) : Numbered ctx (s.step ctx x) := by
  cases x with
  | forRun activity worker => exact h.forRun activity worker
  | detach worker => exact ⟨h.named, h.ids, h.known, h.numbered, h.types, h.counted, h.unfenced⟩
  | emit activity emission now =>
      show Numbered ctx (s.emit ctx activity emission now)
      unfold Publishing.emit
      cases s.held activity with
      | none => exact h
      | some i =>
          have hpublish := h.publish i emission now
          dsimp only
          split
          · split_ifs
            · exact hpublish.terminalClose i
            · exact hpublish
          · exact hpublish

end Numbered

theorem publishing_concat (ctx : RunContext) (steps : List SinkStep) (x : SinkStep) :
    publishing ctx (steps ++ [x]) = (publishing ctx steps).step ctx x := by
  unfold publishing
  rw [List.foldl_append]
  rfl

theorem numbered_run (ctx : RunContext) (steps : List SinkStep) : Numbered ctx (publishing ctx steps) := by
  induction steps using List.reverseRecOn with
  | nil => exact .start ctx
  | append_singleton steps x ih =>
      rw [publishing_concat]
      exact ih.step x

/-! ### What the gateway passes on -/

section Relay

variable {κ : Type} [DecidableEq κ] {ctx : RunContext} {d : Decoding κ} {now : List Char} {published : List SseEnvelope}

/-- All the events that have a stream have the same one. -/
def OneStream (published : List SseEnvelope) : Prop :=
  ∀ e ∈ published, ∀ e' ∈ published, ∀ id id', e.streamId = some id → e'.streamId = some id' → id = id'

theorem onlineTypes_ne {eventType : List Char} (h : eventType ∈ onlineTypes) :
    eventType ∉ [[], "stream.degraded".toList, "auth.expired".toList, "run.snapshot".toList, "run.succeeded".toList,
      "run.failed".toList, "run.cancelled".toList] := by
  have hall : ∀ t ∈ onlineTypes, t ∉ [[], "stream.degraded".toList, "auth.expired".toList, "run.snapshot".toList,
      "run.succeeded".toList, "run.failed".toList, "run.cancelled".toList] := by decide
  exact hall eventType h

/-- The gateway reads an event as it was published. -/
theorem seenAfter_event (hreads : Reads d published) (he : e ∈ published) (htype : e.eventType ∈ onlineTypes)
    (seen : List κ) : seenAfter d seen e.text =
      (Connection.addStreamId d.key seen (textOrNull e.streamId)).filter fun seen => seen.length ≤ 1 := by
  have hne : e.eventType ≠ [] := fun h => onlineTypes_ne htype (h ▸ List.mem_cons_self ..)
  have htruthy : (Json.get e.body "event_type").truthy = true := by
    show (e.eventType != []) = true
    simpa using hne
  have hnormal : normalizeEvent d.loads e.text = some ⟨e.eventType, textOrNull e.streamId⟩ := by
    unfold normalizeEvent
    rw [hreads.loads e he]
    dsimp only
    rw [if_pos htruthy]
    show (if e.eventType = [] then none else some (⟨e.eventType, textOrNull e.streamId⟩ : Event)) = _
    rw [if_neg hne]
  unfold seenAfter
  rw [hnormal]

/-- One stream passes the gateway. -/
theorem relay_one (hreads : Reads d published) {id : List Char} {k : κ} (hk : d.key (.str id) = some k) {events : List SseEnvelope}
    (hsub : ∀ e ∈ events, e ∈ published ∧ e.eventType ∈ onlineTypes ∧ (e.streamId = none ∨ e.streamId = some id)) {seen : List κ}
    (hseen : seen = [] ∨ seen = [k]) : relay ctx d now seen events = events := by
  induction events generalizing seen with
  | nil => rfl
  | cons e rest ih =>
      obtain ⟨he, htype, hstream⟩ := hsub e (List.mem_cons_self ..)
      have hafter : ∃ seen', seenAfter d seen e.text = some seen' ∧ (seen' = [] ∨ seen' = [k]) := by
        rw [seenAfter_event hreads he htype]
        rcases hstream with hnone | hsome
        · rw [hnone]
          refine ⟨seen, ?_, hseen⟩
          rcases hseen with rfl | rfl <;> rfl
        · rw [hsome]
          refine ⟨[k], ?_, .inr rfl⟩
          show (((d.key (.str id)).map fun k => if k ∈ seen then seen else seen ++ [k]).filter fun seen => seen.length ≤ 1) = some [k]
          rw [hk]
          rcases hseen with rfl | rfl <;> simp
      obtain ⟨seen', hafter, hseen'⟩ := hafter
      rw [relay, hafter]
      exact congrArg (e :: ·) (ih (fun x hx => hsub x (List.mem_cons_of_mem _ hx)) hseen')

/-- The last frame that the gateway sends at a second stream. -/
def degradedEvent (ctx : RunContext) (now : List Char) : SseEnvelope :=
  gatewayEvent ctx 1 "stream.degraded".toList now
    [("reason".toList, .str "sequence_gap".toList), ("recovery".toList, .str "query_run".toList), ("retry_after_ms".toList, .int 2000)]

/-- The gateway passes everything on and has seen every stream, or it gives up. -/
theorem relay_cases (hreads : Reads d published) {events : List SseEnvelope}
    (hsub : ∀ e ∈ events, e ∈ published ∧ e.eventType ∈ onlineTypes) {seen : List κ} (hseen : seen.length ≤ 1) :
    (relay ctx d now seen events = events ∧ ∃ seen' : List κ, seen'.length ≤ 1 ∧ seen ⊆ seen' ∧
        ∀ e ∈ events, ∀ id, e.streamId = some id → ∃ k ∈ seen', d.key (.str id) = some k) ∨
      ∃ before, before ⊆ events ∧ relay ctx d now seen events = before ++ [degradedEvent ctx now] := by
  induction events generalizing seen with
  | nil => exact .inl ⟨rfl, seen, hseen, fun _ h => h, nofun⟩
  | cons e rest ih =>
      obtain ⟨he, htype⟩ := hsub e (List.mem_cons_self ..)
      rw [relay]
      cases hafter : seenAfter d seen e.text with
      | none => exact .inr ⟨[], List.nil_subset _, rfl⟩
      | some next =>
          have hnext : next.length ≤ 1 ∧ seen ⊆ next ∧ ∀ id, e.streamId = some id → ∃ k ∈ next, d.key (.str id) = some k := by
            rw [seenAfter_event hreads he htype] at hafter
            obtain ⟨hadded, hlength⟩ := Option.filter_eq_some_iff.mp hafter
            refine ⟨of_decide_eq_true hlength, ?_⟩
            cases hstream : e.streamId with
            | none =>
                rw [hstream] at hadded
                cases hadded
                exact ⟨fun _ h => h, nofun⟩
            | some id =>
                rw [hstream] at hadded
                obtain ⟨k, hk, hset⟩ := Option.map_eq_some_iff.mp hadded
                split_ifs at hset with hmem
                · subst hset
                  refine ⟨fun _ h => h, ?_⟩
                  intro id' heq
                  cases heq
                  exact ⟨k, hmem, hk⟩
                · subst hset
                  refine ⟨List.subset_append_left .., ?_⟩
                  intro id' heq
                  cases heq
                  exact ⟨k, List.mem_append_right _ (List.mem_singleton_self k), hk⟩
          obtain ⟨hlength, hsubset, hkey⟩ := hnext
          rcases ih (fun x hx => hsub x (List.mem_cons_of_mem _ hx)) hlength with ⟨hrest, seen', hlength', hsubset', hkeys⟩ | ⟨before, hbefore, hrest⟩
          · left
            refine ⟨congrArg (e :: ·) hrest, seen', hlength', fun x hx => hsubset' (hsubset hx), ?_⟩
            intro x hx id hid
            rcases List.mem_cons.mp hx with rfl | hx
            · obtain ⟨k, hk, hkey⟩ := hkey id hid
              exact ⟨k, hsubset' hk, hkey⟩
            · exact hkeys x hx id hid
          · right
            refine ⟨e :: before, List.cons_subset_cons e hbefore, ?_⟩
            exact congrArg (e :: ·) hrest

end Relay

/-! ### What the page is told -/

namespace RunFeed

theorem route_online (f : RunFeed) (h : e.eventType ∈ onlineTypes) : f.route e = f.sequence e := by
  have hne := onlineTypes_ne h
  simp only [List.mem_cons, List.not_mem_nil, or_false, not_or] at hne
  obtain ⟨_, hdegraded, hexpired, hsnapshot, hsucceeded, hfailed, hcancelled⟩ := hne
  have hterminal : e.eventType ∉ ["run.succeeded".toList, "run.failed".toList, "run.cancelled".toList] := by
    simp only [List.mem_cons, List.not_mem_nil, or_false, not_or]
    exact ⟨hsucceeded, hfailed, hcancelled⟩
  unfold route
  rw [if_neg hdegraded, if_neg hexpired, if_neg hsnapshot, if_neg hterminal]

/-- A frame that is an event, is not empty and has not been seen. -/
theorem handleFrame_new {f : RunFeed} (hdegraded : f.degraded = false) (hended : f.ended = false)
    (htype : e.eventType ≠ []) (hid : e.eventId ∉ f.seenEventIds) :
    f.handleFrame (some e) = { f with seenEventIds := e.eventId :: f.seenEventIds }.route e := by
  unfold handleFrame
  rw [if_neg (by simp [hdegraded, hended])]
  dsimp only
  rw [if_neg htype, if_neg hid]

end RunFeed

/-- The events continue a stream after so many numbers. -/
def Continues (id : List Char) : ℕ → List SseEnvelope → Prop
  | _, [] => True
  | n, e :: rest => (e.streamId = none ∧ Continues id n rest) ∨ (e.streamId = some id ∧ e.eventSeq = some (n + 1) ∧ Continues id (n + 1) rest)

theorem continues_of_seqs {id : List Char} {events : List SseEnvelope}
    (hknown : ∀ e ∈ events, e.streamId = none ∨ (e.streamId = some id ∧ ∃ m, e.eventSeq = some m)) {n k : ℕ}
    (h : seqs id events = List.range' (n + 1) k) : Continues id n events := by
  induction events generalizing n k with
  | nil => trivial
  | cons e rest ih =>
      have hrest : ∀ x ∈ rest, x.streamId = none ∨ (x.streamId = some id ∧ ∃ m, x.eventSeq = some m) :=
        fun x hx => hknown x (List.mem_cons_of_mem _ hx)
      unfold seqs at h
      rw [List.filterMap_cons] at h
      rcases hknown e (List.mem_cons_self ..) with hnone | ⟨hsome, m, hm⟩
      · rw [hnone, if_neg nofun] at h
        exact .inl ⟨hnone, ih hrest h⟩
      · rw [hsome, if_pos rfl, hm] at h
        cases k with
        | zero => cases h
        | succ k =>
            rw [List.range'_succ] at h
            injection h with hhead htail
            exact .inr ⟨hsome, by rw [hm, hhead], ih hrest htail⟩

/-- The sequencer has delivered so many events of the stream and holds none back. -/
def Expects (s : StreamSequencer) (id : List Char) (n : ℕ) : Prop := (n = 0 ∧ s = .start) ∨ s = ⟨some id, some (n + 1), []⟩

theorem Expects.accept {s : StreamSequencer} {id : List Char} {n : ℕ} (h : Expects s id n) (hstream : e.streamId = some id)
    (hseq : e.eventSeq = some (n + 1)) : s.accept e = (⟨some id, some (n + 2), []⟩, .delivered [e]) := by
  unfold StreamSequencer.accept
  rw [hstream, hseq]
  rcases h with ⟨rfl, rfl⟩ | rfl
  · rfl
  · dsimp only
    rw [if_neg (fun hne => hne rfl), Option.getD_some, if_neg (Nat.lt_irrefl _), if_pos rfl]
    rfl

theorem accept_unplaced (s : StreamSequencer) (hstream : e.streamId = none) : s.accept e = (s, .delivered [e]) := by
  unfold StreamSequencer.accept
  rw [hstream]

/-- A stream without a gap is told as it comes. -/
theorem read_continues {id : List Char} {events : List SseEnvelope} (htypes : ∀ e ∈ events, e.eventType ∈ onlineTypes) {f : RunFeed} {n : ℕ}
    (hdegraded : f.degraded = false) (hended : f.ended = false) (hexpects : Expects f.sequencer id n) (hcontinues : Continues id n events)
    (hids : (events.map SseEnvelope.eventId).Nodup) (hnew : ∀ e ∈ events, e.eventId ∉ f.seenEventIds) :
    ((events.map some).foldl RunFeed.handleFrame f).degraded = false ∧
      ((events.map some).foldl RunFeed.handleFrame f).callbacks = f.callbacks ++ events.filterMap RunFeed.dispatchOnline := by
  induction events generalizing f n with
  | nil => exact ⟨hdegraded, (List.append_nil _).symm⟩
  | cons e rest ih =>
      have htype := htypes e (List.mem_cons_self ..)
      have hne : e.eventType ≠ [] := fun h => onlineTypes_ne htype (h ▸ List.mem_cons_self ..)
      rw [List.map_cons, List.nodup_cons] at hids
      obtain ⟨hfirst, hids⟩ := hids
      rw [List.map_cons, List.foldl_cons, RunFeed.handleFrame_new hdegraded hended hne (hnew e (List.mem_cons_self ..)),
        RunFeed.route_online _ htype]
      have hlater (x : SseEnvelope) (hx : x ∈ rest) : x.eventId ∉ e.eventId :: f.seenEventIds := by
        intro hmem
        rcases List.mem_cons.mp hmem with heq | hold
        · exact hfirst (heq ▸ List.mem_map_of_mem hx)
        · exact hnew x (List.mem_cons_of_mem _ hx) hold
      -- the next state of the sequencer, which hands on this event alone
      have haccept : ∃ sequencer m, f.sequencer.accept e = (sequencer, .delivered [e]) ∧ Expects sequencer id m ∧ Continues id m rest := by
        rcases hcontinues with ⟨hnone, hrest⟩ | ⟨hsome, hseq, hrest⟩
        · exact ⟨f.sequencer, n, accept_unplaced _ hnone, hexpects, hrest⟩
        · exact ⟨_, n + 1, hexpects.accept hsome hseq, .inr rfl, hrest⟩
      obtain ⟨sequencer, m, haccept, hexpects', hcontinues'⟩ := haccept
      have hsequence : RunFeed.sequence { f with seenEventIds := e.eventId :: f.seenEventIds } e =
          { f with
            seenEventIds := e.eventId :: f.seenEventIds
            sequencer := sequencer
            callbacks := f.callbacks ++ [e].filterMap RunFeed.dispatchOnline } := by
        unfold RunFeed.sequence
        rw [haccept]
        rfl
      rw [hsequence]
      obtain ⟨hquiet, hcallbacks⟩ := ih (fun x hx => htypes x (List.mem_cons_of_mem _ hx))
        (f := { f with
            seenEventIds := e.eventId :: f.seenEventIds
            sequencer := sequencer
            callbacks := f.callbacks ++ [e].filterMap RunFeed.dispatchOnline })
        hdegraded hended hexpects' hcontinues' hids hlater
      refine ⟨hquiet, ?_⟩
      rw [hcallbacks, List.append_assoc, ← List.filterMap_append]
      rfl

/-- What a feed has seen, and that it ends only by being degraded. -/
structure Followed (f : RunFeed) (frames : List SseEnvelope) : Prop where
  seen : ∀ id ∈ f.seenEventIds, ∃ e ∈ frames, e.eventId = id
  ended : f.ended = true → f.degraded = true

theorem followed_degrade {f : RunFeed} (h : Followed f frames) (reason : List Char) :
    Followed (f.degrade reason) frames := by
  unfold RunFeed.degrade
  split_ifs
  · exact h
  · exact ⟨h.seen, fun _ => rfl⟩

theorem followed_sequence {f : RunFeed} (h : Followed f frames) (e : SseEnvelope) :
    Followed (f.sequence e) frames := by
  unfold RunFeed.sequence
  obtain ⟨sequencer, accepted⟩ := f.sequencer.accept e
  dsimp only
  have hkept : Followed { f with sequencer := sequencer } frames := ⟨h.seen, h.ended⟩
  cases accepted with
  | delivered events => exact ⟨hkept.seen, hkept.ended⟩
  | duplicate => exact hkept
  | degraded => exact followed_degrade hkept _

theorem followed_read (htypes : ∀ e ∈ frames, e.eventType ∈ onlineTypes ∨ e.eventType = "run.snapshot".toList) :
    Followed (RunFeed.read (frames.map some)) frames := by
  induction frames using List.reverseRecOn with
  | nil => exact ⟨nofun, nofun⟩
  | append_singleton frames e ih =>
      have hold := ih fun x hx => htypes x (List.mem_append_left _ hx)
      have hmore : Followed (RunFeed.read (frames.map some)) (frames ++ [e]) := by
        refine ⟨?_, hold.ended⟩
        intro id hid
        obtain ⟨x, hx, heq⟩ := hold.seen id hid
        exact ⟨x, List.mem_append_left _ hx, heq⟩
      have hread : RunFeed.read ((frames ++ [e]).map some) = (RunFeed.read (frames.map some)).handleFrame (some e) := by
        unfold RunFeed.read
        rw [List.map_append, List.foldl_append]
        rfl
      rw [hread]
      unfold RunFeed.handleFrame
      dsimp only
      split_ifs
      · exact hmore
      · exact hmore
      · exact hmore
      · have hseen : Followed { RunFeed.read (frames.map some) with
            seenEventIds := e.eventId :: (RunFeed.read (frames.map some)).seenEventIds } (frames ++ [e]) := by
          refine ⟨?_, hmore.ended⟩
          intro id hid
          rcases List.mem_cons.mp hid with rfl | hid
          · exact ⟨e, List.mem_append_right _ (List.mem_singleton_self e), rfl⟩
          · exact hmore.seen id hid
        rcases htypes e (List.mem_append_right _ (List.mem_singleton_self e)) with honline | hsnapshot
        · rw [RunFeed.route_online _ honline]
          exact followed_sequence hseen e
        · unfold RunFeed.route
          rw [hsnapshot, if_neg (by decide), if_neg (by decide), if_pos rfl]
          split_ifs
          · exact ⟨hseen.seen, hseen.ended⟩
          · exact hseen

/-! ### Runs that keep streaming -/

section Healthy

variable {κ : Type} [DecidableEq κ] {ctx : RunContext} {d : Decoding κ} {snapshot : Json} {now : List Char} {s : Publishing}

/-- The client after the first frame of a connection. -/
def greeted (ctx : RunContext) (snapshot : Json) (now : List Char) : RunFeed :=
  RunFeed.start.handleFrame (some (gatewayEvent ctx 0 "run.snapshot".toList now [("snapshot".toList, snapshot)]))

theorem greeted_eq (ctx : RunContext) (snapshot : Json) (now : List Char) : ∃ callbacks,
    greeted ctx snapshot now = ⟨false, false, [ctx.gatewayId 0], .start, callbacks⟩ ∧ (⟨false, false, [], .start, callbacks⟩ : RunFeed).deltas = [] := by
  have hgreeted : greeted ctx snapshot now =
      if RunFeed.isRunSnapshot snapshot then
        (⟨false, false, [ctx.gatewayId 0], .start, []⟩ : RunFeed).tell (.snapshot snapshot)
      else ⟨false, false, [ctx.gatewayId 0], .start, []⟩ := rfl
  rw [hgreeted]
  split_ifs
  · exact ⟨_, rfl, rfl⟩
  · exact ⟨_, rfl, rfl⟩

theorem deltas_dispatch (events : List SseEnvelope) :
    (events.filterMap RunFeed.dispatchOnline).filterMap Callback.delta? = events.filterMap deltaOf := List.filterMap_filterMap ..

/-- One stream reaches the page. -/
theorem client_one (h : Numbered ctx s) (hreads : Reads d s.published) (hone : OneStream s.published) :
    (client ctx d snapshot now s.published).degraded = false ∧
      (client ctx d snapshot now s.published).deltas = s.published.filterMap deltaOf := by
  -- the stream of the Run, if an event has one
  have hstream : ∃ id, (∀ e ∈ s.published, e.streamId = none ∨ e.streamId = some id) ∧ ∃ n, seqs id s.published = List.range' 1 n := by
    by_cases hany : ∃ e ∈ s.published, e.streamId ≠ none
    · obtain ⟨e, he, hsome⟩ := hany
      rcases h.known e he with ⟨hnone, _⟩ | ⟨i, m, hi, hid, _⟩
      · exact absurd hnone hsome
      · refine ⟨ctx.streamId i, ?_, ?_⟩
        · intro x hx
          cases hxid : x.streamId with
          | none => exact .inl rfl
          | some id => exact .inr (congrArg some (hone x hx e he _ _ hxid hid))
        · obtain ⟨n, hn, _⟩ := h.numbered i _ (List.getElem?_eq_getElem hi)
          exact ⟨n, hn⟩
    · have hnone (e : SseEnvelope) (he : e ∈ s.published) : e.streamId = none := by
        by_contra hne
        exact hany ⟨e, he, hne⟩
      refine ⟨[], fun e he => .inl (hnone e he), 0, ?_⟩
      apply List.filterMap_eq_nil_iff.mpr
      intro e he
      rw [hnone e he, if_neg nofun]
  obtain ⟨id, hstream, n, hseqs⟩ := hstream
  obtain ⟨k, hk⟩ := Option.isSome_iff_exists.mp (hreads.key id)
  have hrelay : relay ctx d now [] s.published = s.published :=
    relay_one hreads hk (fun e he => ⟨he, h.types e he, hstream e he⟩) (.inl rfl)
  have hcontinues : Continues id 0 s.published := by
    apply continues_of_seqs _ hseqs
    intro e he
    rcases h.known e he with ⟨hnone, _⟩ | ⟨i, m, _, hid, hseq⟩
    · exact .inl hnone
    · rcases hstream e he with hnone | hsome
      · exact .inl hnone
      · exact .inr ⟨hsome, m, hseq⟩
  have hids : (s.published.map SseEnvelope.eventId).Nodup := by
    apply h.ids.nodup
    exact List.Nodup.map (fun m n heq => ctx.eventId_injective m n heq) List.nodup_range
  obtain ⟨callbacks, hgreeted, hquiet⟩ := greeted_eq ctx snapshot now
  have hclient : client ctx d snapshot now s.published = (s.published.map some).foldl RunFeed.handleFrame (greeted ctx snapshot now) := by
    unfold client gateway
    rw [hrelay]
    rfl
  have hnew : ∀ e ∈ s.published, e.eventId ∉ (greeted ctx snapshot now).seenEventIds := by
    intro e he hmem
    rw [hgreeted] at hmem
    obtain ⟨m, _, hm⟩ := List.mem_map.mp (h.ids.subset (List.mem_map_of_mem he))
    exact ctx.gatewayId_ne 0 m ((List.mem_singleton.mp hmem).symm.trans hm.symm)
  have hdegraded : (greeted ctx snapshot now).degraded = false := by rw [hgreeted]
  have hended : (greeted ctx snapshot now).ended = false := by rw [hgreeted]
  have hexpects : Expects (greeted ctx snapshot now).sequencer id 0 := by
    rw [hgreeted]
    exact .inl ⟨rfl, rfl⟩
  obtain ⟨hread, hcallbacks⟩ := read_continues h.types hdegraded hended hexpects hcontinues hids hnew
  rw [hclient]
  refine ⟨hread, ?_⟩
  unfold RunFeed.deltas
  rw [hcallbacks, List.filterMap_append, deltas_dispatch, hgreeted]
  have hempty : callbacks.filterMap Callback.delta? = [] := hquiet
  rw [hempty]
  rfl

/-- A second stream ends the feed. -/
theorem client_two (h : Numbered ctx s) (hreads : Reads d s.published) (htwo : ¬ OneStream s.published) :
    (client ctx d snapshot now s.published).degraded = true := by
  have hempty : ([] : List κ).length ≤ 1 := Nat.zero_le 1
  rcases @relay_cases κ _ ctx d now _ hreads _ (fun e he => ⟨he, h.types e he⟩) _ hempty with
    ⟨_, seen, hlength, _, hkeys⟩ | ⟨before, hbefore, hrelay⟩
  · exfalso
    apply htwo
    intro e he e' he' id id' hid hid'
    obtain ⟨k, hk, hkey⟩ := hkeys e he id hid
    obtain ⟨k', hk', hkey'⟩ := hkeys e' he' id' hid'
    have hsame : k = k' := by
      match seen, hlength with
      | [], _ => cases hk
      | [x], _ => exact (List.mem_singleton.mp hk).trans (List.mem_singleton.mp hk').symm
    exact hreads.key_injective id id' (by rw [hkey, hkey', hsame])
  · set first := gatewayEvent ctx 0 "run.snapshot".toList now [("snapshot".toList, snapshot)] with hfirst
    have hread : client ctx d snapshot now s.published =
        (RunFeed.read ((first :: before).map some)).handleFrame (some (degradedEvent ctx now)) := by
      unfold client gateway RunFeed.read
      rw [hrelay, ← List.cons_append, List.map_append, List.foldl_append]
      rfl
    have hfollowed : Followed (RunFeed.read ((first :: before).map some)) (first :: before) := by
      apply followed_read
      intro e he
      rcases List.mem_cons.mp he with rfl | he
      · exact .inr rfl
      · exact .inl (h.types e (hbefore he))
    have hid : (degradedEvent ctx now).eventId ∉ (RunFeed.read ((first :: before).map some)).seenEventIds := by
      intro hmem
      obtain ⟨e, he, heq⟩ := hfollowed.seen _ hmem
      rcases List.mem_cons.mp he with rfl | he
      · exact absurd (ctx.gatewayId_injective 0 1 heq) (by decide)
      · obtain ⟨m, _, hm⟩ := List.mem_map.mp (h.ids.subset (List.mem_map_of_mem (hbefore he)))
        exact ctx.gatewayId_ne 1 m (heq.symm.trans hm.symm)
    rw [hread]
    by_cases hstopped : (RunFeed.read ((first :: before).map some)).degraded = true ∨ (RunFeed.read ((first :: before).map some)).ended = true
    · unfold RunFeed.handleFrame
      rw [if_pos hstopped]
      exact hstopped.elim (fun h => h) hfollowed.ended
    · have hdegraded := Bool.eq_false_of_not_eq_true fun h => hstopped (.inl h)
      have hended := Bool.eq_false_of_not_eq_true fun h => hstopped (.inr h)
      have htype : (degradedEvent ctx now).eventType = "stream.degraded".toList := rfl
      have hne : (degradedEvent ctx now).eventType ≠ [] := by
        rw [htype]
        decide
      rw [RunFeed.handleFrame_new hdegraded hended hne hid]
      unfold RunFeed.route
      rw [if_pos htype]
      unfold RunFeed.degrade
      rw [if_neg hstopped]
      rfl

/-- A Run keeps streaming exactly if its online events came from one sink and none of its deltas came too late. -/
theorem healthy_iff (h : Numbered ctx s) (hreads : Reads d s.published) :
    Healthy ctx d snapshot now s ↔ OneStream s.published ∧ s.fenced = [] := by
  constructor
  · rintro ⟨hdegraded, hdeltas⟩
    have hone : OneStream s.published := by
      by_contra htwo
      rw [client_two h hreads htwo] at hdegraded
      cases hdegraded
    refine ⟨hone, ?_⟩
    rw [(client_one h hreads hone).2] at hdeltas
    have hcounted := h.counted
    rw [hdeltas] at hcounted
    exact List.length_eq_zero_iff.mp (by omega)
  · rintro ⟨hone, hfenced⟩
    obtain ⟨hdegraded, hdeltas⟩ := @client_one κ _ ctx d snapshot now s h hreads hone
    exact ⟨hdegraded, hdeltas.trans (h.unfenced hfenced).symm⟩

end Healthy

/-! ### One process -/

/-- The end of the root trace has been published. -/
def RootEnded (ctx : RunContext) (steps : List SinkStep) : Prop :=
  ∃ activity status metadata duration now, SinkStep.emit activity (.traceEnd ctx.rootNode status metadata duration) now ∈ steps

/-- The activities of a Run get their sink in one process, and before that has seen the end of the Run; they publish before
the root trace has ended. -/
def OneProcess (ctx : RunContext) (worker : ℕ) (steps : List SinkStep) : Prop :=
  ∀ before x after, steps = before ++ x :: after →
    (∀ activity worker', x = .forRun activity worker' → worker' = worker ∧ .detach worker ∉ before ∧ ¬ RootEnded ctx before) ∧
      ∀ activity emission now, x = .emit activity emission now → ¬ RootEnded ctx before

theorem OneProcess.before {ctx : RunContext} {steps : List SinkStep} {x : SinkStep} (h : OneProcess ctx worker (steps ++ [x])) :
    OneProcess ctx worker steps := by
  intro before y after heq
  apply h before y (after ++ [x])
  rw [heq, List.append_assoc, List.cons_append]

/-- One process has one sink. -/
structure Alone (ctx : RunContext) (worker : ℕ) (steps : List SinkStep) (s : Publishing) : Prop where
  sinks : s.sinks.length ≤ 1
  active : ∀ worker' i, s.active worker' = some i → i < s.sinks.length
  held : ∀ activity i, s.held activity = some i → i < s.sinks.length
  kept : s.sinks ≠ [] → .detach worker ∉ steps → ¬ RootEnded ctx steps → ∃ i, s.active worker = some i
  opened : ¬ RootEnded ctx steps → ∀ sink ∈ s.sinks, sink.closed = false
  fenced : s.fenced = []

theorem RootEnded.concat {ctx : RunContext} {steps : List SinkStep} (h : RootEnded ctx steps) (x : SinkStep) : RootEnded ctx (steps ++ [x]) := by
  obtain ⟨activity, status, metadata, duration, now, hmem⟩ := h
  exact ⟨activity, status, metadata, duration, now, List.mem_append_left _ hmem⟩

/-- The end of the root trace closes a sink and takes it from its process, and does nothing else. -/
theorem terminalClose_frame (s : Publishing) (i : ℕ) : (s.terminalClose i).sinks.length = s.sinks.length ∧ (s.terminalClose i).held = s.held ∧
    (s.terminalClose i).fenced = s.fenced ∧ ∀ worker j, (s.terminalClose i).active worker = some j → s.active worker = some j := by
  unfold Publishing.terminalClose
  cases s.sinks[i]? with
  | none => exact ⟨rfl, rfl, rfl, fun _ _ h => h⟩
  | some sink =>
      dsimp only
      split_ifs
      · exact ⟨rfl, rfl, rfl, fun _ _ h => h⟩
      · unfold Publishing.closeRun
        cases (s.closeSink i).active sink.worker with
        | none => exact ⟨List.length_modify .., rfl, rfl, fun _ _ h => h⟩
        | some j =>
            refine ⟨(List.length_modify ..).trans (List.length_modify ..), rfl, rfl, ?_⟩
            intro worker k hk
            have hk' : Function.update s.active sink.worker none worker = some k := hk
            by_cases heq : worker = sink.worker
            · rw [heq, Function.update_self] at hk'
              cases hk'
            · rw [Function.update_of_ne heq] at hk'
              exact hk'

theorem publish_frame (ctx : RunContext) (s : Publishing) (i : ℕ) (emission : Emission) (now : List Char) :
    (s.publish ctx i emission now).sinks.length = s.sinks.length ∧ (s.publish ctx i emission now).held = s.held ∧
      (s.publish ctx i emission now).active = s.active ∧
      ((∀ sink ∈ s.sinks, sink.closed = false) →
        (∀ sink ∈ (s.publish ctx i emission now).sinks, sink.closed = false) ∧ (s.publish ctx i emission now).fenced = s.fenced) := by
  unfold Publishing.publish
  cases hi : s.sinks[i]? with
  | none => exact ⟨rfl, rfl, rfl, fun h => ⟨h, rfl⟩⟩
  | some sink =>
      cases emission.draft with
      | none => exact ⟨rfl, rfl, rfl, fun h => ⟨h, rfl⟩⟩
      | some draft =>
          refine ⟨List.length_set .., rfl, rfl, ?_⟩
          intro hopen
          have hsink := hopen sink (List.mem_of_getElem? hi)
          dsimp only
          constructor
          · intro found hfound
            rcases List.mem_or_eq_of_mem_set hfound with hold | hnew
            · exact hopen found hold
            · rw [hnew]
              rcases envelope_numbers ctx sink s.drawn now draft with ⟨heq, _⟩ | ⟨heq, _⟩
              · rw [heq]
                exact hsink
              · rw [heq]
                exact hsink
          · rw [if_neg (by simp [hsink])]

theorem Alone.start (ctx : RunContext) (worker : ℕ) : Alone ctx worker [] .start where
  sinks := Nat.zero_le 1
  active := nofun
  held := nofun
  kept h := absurd rfl h
  opened _ := nofun
  fenced := rfl

theorem Alone.step {ctx : RunContext} {steps : List SinkStep} {s : Publishing} (h : Alone ctx worker steps s) {x : SinkStep}
    (hforRun : ∀ activity worker', x = .forRun activity worker' → worker' = worker ∧ .detach worker ∉ steps ∧ ¬ RootEnded ctx steps)
    (hemit : ∀ activity emission now, x = .emit activity emission now → ¬ RootEnded ctx steps) :
    Alone ctx worker (steps ++ [x]) (s.step ctx x) := by
  have hkept' : s.sinks ≠ [] → .detach worker ∉ steps ++ [x] → ¬ RootEnded ctx (steps ++ [x]) → ∃ i, s.active worker = some i :=
    fun hne hdetach hended => h.kept hne (fun hmem => hdetach (List.mem_append_left _ hmem)) fun hold => hended (hold.concat x)
  have hopened' : ¬ RootEnded ctx (steps ++ [x]) → ∀ sink ∈ s.sinks, sink.closed = false :=
    fun hended => h.opened fun hold => hended (hold.concat x)
  cases x with
  | forRun activity worker' =>
      obtain ⟨rfl, hdetach, hended⟩ := hforRun activity worker' rfl
      show Alone ctx worker' _ (s.forRun ctx activity worker')
      unfold Publishing.forRun
      cases hactive : s.active worker' with
      | some i =>
          refine ⟨h.sinks, h.active, ?_, hkept', hopened', h.fenced⟩
          intro a j hj
          have hj' : Function.update s.held activity (some i) a = some j := hj
          by_cases ha : a = activity
          · rw [ha, Function.update_self] at hj'
            cases hj'
            exact h.active worker' i hactive
          · rw [Function.update_of_ne ha] at hj'
            exact h.held a j hj'
      | none =>
          have hnil : s.sinks = [] := by
            by_contra hne
            obtain ⟨i, hi⟩ := h.kept hne hdetach hended
            rw [hactive] at hi
            cases hi
          have hlength : s.sinks.length = 0 := List.length_eq_zero_iff.mpr hnil
          constructor
          case sinks => simp [hlength]
          case active =>
            intro w j hj
            have hj' : Function.update s.active worker' (some s.sinks.length) w = some j := hj
            by_cases hw : w = worker'
            · rw [hw, Function.update_self] at hj'
              cases hj'
              simp
            · rw [Function.update_of_ne hw] at hj'
              have := h.active w j hj'
              omega
          case held =>
            intro a j hj
            have hj' : Function.update s.held activity (some s.sinks.length) a = some j := hj
            by_cases ha : a = activity
            · rw [ha, Function.update_self] at hj'
              cases hj'
              simp
            · rw [Function.update_of_ne ha] at hj'
              have := h.held a j hj'
              omega
          case kept => exact fun _ _ _ => ⟨s.sinks.length, Function.update_self ..⟩
          case opened =>
            intro _ sink hsink
            rcases List.mem_append.mp hsink with hold | hnew
            · exact hopened' ‹_› sink hold
            · rw [List.mem_singleton.mp hnew]
          case fenced => exact h.fenced
  | detach worker' =>
      constructor
      case sinks => exact h.sinks
      case active =>
        intro w j hj
        have hj' : Function.update s.active worker' none w = some j := hj
        by_cases hw : w = worker'
        · rw [hw, Function.update_self] at hj'
          cases hj'
        · rw [Function.update_of_ne hw] at hj'
          exact h.active w j hj'
      case held => exact h.held
      case kept =>
        intro hne hdetach hended
        have hw : worker ≠ worker' := by
          intro heq
          apply hdetach
          rw [heq]
          exact List.mem_append_right _ (List.mem_singleton_self _)
        obtain ⟨i, hi⟩ := hkept' hne hdetach hended
        exact ⟨i, (Function.update_of_ne hw ..).trans hi⟩
      case opened => exact hopened'
      case fenced => exact h.fenced
  | emit activity emission now =>
      have hopen := h.opened (hemit activity emission now rfl)
      show Alone ctx worker _ (s.emit ctx activity emission now)
      unfold Publishing.emit
      cases s.held activity with
      | none => exact ⟨h.sinks, h.active, h.held, hkept', hopened', h.fenced⟩
      | some i =>
          obtain ⟨hlength, hheld, hactive, hsinks⟩ := publish_frame ctx s i emission now
          obtain ⟨hopen', hfenced⟩ := hsinks hopen
          have hpublished : Alone ctx worker (steps ++ [.emit activity emission now]) (s.publish ctx i emission now) := by
            refine ⟨by rw [hlength]; exact h.sinks, ?_, ?_, ?_, fun _ => hopen', hfenced.trans h.fenced⟩
            · rw [hactive, hlength]
              exact h.active
            · rw [hheld, hlength]
              exact h.held
            · rw [hactive]
              intro hne
              apply hkept'
              intro hnil
              apply hne
              rw [hnil] at hlength
              exact List.length_eq_zero_iff.mp hlength
          dsimp only
          split
          case h_2 => exact hpublished
          case h_1 nodeId status metadata duration =>
            split_ifs with hroot
            case neg => exact hpublished
            case pos =>
              subst hroot
              have hended : RootEnded ctx (steps ++ [.emit activity (.traceEnd ctx.rootNode status metadata duration) now]) :=
                ⟨activity, status, metadata, duration, now, List.mem_append_right _ (List.mem_singleton_self _)⟩
              obtain ⟨hlength', hheld', hfenced', hactive'⟩ :=
                terminalClose_frame (s.publish ctx i (.traceEnd ctx.rootNode status metadata duration) now) i
              refine ⟨?_, ?_, ?_, fun _ _ h => absurd hended h, fun h => absurd hended h, hfenced'.trans hpublished.fenced⟩
              · rw [hlength']
                exact hpublished.sinks
              · rw [hlength']
                exact fun w j hj => hpublished.active w j (hactive' w j hj)
              · rw [hlength', hheld']
                exact hpublished.held

theorem alone_run {ctx : RunContext} {steps : List SinkStep} (h : OneProcess ctx worker steps) :
    Alone ctx worker steps (publishing ctx steps) := by
  induction steps using List.reverseRecOn with
  | nil => exact .start ctx worker
  | append_singleton steps x ih =>
      rw [publishing_concat]
      obtain ⟨hforRun, hemit⟩ := h steps x [] rfl
      exact (ih h.before).step hforRun hemit

theorem oneStream_of_alone {ctx : RunContext} {steps : List SinkStep} {s : Publishing} (h : Alone ctx worker steps s)
    (hnumbered : Numbered ctx s) : OneStream s.published := by
  intro e he e' he' id id' hid hid'
  rcases hnumbered.known e he with ⟨hnone, _⟩ | ⟨i, _, hi, hi', _⟩
  · rw [hnone] at hid
    cases hid
  · rcases hnumbered.known e' he' with ⟨hnone, _⟩ | ⟨j, _, hj, hj', _⟩
    · rw [hnone] at hid'
      cases hid'
    · have hsinks := h.sinks
      have hij : i = j := by omega
      rw [hi'] at hid
      rw [hj'] at hid'
      rw [← Option.some.inj hid, ← Option.some.inj hid', hij]

/-- **Keeping on streaming.**  A Run keeps streaming exactly if its online events came from one sink and none of its deltas was
published after its sink was closed; so it does if its activities publish in one process, before that has seen the Run end. -/
theorem keeps_streaming {κ : Type} [DecidableEq κ] (ctx : RunContext) (d : Decoding κ) (snapshot : Json) (now : List Char)
    (steps : List SinkStep) (hreads : Reads d (publishing ctx steps).published) :
    (Healthy ctx d snapshot now (publishing ctx steps) ↔
        OneStream (publishing ctx steps).published ∧ (publishing ctx steps).fenced = []) ∧
      ∀ worker, OneProcess ctx worker steps → Healthy ctx d snapshot now (publishing ctx steps) := by
  have hiff := @healthy_iff κ _ ctx d snapshot now _ (numbered_run ctx steps) hreads
  refine ⟨hiff, ?_⟩
  intro worker h
  have halone := alone_run h
  exact hiff.mpr ⟨oneStream_of_alone halone (numbered_run ctx steps), halone.fenced⟩

/-- The ids of a Run that draws them one by one. -/
def drawnIds (letter : Char) (n : ℕ) : List Char := letter :: List.replicate n '0'

theorem drawnIds_injective (letter : Char) (m n : ℕ) (h : drawnIds letter m = drawnIds letter n) : m = n := by
  have hlength := congrArg List.length h
  simpa [drawnIds] using hlength

def drawnContext : RunContext where
  runId := "run".toList
  rootNode := "root".toList
  eventId := drawnIds 'e'
  streamId := drawnIds 's'
  gatewayId := drawnIds 'g'
  eventId_injective := drawnIds_injective 'e'
  streamId_injective := drawnIds_injective 's'
  gatewayId_injective := drawnIds_injective 'g'
  gatewayId_ne := by
    intro m n h
    have hletter : 'g' = 'e' := (List.cons.inj h).1
    exact absurd hletter (by decide)

/-- `json.loads` on what was published. -/
def decodingOf (published : List SseEnvelope) : Decoding (List Char) where
  loads text := (published.find? fun e => e.text = text).map fun e => .obj e.body
  key
    | .str s => some s
    | _ => none

theorem reads_decodingOf {published : List SseEnvelope} (h : (published.map SseEnvelope.text).Nodup) : Reads (decodingOf published) published where
  loads := by
    intro e he
    have hfound : ∃ e', published.find? (fun x => x.text = e.text) = some e' := by
      rw [← Option.isSome_iff_exists, List.find?_isSome]
      exact ⟨e, he, decide_eq_true rfl⟩
    obtain ⟨e', he'⟩ := hfound
    have htext : e'.text = e.text := by simpa using List.find?_some he'
    have hsame : e' = e := List.inj_on_of_nodup_map h (List.mem_of_find?_eq_some he') he htext
    show (published.find? fun x => x.text = e.text).map _ = _
    rw [he', Option.map_some, hsame]
  key _ := rfl
  key_injective _ _ h := Option.some.inj h

/-- Two activities in one process. -/
def sharedSteps : List SinkStep :=
  [.forRun 0 0, .emit 0 (.delta "a".toList "m".toList) "t".toList, .forRun 1 0, .emit 1 (.delta "b".toList "m".toList) "t".toList]

theorem keeps_streaming_shared :
    Healthy drawnContext (decodingOf (publishing drawnContext sharedSteps).published) .null "t".toList (publishing drawnContext sharedSteps) := by
  apply (keeps_streaming drawnContext _ .null "t".toList sharedSteps (reads_decodingOf (by decide +kernel))).2 0
  intro before x after heq
  have hended : ¬ RootEnded drawnContext before := by
    rintro ⟨activity, status, metadata, duration, now, hmem⟩
    have hin : SinkStep.emit activity (.traceEnd drawnContext.rootNode status metadata duration) now ∈ sharedSteps := by
      rw [heq]
      exact List.mem_append_left _ hmem
    simp [sharedSteps] at hin
  have hx : x ∈ sharedSteps := by
    rw [heq]
    exact List.mem_append_right _ (List.mem_cons_self ..)
  have hdetach : SinkStep.detach 0 ∉ before := by
    intro hmem
    have hin : SinkStep.detach 0 ∈ sharedSteps := by
      rw [heq]
      exact List.mem_append_left _ hmem
    simp [sharedSteps] at hin
  refine ⟨?_, fun _ _ _ _ => hended⟩
  rintro activity worker rfl
  refine ⟨?_, hdetach, hended⟩
  simp only [sharedSteps, List.mem_cons, SinkStep.forRun.injEq, reduceCtorEq, List.not_mem_nil, or_false, false_or] at hx
  omega

/-- Two activities in two processes. -/
def separateSteps : List SinkStep :=
  [.forRun 0 0, .emit 0 (.delta "a".toList "m".toList) "t".toList, .forRun 1 1, .emit 1 (.delta "b".toList "m".toList) "t".toList]

/-- The second sink ends the stream. -/
theorem separate_processes_degrade :
    Reads (decodingOf (publishing drawnContext separateSteps).published) (publishing drawnContext separateSteps).published ∧
      ¬ Healthy drawnContext (decodingOf (publishing drawnContext separateSteps).published) .null "t".toList
        (publishing drawnContext separateSteps) := by
  have hreads : Reads (decodingOf (publishing drawnContext separateSteps).published) (publishing drawnContext separateSteps).published :=
    reads_decodingOf (by decide +kernel)
  refine ⟨hreads, ?_⟩
  rintro ⟨hdegraded, _⟩
  have htwo : ¬ OneStream (publishing drawnContext separateSteps).published := by
    intro hone
    have hsame := hone _ (List.mem_cons_self ..) _ (List.mem_cons_of_mem _ (List.mem_cons_self ..)) (drawnIds 's' 0) (drawnIds 's' 1) rfl rfl
    exact absurd (drawnIds_injective 's' 0 1 hsame) (by decide)
  rw [client_two (numbered_run drawnContext separateSteps) hreads htwo] at hdegraded
  cases hdegraded

end HpAgent.Stream
